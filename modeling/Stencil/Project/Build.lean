import Stencil.Project.Config
import Stencil.Project.Path
import Stencil.Template.Compile

/-! Building a project: templates from their files to the files of every format, and index files over
what stands in the directory of a component format. A template that does not compile writes nothing;
the others are still built. -/
namespace Stencil.Project

variable {m : Type → Type} [Monad m]

/-- The files an input stands for: itself, or the templates right inside a directory, sorted. -/
def templateFiles (disk : Disk m) (input : String) : ProjectM m (List String) := do
  if ← disk.isDir input then
    let names ← orFail (.unlistable input) (← disk.list? input)
    let found := names.filter fun n => (Path.splitName n).2 == some "html"
    return (found.mergeSort fun a b => decide (a ≤ b)).map (Path.join input)
  else return [input]

/-- The template in a file, with the stylesheet beside it if there is one. -/
def readTemplate (disk : Disk m) (path : String) : ProjectM m Template := do
  let id ← orFail (.unnamed path) (Path.stem? path)
  let html ← readFile disk path
  let cssPath := Path.withExtension path "css"
  if ← disk.pathExists cssPath then
    return { id, html, css := ← readFile disk cssPath }
  else return { id, html }

def readTemplates (disk : Disk m) (inputs : List String) : ProjectM m (List Template) := do
  let files ← inputs.mapM (templateFiles disk)
  files.flatten.mapM (readTemplate disk)

def writeFiles (disk : Disk m) (outDir : String) : FileMap → ProjectM m (List String)
  | [] => return []
  | (relative, content) :: rest => do
    let path := Path.join outDir relative
    if !(← disk.makeDirs (Path.parent path)) then throw (.uncreatable (Path.parent path))
    if !(← disk.write path content) then throw (.unwritable path)
    return path :: (← writeFiles disk outDir rest)

def isComponentFile (language : Language) (name : String) : Bool :=
  let (stem, ext) := Path.splitName name
  ext == some language.fileExtension && !Component.isIndex stem

/-- Writes the index files of one format, if it has components and its directory is there. -/
def indexFormat (disk : Disk m) (outDir : String) (react : Option ComponentOptions) (f : Format) :
    ProjectM m (List String) := do
  match f.kind with
  | .logicLess _ => return []
  | .component defaults =>
    let dir := Path.join outDir f.name
    if !(← disk.isDir dir) then return []
    let names ← orFail (.unlistable dir) (← disk.list? dir)
    let files ← names.filterM fun n => liftM (disk.isFile (Path.join dir n))
    let components := files.filter (isComponentFile (react.getD defaults).language)
    let paths := (components.mergeSort fun a b => decide (a ≤ b)).map fun n => f.name ++ "/" ++ n
    match f.indexFiles paths react with
    | .error e => throw (.format e)
    | .ok map => writeFiles disk outDir map

def index (disk : Disk m) (s : Settings) : ProjectM m (List String) := do
  return (← s.formats.mapM (indexFormat disk s.outDir s.react)).flatten

/-- Builds one template; returns the paths written, or nothing if it does not compile. -/
def buildTemplate (disk : Disk m) (s : Settings) (t : Template) : ProjectM m (Option (List String)) := do
  let compiled := t.compile s.formats s.react
  compiled.notices.forM notify
  match compiled.outcome with
  | .error e =>
    notify (.templateFailed e.message)
    return none
  | .ok outputs => return some (← outputs.mapM fun (_, files) => writeFiles disk s.outDir files).flatten

def build (disk : Disk m) (inputs : List String) (s : Settings) : ProjectM m (List String) := do
  let templates ← readTemplates disk inputs
  let built ← templates.mapM (buildTemplate disk s)
  let indexed ← index disk s
  let failed := (built.filter Option.isNone).length
  if failed > 0 then throw (.failedTemplates failed templates.length)
  return (built.filterMap id).flatten ++ indexed

end Stencil.Project
