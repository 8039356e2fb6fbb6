import Stencil.FileMap
import Stencil.Format
import Stencil.Text.Search
import Stencil.Text.WordCase

/-! Index files of a directory of components: one that loads a component when it is asked for, and one
that holds them all. -/
namespace Stencil.Component

def lazyNote : String :=
  "// DEVELOPER NOTE: These components are ready to lazy-load. " ++
  "You may also import components directly.\n\n"

def eagerNote : String :=
  "// DEVELOPER NOTE: This file includes all components so importing it may be very inefficient. " ++
  "Prefer importing components directly, or index which loads them on demand.\n\n"

/-- The name of a file in the directory without the extension. -/
def stem (dirname ext path : String) : Except FormatError String :=
  match Text.Chars.after? (dirname ++ "/").toList path.toList with
  | none => .error (.outsideDirectory path dirname)
  | some name =>
    match Text.Chars.after? ext.toList.reverse name.reverse with
    | some front => .ok (String.ofList front.reverse)
    | none => .ok (String.ofList name)

def isIndex (stem : String) : Bool := stem == "index" || stem == "indexNotLazy"

def lazyExport (stem : String) : String :=
  "export const " ++ Text.pascalCase stem ++ " = () => import(\"./" ++ stem ++ "\");\n"

def eagerExport (stem : String) : String :=
  "export \x7b default as " ++ Text.camelCase stem ++ " \x7d from \"./" ++ stem ++ "\";\n"

/-- The index files for the given paths, which must all be in the directory of the format. -/
def indexFiles (dirname : String) (language : Language) (paths : List String) :
    Except FormatError FileMap := do
  let ext := "." ++ language.fileExtension
  let stems := (← paths.mapM (stem dirname ext)).filter (!isIndex ·)
  return FileMap.ofList
    [(dirname ++ "/index" ++ ext, lazyNote ++ Text.concat (stems.map lazyExport)),
      (dirname ++ "/indexNotLazy" ++ ext, eagerNote ++ Text.concat (stems.map eagerExport))]

end Stencil.Component
