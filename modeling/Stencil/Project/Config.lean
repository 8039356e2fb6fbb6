import Stencil.Project.Disk
import Stencil.Template.Basic
import Stencil.Toml.Document

/-! The configuration of a project, what can go wrong in one, and the settings that the configuration and
the command line come to. -/
namespace Stencil

inductive ProjectError where
  | unreadable (path : String)
  | unparsable (path : String)
  | unlistable (path : String)
  | uncreatable (path : String)
  | unwritable (path : String)
  /-- A path to a template that gives it no name. -/
  | unnamed (path : String)
  | noTemplate (path : String)
  | badAssignment (text : String)
  | failedTemplates (failed total : Nat)
  | format (reason : FormatError)
  | compile (reason : CompileError)

def ProjectError.message : ProjectError → String
  | unreadable path => "failed to read " ++ path
  | unparsable path => "failed to parse " ++ path
  | unlistable path => "failed to list " ++ path
  | uncreatable path => "failed to create " ++ path
  | unwritable path => "failed to write " ++ path
  | unnamed path => "no template name in " ++ path
  | noTemplate path => "no template in " ++ path
  | badAssignment text => "expected key=value, got " ++ Text.quoted text
  | failedTemplates failed total =>
    toString failed ++ " of " ++ toString total ++ " template(s) failed to compile"
  | format reason => reason.message
  | compile reason => reason.message

abbrev ProjectM (m : Type → Type) := ExceptT ProjectError (StateT (List Notice) m)

namespace Project

variable {m : Type → Type} [Monad m]

def notify (n : Notice) : ProjectM m Unit := modify (· ++ [n])

def orFail {α : Type} (e : ProjectError) : Option α → ProjectM m α
  | some a => pure a
  | none => throw e

def readFile (disk : Disk m) (path : String) : ProjectM m String := do
  orFail (.unreadable path) (← disk.read? path)

end Project

structure Config where
  /-- Names of formats; none means all of them. -/
  formats : List String := []
  outDir : Option String := none
  react : Option ComponentOptions := none
  deriving DecidableEq, Repr

namespace Config

open Toml (Value Table)

/-- A choice among names: the name alone, or a table with that one empty member. -/
def name? : Value → Option String
  | .string s => some s
  | .table _ [(s, .table _ [])] => some s
  | .table _ [(s, .array [])] => some s
  | _ => none

def withMember (o : ComponentOptions) : String × Value → Option ComponentOptions
  | ("language", v) => return { o with language := ← (name? v).bind Language.ofName? }
  | ("css", v) => return { o with css := ← (name? v).bind CssStrategy.ofName? }
  | _ => none

def options? : Value → Option ComponentOptions
  | .table _ members => members.foldlM withMember {}
  | .array items => (["language", "css"].zip items).foldlM withMember {}
  | .tables items => (["language", "css"].zip (items.map (.table .header))).foldlM withMember {}
  | _ => none

def strings? : Value → Option (List String)
  | .array items => items.mapM fun
    | .string s => some s
    | _ => none
  | _ => none

def withEntry (c : Config) : String × Value → Option Config
  | ("formats", v) => return { c with formats := ← strings? v }
  | ("out_dir", .string s) => some { c with outDir := some s }
  | ("react", v) => return { c with react := some (← options? v) }
  | _ => none

/-- An entry that is not known is refused. -/
def parse? (text : String) : Option Config := do
  (← Toml.parse? text).foldlM withEntry {}

def defaultPath : String := "metatemplate.toml"

variable {m : Type → Type} [Monad m]

def loadFrom (disk : Disk m) (path : String) : ProjectM m Config := do
  let text ← Project.readFile disk path
  Project.orFail (.unparsable path) (parse? text)

/-- The configuration in the named file, or in the default one if that is there. -/
def load (disk : Disk m) : Option String → ProjectM m Config
  | some path => loadFrom disk path
  | none => do
    if ← disk.pathExists defaultPath then loadFrom disk defaultPath else return {}

end Config

/-- The formats of these names, each once; all of them for no name. -/
def Format.parseAll (names : List String) : Except FormatError (List Format) :=
  if names.isEmpty then .ok all else (names.mapM parse).map List.eraseDups

structure Settings where
  formats : List Format
  outDir : String
  react : Option ComponentOptions
  deriving DecidableEq, Repr

/-- Formats and a directory that are given win over the configuration. -/
def Settings.resolve (config : Config) (formats : List String) (outDir : Option String) :
    Except FormatError Settings := do
  let formats ← Format.parseAll (if formats.isEmpty then config.formats else formats)
  return { formats, outDir := (outDir.or config.outDir).getD "target/metatemplate", react := config.react }

end Stencil
