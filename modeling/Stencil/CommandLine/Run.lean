import Stencil.CommandLine.Arguments

/-! Running a command: what it prints, and how it ends. -/
namespace Stencil.CommandLine

structure Result where
  code : Nat
  output : String := ""
  /-- The message of a command that failed. -/
  error : Option String := none
  deriving DecidableEq, Repr

def versionText : String := "metatemplate 0.1.1\n"

def usageText : String :=
  "Usage: metatemplate [--config <CONFIG>] [--verbose] <COMMAND>\n\n" ++
  "  build <INPUTS>... [--out-dir <OUT_DIR>] [--format <FORMAT>]...\n" ++
  "        [--react-language typescript|javascript]\n" ++
  "        [--react-css styled-components|import-css|none]\n" ++
  "  index <OUT_DIR> [--format <FORMAT>]...\n" ++
  "  preview <INPUT> [--set <KEY=VALUE>]... [--values-file <VALUES_FILE>]\n"

variable {m : Type → Type} [Monad m]

def settings (config : Config) (formats : List String) (outDir : Option String) :
    ProjectM m Settings :=
  match Settings.resolve config formats outDir with
  | .ok s => pure s
  | .error e => throw (.format e)

/-- Options on the command line change those of the configuration, or the default ones. -/
def withOptions (s : Settings) (language : Option Language) (css : Option CssStrategy) : Settings :=
  if language.isNone && css.isNone then s
  else
    let base := s.react.getD {}
    { s with react := some ⟨language.getD base.language, css.getD base.css⟩ }

def generated (paths : List String) : String :=
  Text.concat (paths.map fun p => "Generated: " ++ p ++ "\n")

/-- The output of a command. -/
def perform (disk : Disk m) (a : Arguments) : ProjectM m String := do
  let config ← Config.load disk a.config
  match a.command with
  | .build inputs outDir formats language css =>
    let s ← settings config formats outDir
    return generated (← Project.build disk inputs (withOptions s language css))
  | .index outDir formats =>
    let s ← settings config formats (some outDir)
    return generated (← Project.index disk s)
  | .preview input valuesFile assignments =>
    return (← Project.preview disk input valuesFile assignments) ++ "\n"

/-- Runs a command line, and returns what was noticed on the way. -/
def run (disk : Disk m) (args : List String) : m (Result × List Notice) :=
  match parse args with
  | .error .misuse => pure ({ code := 2 }, [])
  | .error .help => pure ({ code := 0, output := usageText }, [])
  | .error .version => pure ({ code := 0, output := versionText }, [])
  | .ok a => do
    let (outcome, notices) ← (perform disk a).run.run []
    match outcome with
    | .ok output => return ({ code := 0, output }, notices)
    | .error e => return ({ code := 1, error := some e.message }, notices)

end Stencil.CommandLine
