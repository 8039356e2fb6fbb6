import Stencil.Project.Preview

/-! The arguments of the command line. Options stand before or among the operands; two of them may also
stand before the command, where the ones after it win. Arguments are taken from left to right, and the
first one that is wrong, or asks for help or the version, ends the reading. -/
namespace Stencil.CommandLine

inductive Opt where
  | config
  | verbose
  | help
  | version
  | outDir
  | format
  | reactLanguage
  | reactCss
  | set
  | valuesFile
  deriving DecidableEq, Repr

namespace Opt

def long : Opt → String
  | config => "config"
  | verbose => "verbose"
  | help => "help"
  | version => "version"
  | outDir => "out-dir"
  | format => "format"
  | reactLanguage => "react-language"
  | reactCss => "react-css"
  | set => "set"
  | valuesFile => "values-file"

def short? : Opt → Option Char
  | verbose => some 'v'
  | help => some 'h'
  | version => some 'V'
  | _ => none

end Opt

inductive Stop where
  | misuse
  | help
  | version
  deriving DecidableEq, Repr

/-- What has been read at one level of the command line. -/
structure Collected where
  config : Option String := none
  verbose : Bool := false
  outDir : Option String := none
  formats : List String := []
  language : Option Language := none
  css : Option CssStrategy := none
  assignments : List (String × String) := []
  valuesFile : Option String := none
  operands : List String := []

namespace Collected

/-- A value that is given for the first time; a second one is an error. -/
def once {α : Type} (old : Option α) (new : Option α) : Except Stop (Option α) :=
  match old, new with
  | none, some a => .ok (some a)
  | _, _ => .error .misuse

/-- Paths are not empty. -/
def path? (s : String) : Option String := if s.isEmpty then none else some s

def withValue (c : Collected) (o : Opt) (value : String) : Except Stop Collected := do
  match o with
  | .config => return { c with config := ← once c.config (path? value) }
  | .outDir => return { c with outDir := ← once c.outDir (path? value) }
  | .format => return { c with formats := c.formats ++ [value] }
  | .reactLanguage => return { c with language := ← once c.language (Language.ofName? value) }
  | .reactCss => return { c with css := ← once c.css (CssStrategy.ofName? value) }
  | .set =>
    match Project.assignment value with
    | .ok a => return { c with assignments := c.assignments ++ [a] }
    | .error _ => throw .misuse
  | .valuesFile => return { c with valuesFile := ← once c.valuesFile (path? value) }
  | .verbose | .help | .version => throw .misuse

def withFlag (c : Collected) (o : Opt) : Except Stop Collected :=
  match o with
  | .verbose => if c.verbose then .error .misuse else .ok { c with verbose := true }
  | .help => .error .help
  | .version => .error .version
  | _ => .error .misuse

def withOperand (limit : Option Nat) (c : Collected) (s : String) : Except Stop Collected :=
  if s.isEmpty || limit.any (· ≤ c.operands.length) then .error .misuse
  else .ok { c with operands := c.operands ++ [s] }

end Collected

def isFlag (o : Opt) : Bool := o == .verbose || o == .help || o == .version

/-- Whether an argument is read as options. A lone dash is not. -/
def isDashed (arg : String) : Bool :=
  match arg.toList with
  | '-' :: _ :: _ => true
  | _ => false

def takeShorts (known : List Opt) (c : Collected) : List Char → Except Stop Collected
  | [] => .ok c
  | letter :: rest =>
    match known.find? (·.short? == some letter) with
    | none => .error .misuse
    | some o => do takeShorts known (← c.withFlag o) rest

/-- The option a long argument names, and the value after its equals sign. -/
def long? (known : List Opt) (arg : String) : Option (Opt × Option String) := do
  let (name, value) := match Text.splitOnce? "=" arg with
    | some (name, value) => (name, some value)
    | none => (arg, none)
  let o ← known.find? fun o => "--" ++ o.long == name
  return (o, value)

/-- Reads arguments up to the first operand that `stop` holds of, which is returned with the rest.
After two dashes all arguments are operands. -/
def readArgs (known : List Opt) (limit : Option Nat) (stop : String → Bool) (c : Collected) :
    List String → Except Stop (Collected × List String)
  | [] => .ok (c, [])
  | arg :: rest =>
    if arg == "--" then do
      return (← rest.foldlM (Collected.withOperand limit) c, [])
    else if !isDashed arg then
      if stop arg then .ok (c, arg :: rest)
      else do readArgs known limit stop (← c.withOperand limit arg) rest
    else if arg.toList.take 2 == ['-', '-'] then
      match long? known arg with
      | none => .error .misuse
      | some (o, some value) => do readArgs known limit stop (← c.withValue o value) rest
      | some (o, none) =>
        if isFlag o then do readArgs known limit stop (← c.withFlag o) rest
        else
          match rest with
          | value :: rest =>
            if isDashed value then .error .misuse
            else do readArgs known limit stop (← c.withValue o value) rest
          | [] => .error .misuse
    else do readArgs known limit stop (← takeShorts known c (arg.toList.drop 1)) rest

inductive Command where
  | build (inputs : List String) (outDir : Option String) (formats : List String)
      (language : Option Language) (css : Option CssStrategy)
  | index (outDir : String) (formats : List String)
  | preview (input : String) (valuesFile : Option String) (assignments : List (String × String))

structure Arguments where
  config : Option String
  verbose : Bool
  command : Command

def common : List Opt := [.config, .verbose, .help]

/-- The options of a command, how many operands it takes at most, and the command itself once they have
been read. -/
structure Grammar where
  options : List Opt
  limit : Option Nat
  command? : Collected → Option Command

def grammar? : String → Option Grammar
  | "build" => some
    { options := common ++ [.outDir, .format, .reactLanguage, .reactCss]
      limit := none
      command? := fun c =>
        if c.operands.isEmpty then none
        else some (.build c.operands c.outDir c.formats c.language c.css) }
  | "index" => some
    { options := common ++ [.format]
      limit := some 1
      command? := fun c => c.operands.head?.map fun dir => .index dir c.formats }
  | "preview" => some
    { options := common ++ [.set, .valuesFile]
      limit := some 1
      command? := fun c => c.operands.head?.map fun input => .preview input c.valuesFile c.assignments }
  | _ => none

/-- Help is given on the whole, or on one command by its name. -/
def help : List String → Stop
  | [] => .help
  | [name] => if name == "help" || (grammar? name).isSome then .help else .misuse
  | _ => .misuse

def parse (args : List String) : Except Stop Arguments := do
  let (outer, rest) ← readArgs (.version :: common) (some 0) (fun _ => true) {} args
  match rest with
  | [] => throw .misuse
  | "help" :: names => throw (help names)
  | name :: rest =>
    match grammar? name with
    | none => throw .misuse
    | some g =>
      let (inner, _) ← readArgs g.options g.limit (fun _ => false) {} rest
      match g.command? inner with
      | none => throw .misuse
      | some command =>
        return { config := inner.config.or outer.config, verbose := outer.verbose || inner.verbose, command }

end Stencil.CommandLine
