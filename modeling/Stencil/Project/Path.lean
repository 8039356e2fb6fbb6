import Stencil.Text.Blank

/-! Paths as text, with slashes between their names. Doubled slashes and dots that stand for the same
directory do not matter for what a path names. -/
namespace Stencil.Path

def steps (path : String) : List String :=
  ((Text.Chars.pieces (· == '/') path.toList).filter (!·.isEmpty)).map String.ofList

/-- The last name of a path; a path to the same or the parent directory has none. -/
def fileName? (path : String) : Option String :=
  ((steps path).filter (· != ".")).getLast?.filter (· != "..")

/-- A name without its extension, and the extension: what follows the last dot, unless that dot is in
front. -/
def splitName (name : String) : String × Option String :=
  let ext := (name.toList.reverse.takeWhile (· != '.')).reverse
  match (name.toList.reverse.dropWhile (· != '.')).reverse with
  | [] | ['.'] => (name, none)
  | front => (String.ofList front.dropLast, some (String.ofList ext))

def stem? (path : String) : Option String := (fileName? path).map fun n => (splitName n).1

def fileExtension? (path : String) : Option String := (fileName? path).bind fun n => (splitName n).2

/-- The path up to and with the dot of its extension, for a path that ends in its name. -/
def withoutExtension (path : String) : String :=
  match fileExtension? path with
  | some old => String.ofList (path.toList.take (path.length - old.length))
  | none => path

/-- The path with another extension, for a path that ends in its name. Where the name without extension
is that of the parent directory, the path leads there. -/
def withExtension (path ext : String) : String :=
  let front := withoutExtension path
  match fileName? front with
  | none => front
  | some name =>
    let surplus := name.length - (splitName name).1.length
    String.ofList (front.toList.take (front.length - surplus)) ++ "." ++ ext

def join (dir path : String) : String :=
  if dir.isEmpty || dir.toList.getLast? == some '/' then dir ++ path else dir ++ "/" ++ path

def parent (path : String) : String :=
  String.ofList ((path.toList.reverse.dropWhile (· != '/')).drop 1).reverse

end Stencil.Path
