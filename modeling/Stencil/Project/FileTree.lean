import Stencil.Project.Disk
import Stencil.Project.Path

/-! A tree of files in memory, as a disk. The tree maps locations, lists of names from the root, to
directories and files. A path is walked from the root name by name, through directories only. It may
leave the root upwards: the location then starts with double dots, and what they lead to is a directory
like the root. -/
namespace Stencil

inductive FileEntry where
  | dir
  | file (content : String)
  deriving DecidableEq, Repr

structure FileTree where
  entries : List (List String × FileEntry) := []
  deriving Repr

namespace FileTree

/-- The root and the directories above it. -/
def isAbove (location : List String) : Bool := location.all (· == "..")

/-- The location of the parent directory. -/
def up (location : List String) : List String :=
  if isAbove location then location ++ [".."] else location.dropLast

def get? (t : FileTree) (location : List String) : Option FileEntry :=
  if isAbove location then some .dir else t.entries.lookup location

def put (t : FileTree) (location : List String) (e : FileEntry) : FileTree :=
  ⟨(location, e) :: t.entries.filter (·.1 != location)⟩

def isDirAt (t : FileTree) (location : List String) : Bool := t.get? location == some .dir

/-- The names right under a location. -/
def namesIn (t : FileTree) (location : List String) : List String :=
  t.entries.filterMap fun (l, _) => if l.dropLast == location then l.getLast? else none

/-- The steps of a path that starts at the root; a slash at the end asks for a directory. -/
def steps? (path : String) : Option (List String) :=
  match path.toList with
  | [] => none
  | '/' :: _ => none
  | cs => some (Path.steps path ++ if cs.getLast? == some '/' then ["."] else [])

/-- Where a path leads, whether or not something is there. -/
def walk? (t : FileTree) : List String → List String → Option (List String)
  | location, [] => some location
  | location, step :: rest =>
    if !t.isDirAt location then none
    else if step == "." then t.walk? location rest
    else if step == ".." then t.walk? (up location) rest
    else t.walk? (location ++ [step]) rest

def locate? (t : FileTree) (path : String) : Option (List String) := (steps? path).bind (t.walk? [])

def find? (t : FileTree) (path : String) : Option FileEntry := (t.locate? path).bind t.get?

/-- Makes the directories along a path. -/
def makeDirs? (t : FileTree) : List String → List String → Option FileTree
  | _, [] => some t
  | location, step :: rest =>
    if step == "." then t.makeDirs? location rest
    else if step == ".." then t.makeDirs? (up location) rest
    else
      match t.get? (location ++ [step]) with
      | some (.file _) => none
      | some .dir => t.makeDirs? (location ++ [step]) rest
      | none => (t.put (location ++ [step]) .dir).makeDirs? (location ++ [step]) rest

def write? (t : FileTree) (path content : String) : Option FileTree := do
  let location ← t.locate? path
  if t.isDirAt location then none else some (t.put location (.file content))

/-- A tree with these directories and files. -/
def ofFiles (dirs : List String) (files : List (String × String)) : FileTree :=
  let withDirs (t : FileTree) (path : String) := (t.makeDirs? [] (Path.steps path)).getD t
  let t := dirs.foldl withDirs {}
  files.foldl (fun t (path, content) =>
    let t := withDirs t (Path.parent path)
    (t.write? path content).getD t) t

/-- The files under the root by path. -/
def files (t : FileTree) : List (String × String) :=
  t.entries.filterMap fun
    | (".." :: _, _) => none
    | (location, .file content) => some (Text.join "/" location, content)
    | _ => none

def attempt (f : FileTree → Option FileTree) : StateM FileTree Bool := fun t =>
  match f t with
  | some t => (true, t)
  | none => (false, t)

def disk : Disk (StateM FileTree) where
  isDir path := fun t => (t.find? path == some .dir, t)
  isFile path := fun t => ((t.find? path).any (· != .dir), t)
  pathExists path := fun t => ((t.find? path).isSome, t)
  read? path := fun t => (match t.find? path with
    | some (.file content) => some content
    | _ => none, t)
  list? path := fun t => (match t.locate? path with
    | some location => if t.isDirAt location then some (t.namesIn location) else none
    | none => none, t)
  makeDirs path := attempt fun t => (steps? path).bind (t.makeDirs? [])
  write path content := attempt (·.write? path content)

end FileTree

end Stencil
