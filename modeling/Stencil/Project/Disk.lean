/-! What a project needs of the place its files are in. -/
namespace Stencil

structure Disk (m : Type → Type) where
  isDir : String → m Bool
  isFile : String → m Bool
  pathExists : String → m Bool
  /-- The text of a file, unless there is none or it cannot be read. -/
  read? : String → m (Option String)
  /-- The names in a directory, in any order. -/
  list? : String → m (Option (List String))
  /-- Makes a directory with all that are missing above it, and says whether it is there. -/
  makeDirs : String → m Bool
  /-- Writes a file, and says whether that worked. -/
  write : (path content : String) → m Bool

end Stencil
