import Stencil.CommandLine.Run

/-! The command itself, over the files of the working directory. -/
namespace Stencil

/-- Whether an action succeeds. -/
def succeeds (x : IO Unit) : IO Bool := do
  try
    x
    return true
  catch _ => return false

/-- The value of an action that may fail. -/
def attempt? {α : Type} (x : IO α) : IO (Option α) := do
  try
    return some (← x)
  catch _ => return none

/-- Files under the working directory. -/
def workingDisk : Disk IO where
  isDir path := do
    ((← IO.currentDir) / path).isDir
  isFile path := do
    let p := (← IO.currentDir) / path
    return (← p.pathExists) && !(← p.isDir)
  pathExists path := do
    ((← IO.currentDir) / path).pathExists
  read? path := attempt? (IO.FS.readFile path)
  list? path := attempt? do
    return (← ((← IO.currentDir) / path).readDir).toList.map (·.fileName)
  makeDirs path := succeeds (IO.FS.createDirAll path)
  write path content := succeeds (IO.FS.writeFile path content)

end Stencil

open Stencil in
def main (args : List String) : IO UInt32 := do
  let (result, notices) ← CommandLine.run workingDisk args
  for n in notices do
    IO.eprintln ((if n.isError then "ERROR " else "WARN ") ++ n.message)
  IO.print result.output
  match result.error with
  | some message => IO.eprintln ("Error: " ++ message)
  | none => pure ()
  if result.code == 2 then IO.eprint CommandLine.usageText
  return result.code.toUInt32
