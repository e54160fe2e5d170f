import BitEquiv.Bench.CommandLine
import BitEquiv.Execution.Shell.Run

/-!
# The program

The working directory is taken into a file tree, the command line runs on the tree,
and what has changed is written back. External programs are those of the shell of
this library.
-/

namespace BitEquiv
namespace Main

open Execution (Files Node Place)

def upper (name : String) : String := String.ofList (name.toList.map Char.toUpper)

def variableNames : List String :=
  match Bench.Config.ofSettings .default with
  | .table fields =>
      fields.flatMap fun (name, d) =>
        let start := Bench.variableStart ++ upper name
        match d with
        | .table inner => inner.map fun (key, _) => start ++ "__" ++ upper key
        | _ => [start]
  | _ => []

def readVariables (names : List String) : IO (List (String × String)) := do
  let pairs ← names.mapM fun name => do return (name, ← IO.getEnv name)
  return pairs.filterMap fun (name, value) => value.map fun v => (name, v)

def pathOf (place : Place) : String := "/" ++ String.intercalate "/" place

def above (place : Place) : List (Place × Node) :=
  (List.range (place.length + 1)).map fun n => (place.take n, Node.directory)

partial def readTree (place : Place) : IO (List (Place × Node)) := do
  let here ← IO.currentDir
  let mut entries := []
  for entry in ← (here / pathOf place).readDir do
    let inner := place ++ [entry.fileName]
    if ← entry.path.isDir then
      entries := (inner, Node.directory) :: (← readTree inner) ++ entries
    else
      let bytes ← IO.FS.readBinFile entry.path
      entries := (inner, Node.file bytes.toList) :: entries
  return entries

def writeChanges (before after : Files) : IO Unit := do
  for (place, node) in after.entries.mergeSort fun a b => a.1.length ≤ b.1.length do
    if before.node? place != some node then
      match node with
      | .directory => IO.FS.createDirAll (pathOf place)
      | .file bytes => IO.FS.writeBinFile (pathOf place) ⟨bytes.toArray⟩

/-- Remove what one tree had and another has not, inner places first. -/
def removeGone (before after : Files) : IO Unit := do
  for (place, node) in before.entries.mergeSort fun a b => b.1.length ≤ a.1.length do
    if (after.node? place).isNone then
      match node with
      | .directory => IO.FS.removeDirAll (pathOf place)
      | .file _ => IO.FS.removeFile (pathOf place)

def run (args : List String) : IO UInt32 := do
  let here := (← IO.currentDir).toString
  let place := (Execution.pathParts here).filter (· ≠ "")
  let found ← readTree place
  let before : Files := ⟨found ++ above place ++ [(["tmp"], Node.directory)], place, []⟩
  let environment ← readVariables variableNames
  let (finish, after) := Bench.CommandLine.run Execution.Shell.host 1 args environment before
  writeChanges before after
  removeGone before after
  (← IO.getStdout).putStr finish.stdout
  (← IO.getStderr).putStr finish.stderr
  return UInt32.ofNat finish.exitCode

end Main
end BitEquiv

def main (args : List String) : IO UInt32 := BitEquiv.Main.run args
