import Folio.Command

/-!
# The command at the terminal

Takes the files that a command line may reach from the disk, performs the command on them, and
brings back what it prints and writes. No reader for packed documents is installed.
-/

namespace Folio.Terminal

def fileName (place : List Name) : String :=
  String.ofList (Path.mk place).text

def placeOf (name : String) : List Name :=
  (WrittenPath.ofText name.toList).parts

partial def gather (place : List Name) : IO (List (List Name × Node)) := do
  let here ← IO.FS.realPath (fileName place)
  if placeOf here.toString != place then return [(place, .link here.toString.toList)]
  if ← here.isDir then
    let entries ← here.readDir
    let below ← entries.toList.mapM fun entry => gather (place ++ [entry.fileName])
    return (place, .directory) :: below.flatten
  let bytes ← IO.FS.readBinFile here
  return [(place, .file (.bytes bytes.toList))]

def gatherIfThere (place : List Name) : IO (List (List Name × Node)) := do
  try gather place
  catch _ => return []

def topOf (cwd : Path) (arg : String) : IO Path := do
  let written := (arg.toList.reverse.takeWhile (· != '=')).reverse
  let named := cwd.join (WrittenPath.ofText written)
  try
    let here ← IO.FS.realPath (fileName named.parts)
    let place := placeOf here.toString
    return ⟨if ← here.isDir then place else place.dropLast⟩
  catch _ => return named

/-- The places that a command line may reach: the current directory, the directories of what its
words name, and the indexes of the directories above those. -/
def reach (cwd : Path) (args : List String) : IO (List (List Name)) := do
  let tops := cwd :: (← args.mapM (topOf cwd))
  let indexes := tops.flatMap fun top => top.ancestors.map (·.child Index.directoryName)
  return ((tops ++ indexes).map (·.parts)).eraseDups

def load (cwd : Path) (args : List String) : IO FileTree := do
  let places ← reach cwd args
  let entries ← places.mapM gatherIfThere
  let start := (places.map List.dropLast).foldl FileTree.ensureDirectories FileTree.empty
  return ⟨(start.entries ++ entries.flatten).eraseDups⟩

def store (before after : FileTree) : IO Unit := do
  for (place, node) in after.entries do
    if before.node? place != some node then
      match node with
      | .directory => IO.FS.createDirAll (fileName place)
      | .file (.text t) => IO.FS.writeFile (fileName place) (String.ofList t)
      | _ => pure ()

end Folio.Terminal

open Folio Folio.Terminal in
def main (args : List String) : IO UInt32 := do
  let here ← IO.currentDir
  let cwd : Path := ⟨placeOf here.toString⟩
  let tree ← load cwd args
  let outcome := (Command.perform ⟨false, false, false⟩ cwd (args.map String.toList)).run none
    (World.ofTree tree)
  IO.print (String.ofList outcome.printed)
  store tree outcome.state.shelf.tree
  match outcome.ending with
  | .finished exit =>
    IO.eprint (String.ofList exit.stderr)
    return exit.code.toUInt32
  | .failed fault =>
    IO.eprintln (String.ofList fault.text)
    return 1
  | _ => return 1
