import Folio.Shelf.Basic

/-!
# Trees in writing

A directory is shown as an indented list: its directories first, each followed by what is in it, then
its files, all by their names in lower case, down to a depth and up to a number of lines. A *view*
gives the entries of a directory, from the file system or from the paths that an index has.
-/

namespace Folio

namespace TreeView

structure Entry (ν : Type) where
  name : Name
  directory : Option ν

structure View (ν : Type) where
  entries : ν → Except SystemError (List (Entry ν))
  enter : Phase
  atDirectory : Phase
  atFile : Phase

/-- How far a list has come: its lines and the checkpoints passed, the last ones first. -/
structure Progress where
  lines : List Text
  passed : List Phase
  truncated : Bool

namespace Progress

def pass (p : Progress) (phase : Phase) : Progress :=
  { p with passed := phase :: p.passed }

def line (p : Progress) (t : Text) : Progress :=
  { p with lines := t :: p.lines }

end Progress

def sortEntries {ν : Type} (entries : List (Entry ν)) : List (Entry ν) :=
  entries.mergeSort fun a b => !(Text.lower b.name.toList < Text.lower a.name.toList)

def arrange {ν : Type} (entries : List (Entry ν)) : List (Entry ν) :=
  sortEntries (entries.filter (·.directory.isSome))
    ++ sortEntries (entries.filter (·.directory.isNone))

def indent (depth : Nat) : Text :=
  List.replicate (2 * depth) ' '

def visitAll {α : Type} (visit : Progress → α → Progress × Bool) :
    Progress → List α → Progress × Bool
  | p, [] => (p, true)
  | p, a :: rest =>
    match visit p a with
    | (p, true) => visitAll visit p rest
    | (p, false) => (p, false)

def visit {ν : Type} (view : View ν) (maxEntries depth : Nat)
    (enter : Progress → ν → Progress × Bool) (p : Progress) (entry : Entry ν) : Progress × Bool :=
  let p := p.pass (if entry.directory.isSome then view.atDirectory else view.atFile)
  if maxEntries ≤ p.lines.length then ({ p with truncated := true }, false)
  else
    match entry.directory with
    | some directory =>
      enter (p.line (indent (depth + 1) ++ entry.name.toList ++ ['/'])) directory
    | none => (p.line (indent (depth + 1) ++ entry.name.toList), true)

/-- Lists what is in a directory, down to a number of levels. Says whether to go on. -/
def walk {ν : Type} (view : View ν) (maxEntries : Nat) :
    Nat → Nat → Progress → ν → Progress × Bool
  | 0, _, p, _ => (p.pass view.enter, true)
  | levels + 1, depth, p, directory =>
    let p := p.pass view.enter
    match view.entries directory with
    | .error e =>
      let p := p.line (indent (depth + 1) ++ "[unreadable: ".toList ++ e.message ++ [']'])
      (p, p.lines.length < maxEntries)
    | .ok entries =>
      visitAll (visit view maxEntries depth (walk view maxEntries levels (depth + 1))) p
        (arrange entries)

def list {ν : Type} (view : View ν) (maxDepth maxEntries : Nat) (title : Text) (directory : ν) :
    Progress :=
  (walk view maxEntries maxDepth 0 ⟨[title], [], false⟩ directory).1

def text (limit : Numeral) (p : Progress) : Text :=
  let lines := p.lines.reverse
  Text.joinWith ['\n'] (if p.truncated then
    lines ++ ["... truncated after ".toList ++ limit.text ++ " entries".toList]
  else lines)

/-- The entries of a directory in the file system; links to directories count as directories. -/
def fileEntries (tree : FileTree) (path : Path) : Except SystemError (List (Entry Path)) :=
  match tree.follow path with
  | .ok .directory =>
    (tree.children path).mapM fun child => do
      return ⟨child.name, if ← tree.isDirectory? child then some child else none⟩
  | .ok _ => .error ⟨.notDirectory, path.text⟩
  | .error reason => .error ⟨reason, path.text⟩

def fileView (tree : FileTree) : View Path where
  entries := fileEntries tree
  enter := "directory.tree.walk"
  atDirectory := "directory.tree.entry"
  atFile := "directory.tree.entry"

/-- The number of levels beyond which a tree has no entries: every link on the way to one leads into
a chain of directories of the tree. -/
def levelBound (tree : FileTree) : Nat :=
  (FileTree.maxLinks + 1) * (tree.entries.length + 1)

def pathEntries (paths : List (List Name)) : List (Entry (List (List Name))) :=
  let directories := (paths.filterMap fun path =>
    match path with
    | name :: _ :: _ => some name
    | _ => none).eraseDups
  let files := (paths.filterMap fun path =>
    match path with
    | [name] => some name
    | _ => none).eraseDups
  directories.map (fun name =>
    ⟨name, some (paths.filterMap fun path =>
      match path with
      | first :: next :: rest => if first == name then some (next :: rest) else none
      | _ => none)⟩)
    ++ files.map fun name => ⟨name, none⟩

def pathView : View (List (List Name)) where
  entries := fun paths => .ok (pathEntries paths)
  enter := "directory.render_tree.walk"
  atDirectory := "directory.render_tree.dir"
  atFile := "directory.render_tree.file"

end TreeView

namespace Directory

def writeTree (limit : Numeral) (p : TreeView.Progress) : TreeAction Text := do
  Action.forList Action.check p.passed.reverse
  return TreeView.text limit p

def treeOfPaths (directory : Directory) (title : Text) (maxDepth : Nat) (limit : Numeral)
    (paths : List Path) : TreeAction Text := do
  Action.check "directory.render_tree"
  Action.checkTimes "directory.render_tree.path" paths.length
  let inside := paths.filterMap fun path =>
    (path.relativeTo? directory.path).map (·.parts)
  let levels := min maxDepth ((inside.map List.length).foldl max 0)
  writeTree limit (TreeView.list TreeView.pathView levels limit.value.toNat title inside)

def treeOfFiles (directory : Directory) (title : Text) (maxDepth : Nat) (limit : Numeral) :
    TreeAction Text := do
  let tree ← get
  let levels := min maxDepth (TreeView.levelBound tree)
  let view := TreeView.fileView tree
  writeTree limit (TreeView.list view levels limit.value.toNat title directory.path)

def tree (directory : Directory) (s : Setting) (maxDepth : Nat) (limit : Numeral) :
    TreeAction Text := do
  let paths ← Index.directoryPaths? directory.path true
  let title := (← s.shown directory.path) ++ ['/']
  match paths with
  | some paths => directory.treeOfPaths title maxDepth limit paths
  | none => directory.treeOfFiles title maxDepth limit

end Directory

end Folio
