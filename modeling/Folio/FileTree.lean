import Folio.Document
import Folio.Path
import Folio.Text.Utf8

/-!
# File trees

A file tree is the set of its entries: directories, files and symbolic links. Looking a path up
follows links the way an operating system does; resolving a path replaces its links and also its
parts `..`, whether the path exists or not.
-/

namespace Folio

inductive Node where
  | directory
  | file (content : Content)
  | link (target : Text)
deriving DecidableEq, Repr

def Node.isLink : Node → Bool
  | .link _ => true
  | _ => false

/-- The entries of a tree. Every directory above an entry is an entry too, except the root, which is
always there. -/
structure FileTree where
  entries : List (List Name × Node)

inductive SystemReason where
  | missing
  | occupied
  | notDirectory
  | isDirectory
  | nameTooLong
  | tooManyLinks
deriving DecidableEq, Repr

def SystemReason.number : SystemReason → Nat
  | .missing => 2
  | .occupied => 17
  | .notDirectory => 20
  | .isDirectory => 21
  | .nameTooLong => 36
  | .tooManyLinks => 40

def SystemReason.description : SystemReason → String
  | .missing => "No such file or directory"
  | .occupied => "File exists"
  | .notDirectory => "Not a directory"
  | .isDirectory => "Is a directory"
  | .nameTooLong => "File name too long"
  | .tooManyLinks => "Too many levels of symbolic links"

structure SystemError where
  reason : SystemReason
  path : Text
deriving DecidableEq, Repr

def SystemError.message (e : SystemError) : Text :=
  "[Errno ".toList ++ Text.ofNat e.reason.number ++ "] ".toList
    ++ e.reason.description.toList ++ ": ".toList ++ Text.quoted e.path

namespace FileTree

def empty : FileTree := ⟨[]⟩

def node? (tree : FileTree) (path : List Name) : Option Node :=
  if path.isEmpty then some .directory else tree.entries.lookup path

def maxNameBytes : Nat := 255

def maxPathBytes : Nat := 4095

def nameFits (name : Name) : Bool :=
  name.utf8ByteSize ≤ maxNameBytes

def maxLinks : Nat := 40

/-- Walks from a directory along parts. A link is handed to `onLink` with the directory it stands in
and the parts after it. A dot stays where it is, but only in a directory. With `new` set, the last
part may be missing. -/
def advance (tree : FileTree) (new : Bool)
    (onLink : List Name → Text → List Name → Except SystemReason (List Name)) :
    List Name → List Name → Except SystemReason (List Name)
  | here, [] => .ok here
  | here, part :: rest =>
    match tree.node? here with
    | some .directory =>
      if part == "." then advance tree new onLink here rest
      else if part == ".." then advance tree new onLink here.dropLast rest
      else if !nameFits part then .error .nameTooLong
      else
        match tree.node? (here ++ [part]) with
        | none => if new && rest.isEmpty then .ok (here ++ [part]) else .error .missing
        | some (.link target) => onLink here target rest
        | some _ => advance tree new onLink (here ++ [part]) rest
    | some _ => .error .notDirectory
    | none => .error .missing

def wantsDirectory (target : Text) : Bool :=
  let last := target.reverse.takeWhile (· != '/')
  last.isEmpty || last == ['.']

def targetParts (target : Text) : List Name :=
  (WrittenPath.ofText target).parts ++ (if wantsDirectory target then ["."] else [])

def targetBase (here : List Name) (target : Text) : List Name :=
  if (WrittenPath.ofText target).absolute then [] else here

def walk (tree : FileTree) (new : Bool) :
    Nat → List Name → List Name → Except SystemReason (List Name)
  | 0 => fun _ _ => .error .tooManyLinks
  | links + 1 => advance tree new fun here target rest =>
    walk tree new links (targetBase here target) (targetParts target ++ rest)

def walkPath (tree : FileTree) (new : Bool) (path : Path) : Except SystemReason (List Name) :=
  if maxPathBytes < (String.ofList path.text).utf8ByteSize then .error .nameTooLong
  else walk tree new (maxLinks + 1) [] path.parts

def locate (tree : FileTree) (path : Path) : Except SystemReason (List Name) :=
  tree.walkPath false path

/-- The place that a path leads to, links followed, where there may be no entry yet. -/
def destination (tree : FileTree) (path : Path) : Except SystemReason (List Name) :=
  tree.walkPath true path

def follow (tree : FileTree) (path : Path) : Except SystemReason Node := do
  match tree.node? (← locate tree path) with
  | some node => .ok node
  | none => .error .missing

/-- Is there an entry with a property? A path that leads nowhere has none; a name that is too long is
an error. -/
def test (tree : FileTree) (p : Node → Bool) (path : Path) : Except SystemError Bool :=
  match tree.follow path with
  | .ok node => .ok (p node)
  | .error .nameTooLong => .error ⟨.nameTooLong, path.text⟩
  | .error _ => .ok false

def exists? (tree : FileTree) (path : Path) : Except SystemError Bool :=
  tree.test (fun _ => true) path

def isFile? (tree : FileTree) (path : Path) : Except SystemError Bool :=
  tree.test (fun node => match node with | .file _ => true | _ => false) path

def isDirectory? (tree : FileTree) (path : Path) : Except SystemError Bool :=
  tree.test (fun node => match node with | .directory => true | _ => false) path

def read (tree : FileTree) (path : Path) : Except SystemError Content :=
  match tree.follow path with
  | .ok (.file content) => .ok content
  | .ok _ => .error ⟨.isDirectory, path.text⟩
  | .error reason => .error ⟨reason, path.text⟩

inductive Resolution where
  | path (p : Path)
  | circle (p : Path)
deriving DecidableEq, Repr

/-- Resolves parts seen from a resolved place. A link is handed to `onLink`, which gives the place it
leads to. What does not exist is no link. Where links go round in a circle, the parts after them are
left as they are. -/
def resolveParts (tree : FileTree)
    (onLink : List Name → Text → Except (List Name) (List Name)) :
    List Name → List Name → Except (List Name) (List Name)
  | here, [] => .ok here
  | here, part :: rest =>
    if part == ".." then resolveParts tree onLink here.dropLast rest
    else
      match tree.node? (here ++ [part]) with
      | some (.link target) =>
        match onLink (here ++ [part]) target with
        | .ok there => resolveParts tree onLink there rest
        | .error left => .error (left ++ rest)
      | _ => resolveParts tree onLink (here ++ [part]) rest

/-- The links that are being followed are all different, so their number bounds how deep they lead
into each other. -/
def resolveFrom (tree : FileTree) : Nat → List (List Name) → List Name → List Name →
    Except (List Name) (List Name)
  | 0, _ => fun here rest => .error (here ++ rest)
  | fuel + 1, followed => resolveParts tree fun link target =>
    if followed.contains link then .error link
    else
      resolveFrom tree fuel (link :: followed) (targetBase link.dropLast target)
        (WrittenPath.ofText target).parts

def linkCount (tree : FileTree) : Nat :=
  tree.entries.countP fun (_, node) => node.isLink

def collapse (parts : List Name) : List Name :=
  parts.foldl (fun done part => if part == ".." then done.dropLast else done ++ [part]) []

/-- The path without links and parts `..`. Where links go round in a circle, what is left of the path
may still lead somewhere. -/
def resolve (tree : FileTree) (path : Path) : Resolution :=
  match resolveFrom tree (tree.linkCount + 1) [] [] path.parts with
  | .ok place => .path ⟨place⟩
  | .error left =>
    let p : Path := ⟨collapse left⟩
    match tree.locate p with
    | .error .tooManyLinks => .circle p
    | _ => .path p

def resolved (tree : FileTree) (path : Path) : Path :=
  match tree.resolve path with
  | .path p => p
  | .circle p => p

def names (tree : FileTree) (path : List Name) : List Name :=
  tree.entries.filterMap fun (p, _) =>
    if p.dropLast == path then p.getLast? else none

def below (tree : FileTree) (path : Path) : List Path :=
  match tree.locate path with
  | .ok place =>
    match tree.node? place with
    | some .directory => tree.entries.filterMap fun (p, _) =>
        if place.isPrefixOf p && place != p then
          some ⟨path.parts ++ p.drop place.length⟩
        else none
    | _ => []
  | .error _ => []

def children (tree : FileTree) (path : Path) : List Path :=
  match tree.locate path with
  | .ok place => (tree.names place).map path.child
  | .error _ => []

def put (tree : FileTree) (path : List Name) (node : Node) : FileTree :=
  ⟨tree.entries.filter (·.1 != path) ++ [(path, node)]⟩

def ensureDirectory (tree : FileTree) (path : List Name) : FileTree :=
  match tree.node? path with
  | some _ => tree
  | none => tree.put path .directory

def ensureDirectories (tree : FileTree) (path : List Name) : FileTree :=
  (List.range path.length).foldl (fun tree i => tree.ensureDirectory (path.take (i + 1))) tree

def add (tree : FileTree) (path : List Name) (node : Node) : FileTree :=
  (tree.ensureDirectories path.dropLast).put path node

def remove (tree : FileTree) (path : List Name) : FileTree :=
  ⟨tree.entries.filter fun (p, _) => !path.isPrefixOf p⟩

/-- Writes text to the file that a path leads to; the file is made if its directory is there. -/
def write (tree : FileTree) (path : Path) (t : Text) : Except SystemError FileTree :=
  match tree.destination path with
  | .ok place =>
    match tree.node? place with
    | some .directory => .error ⟨.isDirectory, path.text⟩
    | _ => .ok (tree.put place (.file (.text t)))
  | .error reason => .error ⟨reason, path.text⟩

/-- Makes a directory unless there is one. A link that leads nowhere is in the way. -/
def makeDirectory (tree : FileTree) (path : Path) : Except SystemError FileTree :=
  match tree.locate path with
  | .ok place =>
    match tree.node? place with
    | some .directory => .ok tree
    | _ => .error ⟨.occupied, path.text⟩
  | .error reason =>
    match tree.locate path.parent with
    | .ok place =>
      match tree.node? (place ++ [path.name]), reason with
      | none, .missing => .ok (tree.put (place ++ [path.name]) .directory)
      | none, _ => .error ⟨reason, path.text⟩
      | some _, _ => .error ⟨.occupied, path.text⟩
    | .error reason => .error ⟨reason, path.text⟩

end FileTree

end Folio
