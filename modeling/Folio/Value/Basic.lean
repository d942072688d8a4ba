import Folio.Shelf.Directory
import Folio.Source.Expr

/-!
# Values

Texts and numbers are plain data; lists are shared, so a list value is a reference to a list of the
world; files and directories are handles. Built-in functions and methods are values too.
-/

namespace Folio

inductive Builtin where
  | directory
  | file
  | print
  | length
deriving DecidableEq, Repr

inductive TextMethod where
  | upper
  | lower
  | strip
  | stripLeft
  | stripRight
  | split
  | splitLines
  | replace
  | startsWith
  | endsWith
  | find
  | count
  | join
  | isDigit
  | title
deriving DecidableEq, Repr

inductive ListMethod where
  | append
  | extend
  | insert
  | pop
  | remove
  | index
  | count
  | reverse
  | sort
  | copy
  | clear
deriving DecidableEq, Repr

inductive FileMethod where
  | read
  | search
  | contains
  | head
  | tail
  | table
  | semanticSearch
  | snippets
deriving DecidableEq, Repr

inductive DirectoryMethod where
  | files
  | tree
  | search
  | semanticSearch
  | length
deriving DecidableEq, Repr

def Builtin.name : Builtin → String
  | .directory => "Directory"
  | .file => "File"
  | .print => "print"
  | .length => "len"

def TextMethod.name : TextMethod → String
  | .upper => "upper"
  | .lower => "lower"
  | .strip => "strip"
  | .stripLeft => "lstrip"
  | .stripRight => "rstrip"
  | .split => "split"
  | .splitLines => "splitlines"
  | .replace => "replace"
  | .startsWith => "startswith"
  | .endsWith => "endswith"
  | .find => "find"
  | .count => "count"
  | .join => "join"
  | .isDigit => "isdigit"
  | .title => "title"

def ListMethod.name : ListMethod → String
  | .append => "append"
  | .extend => "extend"
  | .insert => "insert"
  | .pop => "pop"
  | .remove => "remove"
  | .index => "index"
  | .count => "count"
  | .reverse => "reverse"
  | .sort => "sort"
  | .copy => "copy"
  | .clear => "clear"

def FileMethod.name : FileMethod → String
  | .read => "read"
  | .search => "search"
  | .contains => "contains"
  | .head => "head"
  | .tail => "tail"
  | .table => "table"
  | .semanticSearch => "semantic_search"
  | .snippets => "snippets"

def DirectoryMethod.name : DirectoryMethod → String
  | .files => "files"
  | .tree => "tree"
  | .search => "search"
  | .semanticSearch => "semantic_search"
  | .length => "__len__"

def Builtin.ofName? (name : String) : Option Builtin :=
  [.directory, .file, .print, .length].find? fun b : Builtin => b.name == name

def TextMethod.ofName? (name : String) : Option TextMethod :=
  [.upper, .lower, .strip, .stripLeft, .stripRight, .split, .splitLines, .replace, .startsWith,
    .endsWith, .find, .count, .join, .isDigit, .title].find? fun m : TextMethod => m.name == name

def ListMethod.ofName? (name : String) : Option ListMethod :=
  [.append, .extend, .insert, .pop, .remove, .index, .count, .reverse, .sort, .copy,
    .clear].find? fun m : ListMethod => m.name == name

def FileMethod.ofName? (name : String) : Option FileMethod :=
  [.read, .search, .contains, .head, .tail, .table, .semanticSearch,
    .snippets].find? fun m : FileMethod => m.name == name

def DirectoryMethod.ofName? (name : String) : Option DirectoryMethod :=
  [.files, .tree, .search, .semanticSearch, .length].find? fun m : DirectoryMethod => m.name == name

inductive Value where
  | nothing
  | bool (b : Bool)
  | int (n : Int)
  | float (x : Float)
  | text (t : Text)
  | list (ref : Nat)
  | file (f : File)
  | directory (d : Directory)
  | path (p : Path)
  | builtin (b : Builtin)
  | textMethod (t : Text) (m : TextMethod)
  | listMethod (ref : Nat) (m : ListMethod)
  | fileMethod (f : File) (m : FileMethod)
  | directoryMethod (d : Directory) (m : DirectoryMethod)

namespace Value

def typeName : Value → TypeName
  | nothing => "NoneType"
  | bool _ => "bool"
  | int _ => "int"
  | float _ => "float"
  | text _ => "str"
  | list _ => "list"
  | file _ => "DSLFile"
  | directory _ => "DSLDirectory"
  | path _ => "PosixPath"
  | builtin .length => "builtin_function_or_method"
  | builtin _ => "method"
  | textMethod _ _ => "builtin_function_or_method"
  | listMethod _ _ => "builtin_function_or_method"
  | fileMethod _ _ => "method"
  | directoryMethod _ _ => "method"

def isCallable : Value → Bool
  | builtin _ => true
  | textMethod _ _ => true
  | listMethod _ _ => true
  | fileMethod _ _ => true
  | directoryMethod _ _ => true
  | _ => false

def attribute? (name : String) : Value → Option Value
  | text t => (TextMethod.ofName? name).map (textMethod t)
  | list ref => (ListMethod.ofName? name).map (listMethod ref)
  | file f =>
    if name == "path" then some (path f.path)
    else (FileMethod.ofName? name).map (fileMethod f)
  | directory d =>
    if name == "path" then some (path d.path)
    else if name == "recursive" then some (bool d.recursive)
    else (DirectoryMethod.ofName? name).map (directoryMethod d)
  | path p =>
    match name with
    | "name" => some (text p.name.toList)
    | "suffix" => some (text p.ending)
    | "stem" => some (text p.stem)
    | _ => none
  | _ => none

def numeral? : Value → Option Numeral
  | int n => some (.number n)
  | bool b => some (.flag b)
  | _ => none

def int? (v : Value) : Option Int :=
  v.numeral?.map Numeral.value

def text? : Value → Option Text
  | text t => some t
  | _ => none

def ofConstant : Source.Constant → Value
  | .none => nothing
  | .bool b => bool b
  | .int n => int n
  | .float x => float x
  | .text t => text t

end Value

/-- What a program works on: the shelf, its lists and its variables in the order in which they were
first set. -/
structure World where
  shelf : Shelf
  lists : Array (Array Value)
  bindings : List (String × Value)

abbrev Run := Action World Fault

namespace World

def ofTree (tree : FileTree) : World := ⟨Shelf.ofTree tree, #[], []⟩

def items (w : World) (ref : Nat) : Array Value :=
  w.lists[ref]?.getD #[]

def valueOf? (w : World) (name : String) : Option Value :=
  w.bindings.lookup name

def assign (w : World) (name : String) (value : Value) : World :=
  { w with bindings :=
      if w.bindings.any (·.1 == name) then
        w.bindings.map fun (n, v) => if n == name then (n, value) else (n, v)
      else w.bindings ++ [(name, value)] }

end World

namespace Run

variable {α : Type}

def onShelf (a : ShelfAction α) : Run α :=
  a.within (·.shelf) fun shelf w => { w with shelf := shelf }

def onTree (a : TreeAction α) : Run α :=
  onShelf (Shelf.onTree a)

def complain (c : Complaint) : Run α :=
  throw c.fault

def fail (e : Failure) : Run α :=
  throw (.failure e)

def ofFailure : Except Failure α → Run α
  | .ok a => pure a
  | .error e => fail e

def ofOperand : Except OperandMistake α → Run α
  | .ok a => pure a
  | .error e => fail (.operand e)

def newList (items : List Value) : Run Value := do
  let w ← get
  set { w with lists := w.lists.push items.toArray }
  return .list w.lists.size

def changeList (ref : Nat) (f : Array Value → Array Value) : Run Unit :=
  modify fun w => { w with lists := w.lists.modify ref f }

def items (ref : Nat) : Run (Array Value) := do
  return (← get).items ref

end Run

end Folio
