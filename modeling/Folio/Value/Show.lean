import Folio.Value.Basic

/-!
# Values in writing

A value is shown in one way by itself and in another inside a list, where texts are quoted. A list
that contains itself is shown as dots at its second place.
-/

namespace Folio

def Setting.display (s : Setting) (tree : FileTree) (path : Path) : Text :=
  ((tree.resolved path).seenFrom s.cwd).text

/-- The path of a handle as it is shown, unless its links go round in a circle. -/
def Setting.displayed (s : Setting) (tree : FileTree) (path : Path) : Except Failure Text :=
  if path.parts.any fun part => part.toList.contains '\x00' then .error .nullInPath
  else
    match tree.resolve path with
    | .path _ => .ok (s.display tree path)
    | .circle p => .error (.linkCircle p)

namespace Value

def intText (n : Int) : Except Failure Text :=
  if Decimal.isTooLong n then .error .numberTooLong else .ok (Text.ofInt n)

def boolText (b : Bool) : Text :=
  (if b then "True" else "False").toList

def boundMethod (type name : String) (receiver : Text) : Text :=
  "<bound method ".toList ++ type.toList ++ '.' :: name.toList ++ " of ".toList ++ receiver ++ ['>']

def handleText (constructor : Builtin) (path : Text) : Text :=
  constructor.name.toList ++ "('".toList ++ path ++ "')".toList

def itemText (s : Setting) (tree : FileTree) : Value → Except Failure Text
  | nothing => .ok "None".toList
  | bool b => .ok (boolText b)
  | int n => intText n
  | float x => .ok (Decimal.floatText x)
  | text t => .ok (Text.quoted t)
  | list _ => .ok "[...]".toList
  | file f => (s.displayed tree f.path).map (handleText .file)
  | directory d => (s.displayed tree d.path).map (handleText .directory)
  | path p => .ok ("PosixPath(".toList ++ Text.quoted p.text ++ [')'])
  | builtin .length => .ok "<built-in function len>".toList
  | builtin b => .ok ("<bound method ".toList ++ b.name.toList ++ ['>'])
  | textMethod _ m => .ok ("<built-in method ".toList ++ m.name.toList ++ " of str object>".toList)
  | listMethod _ m => .ok ("<built-in method ".toList ++ m.name.toList ++ " of list object>".toList)
  | fileMethod f m =>
    (s.displayed tree f.path).map fun path => boundMethod "DSLFile" m.name (handleText .file path)
  | directoryMethod d m =>
    (s.displayed tree d.path).map fun path =>
      boundMethod "DSLDirectory" m.name (handleText .directory path)

/-- A value as it is shown inside a list. The lists that are being shown are `outer`; there cannot be
more of them than the world has. -/
def shownInside (s : Setting) (w : World) : Nat → List Nat → Value → Except Failure Text
  | fuel + 1, outer, .list ref =>
    if outer.contains ref then .ok "[...]".toList
    else do
      let items ← (w.items ref).toList.mapM (shownInside s w fuel (ref :: outer))
      return '[' :: Text.joinWith ", ".toList items ++ [']']
  | _, _, v => itemText s w.shelf.tree v

def inner (s : Setting) (w : World) (v : Value) : Except Failure Text :=
  shownInside s w (w.lists.size + 1) [] v

def shown (s : Setting) (w : World) : Value → Except Failure Text
  | text t => .ok t
  | file f => s.displayed w.shelf.tree f.path
  | directory d => s.displayed w.shelf.tree d.path
  | path p => .ok p.text
  | v => inner s w v

end Value

end Folio
