import Folio.Value.Basic

/-!
# Comparing values

Numbers of all kinds compare by their size, texts character by character, and lists item by item.
Handles are equal only to themselves. Whether a directory counts as true depends on the files in it.
-/

namespace Folio

inductive Number where
  | whole (n : Int)
  | float (x : Float)

def Value.number? : Value → Option Number
  | .int n => some (.whole n)
  | .bool b => some (.whole (if b then 1 else 0))
  | .float x => some (.float x)
  | _ => none

def Number.compare? : Number → Number → Option Ordering
  | .whole m, .whole n => some (compare m n)
  | .whole n, .float x => (Decimal.compareInt? x n).map Ordering.swap
  | .float x, .whole n => Decimal.compareInt? x n
  | .float x, .float y =>
    if x < y then some .lt else if x > y then some .gt else if x == y then some .eq else none

def compareBy {α : Type} [BEq α] (lt : α → α → Bool) : List α → List α → Ordering
  | [], [] => .eq
  | [], _ :: _ => .lt
  | _ :: _, [] => .gt
  | a :: as, b :: bs =>
    if a == b then compareBy lt as bs else if lt a b then .lt else .gt

def compareText (a b : Text) : Ordering :=
  compareBy (fun c d => c < d) a b

def comparePath (p q : Path) : Ordering :=
  compareBy (fun a b => a < b) p.parts q.parts

namespace Value

/-- In lists, what is not a number at all is equal to itself. `depth` bounds how far lists are
nested. -/
def equalAt (w : World) : Nat → Value → Value → Bool
  | depth, .list a, .list b =>
    let xs := (w.items a).toList
    let ys := (w.items b).toList
    match depth with
    | 0 => a == b
    | depth + 1 =>
      xs.length == ys.length && (xs.zip ys).all fun (x, y) =>
        (match x, y with
          | .float u, .float v => u.isNaN && v.isNaN
          | .list r, .list s => r == s
          | _, _ => false) || equalAt w depth x y
  | _, .nothing, .nothing => true
  | _, .text a, .text b => a == b
  | _, .file a, .file b => a.id == b.id
  | _, .directory a, .directory b => a.id == b.id
  | _, .path a, .path b => a == b
  | _, .builtin a, .builtin b => a == b
  | _, .textMethod a m, .textMethod b n => a == b && m == n
  | _, .listMethod a m, .listMethod b n => a == b && m == n
  | _, .fileMethod a m, .fileMethod b n => a.id == b.id && m == n
  | _, .directoryMethod a m, .directoryMethod b n => a.id == b.id && m == n
  | _, a, b =>
    match a.number?, b.number? with
    | some x, some y => x.compare? y == some .eq
    | _, _ => false

def equal (w : World) (a b : Value) : Bool :=
  equalAt w (w.lists.size + 1) a b

def same (w : World) (a b : Value) : Bool :=
  (match a, b with
    | .float u, .float v => u.isNaN && v.isNaN
    | .list r, .list s => r == s
    | _, _ => false) || equal w a b

end Value

inductive SizeTest where
  | less
  | lessEqual
  | greater
  | greaterEqual
deriving DecidableEq, Repr

namespace SizeTest

def symbol : SizeTest → String
  | less => "<"
  | lessEqual => "<="
  | greater => ">"
  | greaterEqual => ">="

def holds : SizeTest → Ordering → Bool
  | less, o => o == .lt
  | lessEqual, o => o != .gt
  | greater, o => o == .gt
  | greaterEqual, o => o != .lt

end SizeTest

namespace Value

def firstDifference (w : World) : List Value → List Value → Option (Value × Value)
  | x :: xs, y :: ys => if same w x y then firstDifference w xs ys else some (x, y)
  | _, _ => none

def testAt (w : World) (test : SizeTest) :
    Nat → Value → Value → Except OperandMistake Bool
  | depth + 1, .list a, .list b =>
    let xs := (w.items a).toList
    let ys := (w.items b).toList
    match firstDifference w xs ys with
    | some (x, y) => testAt w test depth x y
    | none => .ok (test.holds (compare xs.length ys.length))
  | _, .text a, .text b => .ok (test.holds (compareText a b))
  | _, .path p, .path q => .ok (test.holds (comparePath p q))
  | _, a, b =>
    match a.number?, b.number? with
    | some x, some y => .ok ((x.compare? y).any test.holds)
    | _, _ => .error (.incomparable test.symbol a.typeName b.typeName)

def test (w : World) (test : SizeTest) (a b : Value) : Except OperandMistake Bool :=
  testAt w test (w.lists.size + 1) a b

def truth : Value → Run Bool
  | .nothing => return false
  | .bool b => return b
  | .int n => return n != 0
  | .float x => return x != 0.0
  | .text t => return !t.isEmpty
  | .list ref => return !(← Run.items ref).isEmpty
  | .directory d => return (← Run.onTree d.size) != 0
  | _ => return true

/-- Is a value in a container? Handles are looked up by the names of their paths. -/
def isIn (w : World) (item : Value) : Value → Except OperandMistake Bool
  | .list ref => .ok ((w.items ref).any fun other => same w other item)
  | .text t =>
    match item with
    | .text needle => .ok (Text.hasInfix needle t)
    | _ => .error (.textMember item.typeName)
  | .file f =>
    match item with
    | .text needle => .ok (Text.hasInfix needle f.path.name.toList)
    | _ => .error (.nameMember "File" item.typeName)
  | .directory d =>
    match item with
    | .text needle => .ok (Text.hasInfix needle d.path.name.toList)
    | _ => .error (.nameMember "Directory" item.typeName)
  | container => .error (.notIterable container.typeName)

end Value

end Folio
