import Folio.Value.Arguments
import Folio.Value.Compare
import Folio.Value.Show

/-!
# Methods of lists

Sorting is stable: a run at the front that is already in order is kept, or turned round if it falls
strictly, and every further item is put into its place by halving. If two items cannot be compared,
the list is left as far as it was sorted.
-/

namespace Folio

namespace Sorting

variable {α ε : Type}

/-- The length of the run at the front that never falls: `previous` was the item before. -/
def risingFrom (less : α → α → Except ε Bool) (previous : α) : List α → Except ε Nat
  | [] => .ok 0
  | a :: rest => do
    if ← less a previous then return 0
    return 1 + (← risingFrom less a rest)

def fallingFrom (less : α → α → Except ε Bool) (previous : α) : List α → Except ε Nat
  | [] => .ok 0
  | a :: rest => do
    if ← less a previous then return 1 + (← fallingFrom less a rest)
    return 0

def orderRun (less : α → α → Except ε Bool) : List α → Except ε (List α × Nat)
  | a :: b :: rest => do
    if ← less b a then
      let n := 2 + (← fallingFrom less b rest)
      let items := a :: b :: rest
      return ((items.take n).reverse ++ items.drop n, n)
    return (a :: b :: rest, 2 + (← risingFrom less b rest))
  | items => .ok (items, items.length)

/-- The place for an item among sorted ones, after those that are equal, by halving. -/
def placeFor (less : α → α → Except ε Bool) (sorted : Array α) (a : α) :
    Nat → Nat → Nat → Except ε Nat
  | 0, low, _ => .ok low
  | fuel + 1, low, high =>
    if low < high then
      let middle := low + (high - low) / 2
      match sorted[middle]? with
      | some b => do
        if ← less a b then placeFor less sorted a fuel low middle
        else placeFor less sorted a fuel (middle + 1) high
      | none => .ok low
    else .ok low

def insertAll (less : α → α → Except ε Bool) :
    Array α → List α → List α × Option ε
  | sorted, [] => (sorted.toList, none)
  | sorted, a :: rest =>
    match placeFor less sorted a (sorted.size + 1) 0 sorted.size with
    | .ok i => insertAll less (sorted.toList.take i ++ a :: sorted.toList.drop i).toArray rest
    | .error e => (sorted.toList ++ a :: rest, some e)

def sort (less : α → α → Except ε Bool) (items : List α) : List α × Option ε :=
  match orderRun less items with
  | .error e => (items, some e)
  | .ok (items, n) => insertAll less (items.take n).toArray (items.drop n)

end Sorting

namespace ListMethod

def fullName (m : ListMethod) : String :=
  "list." ++ m.name

def callAppend (m : ListMethod) (ref : Nat) (args : Arguments) : Run Value := do
  let item ← Run.ofArgument (args.takeOne m.fullName)
  Run.changeList ref (·.push item)
  return .nothing

def callExtend (m : ListMethod) (ref : Nat) (args : Arguments) : Run Value := do
  let source ← Run.ofArgument (args.takeOne m.fullName)
  match ← source.iterate? with
  | none => Run.fail (.argument (.notIterable source.typeName))
  | some items =>
    Run.changeList ref (· ++ items.toArray)
    return .nothing

def callInsert (m : ListMethod) (ref : Nat) (args : Arguments) : Run Value := do
  match ← Run.ofArgument (args.onlyPositional m.fullName) with
  | [position, item] =>
    let n ← Run.ofFailure position.index
    Run.changeList ref fun items =>
      let i := min items.size (Value.fromStart items.size n)
      (items.toList.take i ++ item :: items.toList.drop i).toArray
    return .nothing
  | given => Run.fail (.argument (.expectedExactly m.name 2 given.length))

def takeOut (ref : Nat) (n : Int) : Run Value := do
  let items ← Run.items ref
  if items.isEmpty then Run.fail (.item .popFromEmpty)
  let i := if n < 0 then n + items.size else n
  if i < 0 then Run.fail (.item .popRange)
  match items[i.toNat]? with
  | none => Run.fail (.item .popRange)
  | some item =>
    Run.changeList ref fun items => (items.toList.eraseIdx i.toNat).toArray
    return item

def callPop (m : ListMethod) (ref : Nat) (args : Arguments) : Run Value := do
  match ← Run.ofArgument (args.onlyPositional m.fullName) with
  | [] => takeOut ref (-1)
  | [position] => takeOut ref (← Run.ofFailure position.index)
  | given => Run.fail (.argument (.expectedAtMost m.name 1 given.length))

def callRemove (m : ListMethod) (ref : Nat) (args : Arguments) : Run Value := do
  let item ← Run.ofArgument (args.takeOne m.fullName)
  let w ← get
  match (w.items ref).findIdx? fun other => Value.same w other item with
  | none => Run.fail (.item .removeMissing)
  | some i =>
    Run.changeList ref fun items => (items.toList.eraseIdx i).toArray
    return .nothing

def bound (v : Value) : Except Failure Int :=
  match v.int? with
  | some n => .ok n
  | none => .error (.argument .plainSliceIndex)

def callIndex (s : Setting) (m : ListMethod) (ref : Nat) (args : Arguments) : Run Value := do
  let given ← Run.ofArgument (args.onlyPositional m.fullName)
  match given with
  | [] => Run.fail (.argument (.expectedAtLeast m.name 1 0))
  | item :: bounds =>
    if 2 < bounds.length then Run.fail (.argument (.expectedAtMost m.name 3 given.length))
    let w ← get
    let items := w.items ref
    let start ← Run.ofFailure ((bounds[0]?.map bound).getD (.ok 0))
    let stop ← Run.ofFailure ((bounds[1]?.map bound).getD (.ok items.size))
    let start := Value.fromStart items.size start
    let stop := min items.size (Value.fromStart items.size stop)
    let found := (items.toList.zipIdx).find? fun (other, i) =>
      start ≤ i && i < stop && Value.same w other item
    match found with
    | some (_, i) => return .int i
    | none => Run.fail (.item (.notInList (← Run.ofFailure (item.inner s w))))

def callCount (m : ListMethod) (ref : Nat) (args : Arguments) : Run Value := do
  let item ← Run.ofArgument (args.takeOne m.fullName)
  let w ← get
  return .int ((w.items ref).toList.countP fun other => Value.same w other item : Nat)

def fillWith (ref : Nat) (items : List Value) : Run Unit :=
  Run.changeList ref fun _ => items.toArray

/-- The keys by which items are sorted. The list is empty meanwhile, and has its items again if a key
cannot be found. -/
def keysFor (callKey : Value → Value → Run Value) (ref : Nat) (items : List Value) :
    Value → Run (List Value)
  | .nothing => return items
  | key => do
    fillWith ref []
    try Action.mapList (callKey key) items
    catch e =>
      fillWith ref items
      throw e

def callSort (callKey : Value → Value → Run Value) (ref : Nat) (args : Arguments) : Run Value := do
  let bound ← Run.ofArgument (args.unpack "sort" ["key", "reverse"] 0)
  let backwards ← match bound.values.lookup "reverse" with
    | some v => Run.ofFailure v.switch
    | none => pure false
  let items := (← Run.items ref).toList
  let key := bound.value "key"
  let keys ← keysFor callKey ref items key
  let w ← get
  let changed := match key with
    | .nothing => false
    | _ => !(w.items ref).isEmpty
  let turn (pairs : List (Value × Value)) : List (Value × Value) :=
    if backwards then pairs.reverse else pairs
  let (sorted, problem) := Sorting.sort
    (fun a b : Value × Value => Value.test w .less a.1 b.1) (turn (keys.zip items))
  fillWith ref ((turn sorted).map (·.2))
  match problem with
  | some e => Run.fail (.operand e)
  | none => if changed then Run.fail (.item .changedWhileSorting) else return .nothing

def call (s : Setting) (callKey : Value → Value → Run Value) (m : ListMethod) (ref : Nat)
    (args : Arguments) : Run Value :=
  match m with
  | .append => m.callAppend ref args
  | .extend => m.callExtend ref args
  | .insert => m.callInsert ref args
  | .pop => m.callPop ref args
  | .remove => m.callRemove ref args
  | .index => m.callIndex s ref args
  | .count => m.callCount ref args
  | .sort => callSort callKey ref args
  | .reverse => do
    Run.ofArgument (args.takeNone m.fullName)
    Run.changeList ref Array.reverse
    return .nothing
  | .copy => do
    Run.ofArgument (args.takeNone m.fullName)
    Run.newList (← Run.items ref).toList
  | .clear => do
    Run.ofArgument (args.takeNone m.fullName)
    Run.changeList ref fun _ => #[]
    return .nothing

end ListMethod

end Folio
