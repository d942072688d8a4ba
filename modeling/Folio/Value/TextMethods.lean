import Folio.Value.Arguments

/-!
# Methods of texts
-/

namespace Folio

def Text.splitLinesWithEnds (t : Text) : List Text :=
  go [] [] t
where
  go (line : Text) (lines : List Text) : Text → List Text
    | [] => (if line.isEmpty then lines else line.reverse :: lines).reverse
    | '\r' :: '\n' :: rest => go [] (('\n' :: '\r' :: line).reverse :: lines) rest
    | c :: rest =>
      if isLineEnd c then go [] ((c :: line).reverse :: lines) rest
      else go (c :: line) lines rest

namespace TextMethod

def fullName (m : TextMethod) : String :=
  "str." ++ m.name

def plain (m : TextMethod) (args : Arguments) (result : Value) : Run Value := do
  Run.ofArgument (args.takeNone m.fullName)
  return result

def cut (m : TextMethod) (how : (Char → Bool) → Text → Text) (t : Text) (args : Arguments) :
    Run Value := do
  match ← Run.ofArgument (args.onlyPositional m.fullName) with
  | [] => return .text (how Text.isSpace t)
  | [.nothing] => return .text (how Text.isSpace t)
  | [.text drop] => return .text (how drop.contains t)
  | [_] => Run.fail (.argument (.stripArgument m.name))
  | given => Run.fail (.argument (.expectedAtMost m.name 1 given.length))

def limitOf (n : Int) : Option Nat :=
  if n < 0 then none else some n.toNat

def texts (pieces : List Text) : Run Value :=
  Run.newList (pieces.map .text)

def splitAt (t : Text) (args : Arguments) : Run Value := do
  let bound ← Run.ofArgument (args.unpack "split" ["sep", "maxsplit"] 2)
  let limit ← match bound.values.lookup "maxsplit" with
    | some v => Run.ofFailure v.index
    | none => pure (-1)
  match bound.value "sep" with
  | .nothing => texts (Text.splitBlanks (limitOf limit) t)
  | .text [] => Run.fail (.item .emptySeparator)
  | .text separator => texts (Text.splitOn separator (limitOf limit) t)
  | other => Run.fail (.argument (.notTextOrNone other.typeName))

def lines (t : Text) (args : Arguments) : Run Value := do
  let bound ← Run.ofArgument (args.unpack "splitlines" ["keepends"] 1)
  let keep ← match bound.values.lookup "keepends" with
    | some v => Run.ofFailure v.switch
    | none => pure false
  texts (if keep then Text.splitLinesWithEnds t else Text.splitLines t)

def textArgument (name : String) (position : Nat) (v : Value) : Run Text :=
  match v with
  | .text t => return t
  | other => Run.fail (.argument (.argumentNotText name position other.typeName))

def substitute (m : TextMethod) (t : Text) (args : Arguments) : Run Value := do
  let given ← Run.ofArgument (args.onlyPositional m.fullName)
  match given with
  | old :: new :: rest =>
    if 1 < rest.length then Run.fail (.argument (.expectedAtMost m.name 3 given.length))
    let old ← textArgument m.name 1 old
    let new ← textArgument m.name 2 new
    let limit ← match rest with
      | v :: _ => Run.ofFailure v.index
      | [] => pure (-1)
    return .text (Text.replace old new (limitOf limit) t)
  | _ => Run.fail (.argument (.expectedAtLeast m.name 2 given.length))

structure Window where
  start : Nat
  stop : Nat

def searchArguments (m : TextMethod) (t : Text) (args : Arguments) : Run (Value × Window) := do
  let given ← Run.ofArgument (args.onlyPositional m.name)
  match given with
  | [] => Run.fail (.argument (.atLeast m.name 1 0))
  | needle :: bounds =>
    if 2 < bounds.length then Run.fail (.argument (.atMost m.name 3 given.length))
    let start ← Run.ofFailure ((bounds[0]?.getD Value.nothing).sliceBound 0)
    let stop ← Run.ofFailure ((bounds[1]?.getD Value.nothing).sliceBound t.length)
    return (needle, ⟨Value.fromStart t.length start, min t.length (Value.fromStart t.length stop)⟩)

def needleOf : Value → Run Text
  | .text needle => return needle
  | other => Run.fail (.argument (.notText other.typeName))

def callFind (m : TextMethod) (t : Text) (args : Arguments) : Run Value := do
  let (needle, window) ← searchArguments m t args
  let needle ← needleOf needle
  if window.stop < window.start then return .int (-1)
  match Text.find? needle (Text.slice t window.start window.stop) with
  | some i => return .int (window.start + i : Nat)
  | none => return .int (-1)

def callCount (m : TextMethod) (t : Text) (args : Arguments) : Run Value := do
  let (needle, window) ← searchArguments m t args
  let needle ← needleOf needle
  if window.stop < window.start then return .int 0
  return .int (Text.count needle (Text.slice t window.start window.stop) : Nat)

def affix (m : TextMethod) (test : Text → Text → Bool) (t : Text) (args : Arguments) :
    Run Value := do
  let (needle, window) ← searchArguments m t args
  match needle with
  | .text needle =>
    return .bool (window.start ≤ window.stop
      && test needle (Text.slice t window.start window.stop))
  | other => Run.fail (.argument (.affixArgument m.name other.typeName))

def textItems (items : List Value) : Except ArgumentMistake (List Text) :=
  items.zipIdx.mapM fun (item, i) =>
    match item with
    | .text t => .ok t
    | other => .error (.itemNotText i other.typeName)

def callJoin (m : TextMethod) (t : Text) (args : Arguments) : Run Value := do
  let source ← Run.ofArgument (args.takeOne m.fullName)
  match ← source.iterate? with
  | none => Run.fail (.argument .onlyIterables)
  | some items => return .text (Text.joinWith t (← Run.ofArgument (textItems items)))

def call (m : TextMethod) (t : Text) (args : Arguments) : Run Value :=
  match m with
  | .upper => m.plain args (.text (Text.upper t))
  | .lower => m.plain args (.text (Text.lower t))
  | .title => m.plain args (.text (Text.title t))
  | .isDigit => m.plain args (.bool (!t.isEmpty && t.all Text.isDigit))
  | .strip => m.cut Text.stripBy t args
  | .stripLeft => m.cut Text.stripStart t args
  | .stripRight => m.cut Text.stripEnd t args
  | .split => splitAt t args
  | .splitLines => lines t args
  | .replace => m.substitute t args
  | .startsWith => m.affix List.isPrefixOf t args
  | .endsWith => m.affix List.isSuffixOf t args
  | .find => m.callFind t args
  | .count => m.callCount t args
  | .join => m.callJoin t args

end TextMethod

end Folio
