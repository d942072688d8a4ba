import Folio.Value.Compare
import Folio.Value.Show
import Folio.Value.Template

/-!
# Arithmetic

Numbers mix freely; a whole number that meets a decimal is turned into the nearest one. Texts and
lists are joined by `+` and repeated by `*`, paths are extended by `/`, and `%` fills a template.
-/

namespace Folio

namespace Number

def toFloat : Number → Except OperandMistake Float
  | .float x => .ok x
  | .whole n =>
    match Decimal.ofInt? n with
    | some x => .ok x
    | none => .error .intTooLarge

def value : Number → Value
  | .whole n => .int n
  | .float x => .float x

def combine (whole : Int → Int → Int) (decimal : Float → Float → Float) (a b : Number) :
    Except OperandMistake Number :=
  match a, b with
  | .whole m, .whole n => .ok (.whole (whole m n))
  | a, b => do return .float (decimal (← a.toFloat) (← b.toFloat))

def divideWhole (m n : Int) : Except OperandMistake Number :=
  if n == 0 then .error .divisionByZero
  else
    match Decimal.ofRatio? ((m < 0) != (n < 0)) m.natAbs n.natAbs with
    | some x => .ok (.float x)
    | none => .error .quotientTooLarge

def divide : Number → Number → Except OperandMistake Number
  | .whole m, .whole n => divideWhole m n
  | a, b => do
    let x ← a.toFloat
    let y ← b.toFloat
    if y == 0.0 then .error .floatDivisionByZero
    return .float (x / y)

def remainder : Number → Number → Except OperandMistake Number
  | .whole m, .whole n => if n == 0 then .error .moduloByZero else .ok (.whole (Int.fmod m n))
  | a, b => do
    let x ← a.toFloat
    let y ← b.toFloat
    if y == 0.0 then .error .floatModulo
    return .float (Decimal.floorMod x y)

end Number

namespace Value

def unsupported {α : Type} (symbol : String) (a b : Value) : Run α :=
  Run.fail (.operand (.unsupported symbol a.typeName b.typeName))

def arithmetic (symbol : String) (op : Number → Number → Except OperandMistake Number)
    (a b : Value) : Run Value :=
  match a.number?, b.number? with
  | some x, some y => do return (← Run.ofOperand (op x y)).value
  | _, _ => unsupported symbol a b

def add : Value → Value → Run Value
  | .text a, .text b => return .text (a ++ b)
  | .list a, .list b => do Run.newList ((← Run.items a).toList ++ (← Run.items b).toList)
  | .text _, b => Run.fail (.operand (.concatenation "str" b.typeName))
  | .list _, b => Run.fail (.operand (.concatenation "list" b.typeName))
  | a, b => arithmetic "+" (Number.combine (· + ·) (· + ·)) a b

def subtract (a b : Value) : Run Value :=
  arithmetic "-" (Number.combine (· - ·) (· - ·)) a b

def indexBound : Int := Nat.pow 2 63

def memoryBound : Int := Nat.pow 2 36

def repetitions (length : Nat) (tooLong : OperandMistake) (times : Value) :
    Except OperandMistake Nat :=
  match times.int? with
  | none => .error (.repetition times.typeName)
  | some n =>
    if n < -indexBound || indexBound ≤ n then .error .indexTooLarge
    else if n ≤ 0 || length == 0 then .ok 0
    else if indexBound ≤ n * length then .error tooLong
    else if memoryBound ≤ n * length then .error .noMemory
    else .ok n.toNat

def repeatText (t : Text) (times : Value) : Run Value := do
  let n ← Run.ofOperand (repetitions t.length .repeatedTextTooLong times)
  return .text (List.replicate n t).flatten

def repeatList (ref : Nat) (times : Value) : Run Value := do
  let items := (← Run.items ref).toList
  let n ← Run.ofOperand (repetitions items.length .noMemory times)
  Run.newList (List.replicate n items).flatten

def multiply : Value → Value → Run Value
  | .text t, times => repeatText t times
  | .list ref, times => repeatList ref times
  | times, .text t => repeatText t times
  | times, .list ref => repeatList ref times
  | a, b => arithmetic "*" (Number.combine (· * ·) (· * ·)) a b

def divide : Value → Value → Run Value
  | .path p, .text t => return .path (p.join (WrittenPath.ofText t))
  | .path _, .path q => return .path q
  | .text _, .path q => return .path q
  | a, b => arithmetic "/" Number.divide a b

def operandOf (s : Setting) (w : World) (v : Value) : Template.Operand where
  type := v.typeName
  isList := match v with
    | .list _ => true
    | _ => false
  number := match v with
    | .int n => .whole n
    | .bool b => .whole (if b then 1 else 0)
    | .float x => .float x
    | _ => .none
  text? := v.text?
  shown := v.shown s w
  inner := v.inner s w

def remainder (s : Setting) : Value → Value → Run Value
  | .text template, v => do
    return .text (← Run.ofFailure (Template.fill template (v.operandOf s (← get))))
  | a, b => arithmetic "%" Number.remainder a b

end Value

end Folio
