import Folio.Decimal.Digits
import Folio.Fault

/-!
# Templates

A place to fill in is a percent sign, flags, a width, a precision and a letter. There is one value to
fill in, so a template has room for one place; a list may be left over.
-/

namespace Folio.Template

inductive Numeric where
  | none
  | whole (n : Int)
  | float (x : Float)

structure Operand where
  type : TypeName
  isList : Bool
  number : Numeric
  text? : Option Text
  shown : Except Failure Text
  inner : Except Failure Text

structure Flags where
  left : Bool := false
  sign : Bool := false
  blank : Bool := false
  alternate : Bool := false
  zero : Bool := false
deriving DecidableEq, Repr

structure Place where
  flags : Flags
  width : Option Nat
  precision : Option Nat
  letter : Char
deriving DecidableEq, Repr

/-- A filled place before it is brought to its width: a sign, a mark of the base and the rest. -/
structure Filled where
  sign : Text
  base : Text
  body : Text
  numeric : Bool

def Filled.pad (f : Filled) (flags : Flags) (width : Option Nat) : Text :=
  let missing := width.getD 0 - (f.sign.length + f.base.length + f.body.length)
  if flags.left then f.sign ++ f.base ++ f.body ++ List.replicate missing ' '
  else if flags.zero && f.numeric then f.sign ++ f.base ++ List.replicate missing '0' ++ f.body
  else List.replicate missing ' ' ++ f.sign ++ f.base ++ f.body

def signOf (flags : Flags) (negative : Bool) : Text :=
  if negative then ['-'] else if flags.sign then ['+'] else if flags.blank then [' '] else []

def fail {α : Type} (e : TemplateMistake) : Except Failure α :=
  .error (.template e)

def wholeFor (letter : Char) (operand : Operand) : Except Failure Int :=
  match operand.number with
  | .whole n => .ok n
  | .float x =>
    if letter == 'd' || letter == 'i' || letter == 'u' then
      match wholePart x with
      | .ok n => .ok n
      | .error e => .error (.operand e)
    else fail (.needsWhole letter operand.type)
  | .none =>
    if letter == 'd' || letter == 'i' || letter == 'u' then
      fail (.needsNumber letter operand.type)
    else fail (.needsWhole letter operand.type)

def digitsFor (letter : Char) (n : Nat) : Text × Text :=
  match letter with
  | 'x' => (['0', 'x'], Nat.toDigits 16 n)
  | 'X' => (['0', 'X'], (Nat.toDigits 16 n).map Char.toUpper)
  | 'o' => (['0', 'o'], Nat.toDigits 8 n)
  | _ => ([], Text.ofNat n)

def isDecimalLetter (letter : Char) : Bool :=
  letter == 'd' || letter == 'i' || letter == 'u'

def fillWhole (place : Place) (operand : Operand) : Except Failure Filled := do
  let n ← wholeFor place.letter operand
  if isDecimalLetter place.letter && Decimal.isTooLong n then .error .numberTooLong
  let (base, digits) := digitsFor place.letter n.natAbs
  return { sign := signOf place.flags (n < 0)
           base := if place.flags.alternate then base else []
           body := Text.padLeft '0' (place.precision.getD 0) digits
           numeric := true }

def floatFor (operand : Operand) : Except Failure Float :=
  match operand.number with
  | .float x => .ok x
  | .whole n =>
    match Decimal.ofInt? n with
    | some x => .ok x
    | none => fail .intTooLarge
  | .none => fail (.needsReal operand.type)

def decimalFor (place : Place) (num den : Nat) : Text :=
  let places := place.precision.getD 6
  let keep := place.flags.alternate
  match place.letter with
  | 'e' => Decimal.exponentForm keep 'e' places num den
  | 'E' => Decimal.exponentForm keep 'E' places num den
  | 'g' => Decimal.generalForm keep 'e' places num den
  | 'G' => Decimal.generalForm keep 'E' places num den
  | _ => Decimal.fixedText keep places num den

def fillFloat (place : Place) (operand : Operand) : Except Failure Filled := do
  let x ← floatFor operand
  let upper := place.letter.isUpper
  let named (t : Text) : Text := if upper then t.map Char.toUpper else t
  let (negative, body) := match Decimal.parts x with
    | .finite negative m =>
      let (num, den) := m.ratio
      (negative, decimalFor place num den)
    | .infinite negative => (negative, named Decimal.infinityText)
    | .nan => (false, named Decimal.nanText)
  return { sign := signOf place.flags negative, base := [], body := body, numeric := true }

def fillText (place : Place) (t : Text) : Filled where
  sign := []
  base := []
  body := match place.precision with
    | some n => t.take n
    | none => t
  numeric := false

def characterFor (operand : Operand) : Except Failure Char :=
  match operand.number, operand.text? with
  | .whole n, _ =>
    if n < 0 || 0x110000 ≤ n then fail .characterRange
    else .ok (Char.ofNat n.toNat)
  | .none, some [c] => .ok c
  | _, _ => fail .needsCharacter

def asciiOnly (t : Text) : Text :=
  t.flatMap fun c =>
    let n := c.toNat
    if n < 128 then [c]
    else if n < 0x100 then '\\' :: 'x' :: Text.hexPadded 2 n
    else if n < 0x10000 then '\\' :: 'u' :: Text.hexPadded 4 n
    else '\\' :: 'U' :: Text.hexPadded 8 n

def fillPlace (place : Place) (index : Nat) (operand : Operand) : Except Failure Text := do
  let filled ← match place.letter with
    | 's' => (operand.shown).map (fillText place)
    | 'r' => (operand.inner).map (fillText place)
    | 'a' => (operand.inner).map fun t => fillText place (asciiOnly t)
    | 'c' => (characterFor operand).map fun c => fillText { place with precision := none } [c]
    | 'd' | 'i' | 'u' | 'x' | 'X' | 'o' => fillWhole place operand
    | 'e' | 'E' | 'f' | 'F' | 'g' | 'G' => fillFloat place operand
    | c => fail (.unsupportedCharacter c index)
  return filled.pad place.flags place.width

/-- How far a template is filled: whether the value is still there, and what is left to read, with
its index. -/
structure Reading where
  unused : Bool
  index : Nat
  rest : Text

def Reading.take (r : Reading) : Except Failure Reading :=
  if r.unused then .ok { r with unused := false } else fail .notEnough

def Reading.next (r : Reading) : Except Failure (Char × Reading) :=
  match r.rest with
  | [] => fail .incomplete
  | c :: rest => .ok (c, { r with index := r.index + 1, rest := rest })

def skipKey : Nat → Text → Except Failure Unit
  | _, [] => fail .incompleteKey
  | depth, '(' :: rest => skipKey (depth + 1) rest
  | 0, ')' :: _ => .ok ()
  | depth + 1, ')' :: rest => skipKey depth rest
  | depth, _ :: rest => skipKey depth rest

def refuseKey (operand : Operand) (rest : Text) : Except Failure Unit :=
  if !operand.isList then fail .needsMapping
  else do
    skipKey 0 rest
    fail .listKey

def readFlags : Flags → Text → Flags × Text
  | flags, '-' :: rest => readFlags { flags with left := true } rest
  | flags, '+' :: rest => readFlags { flags with sign := true } rest
  | flags, ' ' :: rest => readFlags { flags with blank := true } rest
  | flags, '#' :: rest => readFlags { flags with alternate := true } rest
  | flags, '0' :: rest => readFlags { flags with zero := true } rest
  | flags, rest => (flags, rest)

def readSize (bound : Nat) (tooBig : TemplateMistake) (t : Text) :
    Except Failure (Option Nat × Text) :=
  let digits := t.takeWhile Char.isDigit
  let n := Decimal.digitsValue digits
  if bound < n then fail tooBig
  else .ok (if digits.isEmpty then none else some n, t.drop digits.length)

def maxWidth : Nat := Nat.pow 2 63 - 1
def maxPrecision : Nat := Nat.pow 2 31 - 1

def starSize (bound : Nat) (word : String) (operand : Operand) : Except Failure Int :=
  match operand.number with
  | .whole n =>
    if (bound : Int) < n || n < -(bound : Int) - 1 then .error (.item (.wordRange word)) else .ok n
  | _ => fail .needsWholeStar

def readWidth (operand : Operand) (flags : Flags) (r : Reading) :
    Except Failure (Flags × Option Nat × Reading) :=
  match r.rest with
  | '*' :: rest => do
    let r ← { r with index := r.index + 1, rest := rest }.take
    let n ← starSize maxWidth "ssize_t" operand
    return ({ flags with left := flags.left || n < 0 }, some n.natAbs, r)
  | _ => do
    let (width, rest) ← readSize maxWidth .widthTooBig r.rest
    return (flags, width, { r with index := r.index + (r.rest.length - rest.length), rest := rest })

def readPrecision (operand : Operand) (r : Reading) : Except Failure (Option Nat × Reading) :=
  match r.rest with
  | '.' :: '*' :: rest => do
    let r ← { r with index := r.index + 2, rest := rest }.take
    let n ← starSize maxPrecision "int" operand
    return (some n.toNat, r)
  | '.' :: after => do
    let (precision, rest) ← readSize maxPrecision .precisionTooBig after
    return (some (precision.getD 0),
      { r with index := r.index + (r.rest.length - rest.length), rest := rest })
  | _ => .ok (none, r)

def skipLength (r : Reading) : Reading :=
  match r.rest with
  | c :: rest =>
    if c == 'h' || c == 'l' || c == 'L' then { r with index := r.index + 1, rest := rest } else r
  | [] => r

/-- Reads and fills the place after a percent sign. A second percent sign stands for itself. -/
def readPlace (operand : Operand) (r : Reading) : Except Failure (Text × Reading) := do
  match r.rest with
  | '%' :: rest => return (['%'], { r with index := r.index + 1, rest := rest })
  | '(' :: rest => refuseKey operand rest
  | _ => pure ()
  let (flags, rest) := readFlags {} r.rest
  let r := { r with index := r.index + (r.rest.length - rest.length), rest := rest }
  let (flags, width, r) ← readWidth operand flags r
  let (precision, r) ← readPrecision operand r
  let (letter, r) ← (skipLength r).next
  let r ← r.take
  let t ← fillPlace ⟨flags, width, precision, letter⟩ (r.index - 1) operand
  return (t, r)

def fillFrom (operand : Operand) : Nat → List Text → Reading → Except Failure Text
  | 0, done, _ => .ok done.reverse.flatten
  | fuel + 1, done, r =>
    match r.rest with
    | [] =>
      if r.unused && !operand.isList then fail .notAllConverted else .ok done.reverse.flatten
    | '%' :: rest => do
      let (t, r) ← readPlace operand { r with index := r.index + 1, rest := rest }
      fillFrom operand fuel (t :: done) r
    | c :: rest => fillFrom operand fuel ([c] :: done) { r with index := r.index + 1, rest := rest }

def fill (template : Text) (operand : Operand) : Except Failure Text :=
  fillFrom operand (template.length + 1) [] ⟨true, 0, template⟩

end Folio.Template
