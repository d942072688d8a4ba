import Folio.Decimal.Shortest
import Folio.Text.Basic

/-!
# Reading decimals

A decimal is read as the double nearest to it. A decimal too large for any double is infinite.
-/

namespace Folio.Decimal

/-- The double nearest to `digits * 10 ^ power`. Far outside the range of doubles the power itself is
not computed. -/
def ofScientific (negative : Bool) (d : Scientific) : Float :=
  let size := ((Nat.toDigits 10 d.digits).length : Int) + d.power
  let infinity := if negative then -1.0 / 0.0 else 1.0 / 0.0
  if d.digits == 0 || size < -400 then ofBits negative 0
  else if 400 < size then infinity
  else
    let (up, down) := powTen d.power
    (ofRatio? negative (d.digits * up) down).getD infinity

def digitsValue (digits : Text) : Nat :=
  digits.foldl (fun n c => 10 * n + (c.toNat - '0'.toNat)) 0

def ofDigits (negative : Bool) (whole fraction : Text) (exponent : Int) : Float :=
  ofScientific negative ⟨digitsValue (whole ++ fraction), exponent - fraction.length⟩

def takeDigits : Nat → Text → Text × Text
  | 0, t => ([], t)
  | fuel + 1, t =>
    let (digits, rest) := t.span Char.isDigit
    match digits, rest with
    | _ :: _, '_' :: c :: rest' =>
      if c.isDigit then
        let (more, rest'') := takeDigits fuel (c :: rest')
        (digits ++ more, rest'')
      else (digits, rest)
    | _, _ => (digits, rest)

def takeSign : Text → Bool × Text
  | '-' :: rest => (true, rest)
  | '+' :: rest => (false, rest)
  | t => (false, t)

def readExponent? : Text → Option Int
  | [] => some 0
  | c :: rest =>
    if c == 'e' || c == 'E' then
      let (negative, rest) := takeSign rest
      let (digits, rest) := takeDigits rest.length rest
      if digits.isEmpty || !rest.isEmpty then none
      else some (if negative then -(digitsValue digits : Int) else digitsValue digits)
    else none

def asciiDigit (c : Char) : Char :=
  match Text.decimalValue? c with
  | some n => Char.ofNat ('0'.toNat + n)
  | none => c

def readFloat? (t : Text) : Option Float := do
  let (negative, body) := takeSign ((Text.strip t).map asciiDigit)
  let word := String.ofList (body.map Char.toLower)
  if word == "inf" || word == "infinity" then
    return if negative then -1.0 / 0.0 else 1.0 / 0.0
  else if word == "nan" then return 0.0 / 0.0
  else
    let (whole, rest) := takeDigits body.length body
    let (fraction, rest) := match rest with
      | '.' :: rest => takeDigits rest.length rest
      | _ => ([], rest)
    if whole.isEmpty && fraction.isEmpty then none
    else
      let exponent ← readExponent? rest
      return ofDigits negative whole fraction exponent

end Folio.Decimal
