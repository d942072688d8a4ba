import Folio.Decimal.Reader
import Folio.Text.Quoted

/-!
# Whole numbers in writing

Whole numbers are read from digits of any script. Those with too many digits are neither read nor
shown.
-/

namespace Folio.Decimal

def maxDigits : Nat := 4300

inductive NumberFlaw where
  | notDecimal (digits : Text)
  | tooLong (count : Nat)
deriving DecidableEq, Repr

def NumberFlaw.message : NumberFlaw → Text
  | .notDecimal digits =>
    "invalid literal for int() with base 10: ".toList ++ (Text.quoted digits).take 200
  | .tooLong count =>
    "Exceeds the limit (4300 digits) for integer string conversion: value has ".toList
      ++ Text.ofNat count
      ++ " digits; use sys.set_int_max_str_digits() to increase the limit".toList

/-- The number that digits of any script write. The decimal digits at the start are counted before
any other digit is looked at; no digits at all write no number. -/
def readNumber (digits : Text) : Except NumberFlaw Nat :=
  let decimal := digits.takeWhile Text.isDecimal
  if maxDigits < decimal.length then .error (.tooLong decimal.length)
  else if digits.isEmpty || decimal.length < digits.length then .error (.notDecimal digits)
  else .ok (digits.foldl (fun n c => 10 * n + (Text.decimalValue? c).getD 0) 0)

/-- The number that a text writes with a sign, digits and single underscores between them, blanks
around it aside. -/
def readInteger? (t : Text) : Option Int :=
  let (negative, body) := takeSign ((Text.strip t).map asciiDigit)
  let (digits, rest) := takeDigits body.length body
  if digits.isEmpty || !rest.isEmpty || maxDigits < digits.length then none
  else
    let n : Int := digitsValue digits
    some (if negative then -n else n)

def isTooLong (n : Int) : Bool :=
  Nat.pow 10 maxDigits ≤ n.natAbs

def tooLongMessage : Text :=
  ("Exceeds the limit (4300 digits) for integer string conversion; "
    ++ "use sys.set_int_max_str_digits() to increase the limit").toList

end Folio.Decimal
