import Folio.Decimal.Shortest
import Folio.Text.Basic

/-!
# Digits of doubles

Doubles are shown with the fewest digits that read back, in positions or, far from the point, with
an exponent. A number of places can also be asked for; the value is then rounded exactly.
-/

namespace Folio.Decimal

open Folio (Text)

def exponentText (letter : Char) (e : Int) : Text :=
  letter :: (if e < 0 then '-' else '+') :: Text.padLeft '0' 2 (Text.ofNat e.natAbs)

/-- Digits with a point after the first `n` of them; zeros fill up to the point. -/
def pointAfter (digits : Text) (n : Int) : Text :=
  if n ≤ 0 then '0' :: '.' :: List.replicate n.natAbs '0' ++ digits
  else if digits.length ≤ n.toNat then
    digits ++ List.replicate (n.toNat - digits.length) '0' ++ ['.', '0']
  else digits.take n.toNat ++ '.' :: digits.drop n.toNat

def magnitudeText (m : Magnitude) : Text :=
  let d := shortest m
  let digits := Text.ofNat d.digits
  let point := (digits.length : Int) + d.power
  if -4 < point && point ≤ 16 then pointAfter digits point
  else
    let body := match digits with
      | first :: second :: rest => first :: '.' :: second :: rest
      | short => short
    body ++ exponentText 'e' (point - 1)

def infinityText : Text := ['i', 'n', 'f']
def nanText : Text := ['n', 'a', 'n']

def signed (negative : Bool) (t : Text) : Text :=
  if negative then '-' :: t else t

def floatText (x : Float) : Text :=
  match parts x with
  | .finite negative m => signed negative (magnitudeText m)
  | .infinite negative => signed negative infinityText
  | .nan => nanText

/-- A quotient with a fixed number of places; the point is left out with no places unless it is
wanted. -/
def fixedText (keepPoint : Bool) (places num den : Nat) : Text :=
  let scaled := Text.padLeft '0' (places + 1) (Text.ofNat (roundDiv (num * Nat.pow 10 places) den))
  let whole := scaled.take (scaled.length - places)
  let fraction := scaled.drop (scaled.length - places)
  if fraction.isEmpty && !keepPoint then whole else whole ++ '.' :: fraction

def significant (count num den : Nat) : Text × Int :=
  if num == 0 then (List.replicate count '0', 0)
  else
    let first := firstPlace num den
    let (up, down) := powTen (first - (count : Int) + 1)
    let digits := Text.ofNat (roundDiv (num * down) (den * up))
    if digits.length ≤ count then (digits, first) else (digits.take count, first + 1)

def exponentForm (keepPoint : Bool) (letter : Char) (places num den : Nat) : Text :=
  let (digits, e) := significant (places + 1) num den
  let body :=
    if places == 0 && !keepPoint then digits
    else digits.take 1 ++ '.' :: digits.drop 1
  body ++ exponentText letter e

def dropZeros (t : Text) : Text :=
  Text.stripEnd (· == '.') (Text.stripEnd (· == '0') t)

/-- A quotient with a number of significant digits, in positions or with an exponent, whichever
suits its size; zeros at the end are dropped unless they are wanted. -/
def generalForm (keepZeros : Bool) (letter : Char) (count num den : Nat) : Text :=
  let count := max count 1
  let (digits, e) := significant count num den
  if e < -4 || (count : Int) ≤ e then
    let body := if count == 1 then digits else digits.take 1 ++ '.' :: digits.drop 1
    let body := if keepZeros then (if count == 1 then body ++ ['.'] else body)
      else if count == 1 then body else dropZeros body
    body ++ exponentText letter e
  else
    let places := ((count : Int) - 1 - e).toNat
    let body := fixedText keepZeros places num den
    if keepZeros || places == 0 then body else dropZeros body

end Folio.Decimal
