/-!
# Binary fractions

A finite double is a sign and a mantissa times a power of two. Quotients of natural numbers are
rounded to the nearest double, ties to the even mantissa.
-/

namespace Folio.Decimal

/-- The nearest natural number to a quotient, a half to the even neighbour. -/
def roundDiv (num den : Nat) : Nat :=
  let q := num / den
  let r := num % den
  if 2 * r < den then q
  else if den < 2 * r then q + 1
  else if q % 2 == 0 then q else q + 1

def powTwo (k : Int) : Nat × Nat :=
  if 0 ≤ k then (Nat.pow 2 k.toNat, 1) else (1, Nat.pow 2 k.natAbs)

/-- The magnitude of a finite double: `mantissa * 2 ^ power`. -/
structure Magnitude where
  mantissa : Nat
  power : Int

inductive Parts where
  | finite (negative : Bool) (magnitude : Magnitude)
  | infinite (negative : Bool)
  | nan

def leastMantissa : Nat := Nat.pow 2 52

def signBit : Nat := Nat.pow 2 63

def parts (x : Float) : Parts :=
  let bits := x.toBits.toNat
  let negative := bits / signBit == 1
  let field : Nat := bits / leastMantissa % 2048
  let fraction : Nat := bits % leastMantissa
  if field == 2047 then
    if fraction == 0 then .infinite negative else .nan
  else if field == 0 then .finite negative ⟨fraction, -1074⟩
  else .finite negative ⟨fraction + leastMantissa, (field : Int) - 1075⟩

def ofBits (negative : Bool) (bits : Nat) : Float :=
  Float.ofBits (UInt64.ofNat (if negative then bits + signBit else bits))

/-- The power of two of the last place of a quotient's double: the quotient has 53 binary digits
there, unless it is too small for that. -/
def lastPlace (num den : Nat) : Int :=
  let e := (num.log2 : Int) - (den.log2 : Int)
  let (up, down) := powTwo e
  let floorLog := if den * up ≤ num * down then e else e - 1
  max (floorLog - 52) (-1074)

/-- The nearest double to a quotient of natural numbers, a tie to the even mantissa; none if the
quotient is too large. -/
def ofRatio? (negative : Bool) (num den : Nat) : Option Float :=
  if num == 0 then some (ofBits negative 0)
  else
    let k := lastPlace num den
    let (up, down) := powTwo k
    let q := roundDiv (num * down) (den * up)
    let bits := (k + 1074).toNat * leastMantissa + q
    if bits < 2047 * leastMantissa then some (ofBits negative bits) else none

def ofInt? (n : Int) : Option Float :=
  ofRatio? (n < 0) n.natAbs 1

def Magnitude.ratio (m : Magnitude) : Nat × Nat :=
  let (up, down) := powTwo m.power
  (m.mantissa * up, down)

def Magnitude.floor (m : Magnitude) : Nat :=
  let (num, den) := m.ratio
  num / den

def truncate? (x : Float) : Option Int :=
  match parts x with
  | .finite negative m => some (if negative then -(m.floor : Int) else m.floor)
  | _ => none

def compareInt (negative : Bool) (m : Magnitude) (n : Int) : Ordering :=
  let (num, den) := m.ratio
  let value : Int := if negative then -(num : Int) else num
  compare value (n * den)

def compareInt? (x : Float) (n : Int) : Option Ordering :=
  match parts x with
  | .finite negative m => some (compareInt negative m n)
  | .infinite true => some .lt
  | .infinite false => some .gt
  | .nan => none

def Magnitude.mod (a b : Magnitude) : Nat × Nat :=
  let k := min a.power b.power
  let x := a.mantissa * Nat.pow 2 (a.power - k).toNat
  let y := b.mantissa * Nat.pow 2 (b.power - k).toNat
  let (up, down) := powTwo k
  (x % y * up, down)

def remainder (x y : Float) : Float :=
  match parts x, parts y with
  | .finite negative a, .finite _ b =>
    let (num, den) := a.mod b
    (ofRatio? negative num den).getD x
  | .finite _ _, .infinite _ => x
  | _, _ => 0.0 / 0.0

/-- The remainder with the sign of the divisor, for a divisor other than zero. -/
def floorMod (x y : Float) : Float :=
  let r := remainder x y
  if r == 0.0 then ofBits (y < 0.0) 0
  else if (y < 0.0) != (r < 0.0) then r + y
  else r

end Folio.Decimal
