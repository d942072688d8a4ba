import Folio.Decimal.Binary

/-!
# The fewest digits that read back

A double is the nearest one to a whole interval of real numbers. Its shortest decimal is one in that
interval with as few digits as possible and, among those, the nearest to the double itself: one of
its two neighbours on a decimal grid, of which seventeen are looked at in turn.
-/

namespace Folio.Decimal

structure Scientific where
  digits : Nat
  power : Int
deriving DecidableEq, Repr

def powTen (k : Int) : Nat × Nat :=
  if 0 ≤ k then (Nat.pow 10 k.toNat, 1) else (1, Nat.pow 10 k.natAbs)

def firstPlace (num den : Nat) : Int :=
  let e := (num.log2 : Int) - (den.log2 : Int)
  settle 4 (Int.fdiv (e * 30103) 100000 - 1)
where
  /-- Moves up while the next power of ten is not above the quotient. -/
  settle : Nat → Int → Int
    | 0, p => p
    | fuel + 1, p =>
      let (up, down) := powTen (p + 1)
      if den * up ≤ num * down then settle fuel (p + 1) else p

/-- Numerators, over one denominator, of a magnitude and of the ends of the interval that rounds to
it. The gap below a power of two is half as wide. -/
structure Interval where
  low : Nat
  value : Nat
  high : Nat
  den : Nat
  closed : Bool

def Magnitude.interval (m : Magnitude) : Interval :=
  let narrow := m.mantissa == leastMantissa && m.power != -1074
  let (up, down) := powTwo (m.power - 2)
  { low := (4 * m.mantissa - if narrow then 1 else 2) * up
    value := 4 * m.mantissa * up
    high := (4 * m.mantissa + 2) * up
    den := down
    closed := m.mantissa % 2 == 0 }

def Interval.holds (i : Interval) (d : Scientific) : Bool :=
  let (up, down) := powTen d.power
  let x := d.digits * up * i.den
  if i.closed then i.low * down ≤ x && x ≤ i.high * down
  else i.low * down < x && x < i.high * down

def Interval.below (i : Interval) (power : Int) : Scientific :=
  let (up, down) := powTen power
  ⟨i.value * down / (i.den * up), power⟩

def Interval.lowerNearer (i : Interval) (d : Scientific) : Bool :=
  let (up, down) := powTen d.power
  let x := i.value * down
  let lower := d.digits * up * i.den
  let upper := (d.digits + 1) * up * i.den
  x - lower < upper - x || (x - lower == upper - x && d.digits % 2 == 0)

def Interval.onGrid? (i : Interval) (power : Int) : Option Scientific :=
  let lower := i.below power
  let upper : Scientific := ⟨lower.digits + 1, power⟩
  match i.holds lower, i.holds upper with
  | true, true => some (if i.lowerNearer lower then lower else upper)
  | true, false => some lower
  | false, true => some upper
  | false, false => none

def Scientific.trim : Nat → Scientific → Scientific
  | 0, d => d
  | fuel + 1, d =>
    if d.digits != 0 && d.digits % 10 == 0 then trim fuel ⟨d.digits / 10, d.power + 1⟩ else d

def Interval.search (i : Interval) (first : Int) : Nat → Nat → Scientific
  | 0, tried => i.below (first - tried)
  | fuel + 1, tried =>
    match i.onGrid? (first - tried) with
    | some d => d
    | none => i.search first fuel (tried + 1)

def shortest (m : Magnitude) : Scientific :=
  if m.mantissa == 0 then ⟨0, 0⟩
  else
    let i := m.interval
    (i.search (firstPlace i.value i.den) 17 0).trim 20

end Folio.Decimal
