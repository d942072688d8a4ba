/-!
# Sets of code points

A set of code points is an increasing sequence of closed ranges and is asked by bisection. Tables give
the lengths of the runs of characters that are in turn outside and inside of the set.
-/

namespace Folio.Text

def hexDigitValue (c : Char) : Nat :=
  if c.isDigit then c.toNat - '0'.toNat
  else if 'A' ≤ c ∧ c ≤ 'F' then c.toNat - 'A'.toNat + 10
  else if 'a' ≤ c ∧ c ≤ 'f' then c.toNat - 'a'.toNat + 10
  else 0

def hexValue (digits : List Char) : Nat :=
  digits.foldl (fun value c => 16 * value + hexDigitValue c) 0

def splitAll (separator : Char) (cs : List Char) : List (List Char) :=
  go [] [] cs
where
  go (piece : List Char) (pieces : List (List Char)) : List Char → List (List Char)
    | [] => (piece.reverse :: pieces).reverse
    | c :: rest =>
      if c == separator then go [] (piece.reverse :: pieces) rest
      else go (c :: piece) pieces rest

def wordsOf (lines : List String) : List (List Char) :=
  (lines.flatMap fun line => splitAll ' ' line.toList).filter (!·.isEmpty)

/-- Narrows `[lo, hi)` down to the first position whose element fails `p`, for a `p` that holds on
an initial segment. -/
def bisect (p : α → Bool) (a : Array α) : Nat → Nat → Nat → Nat
  | 0, lo, _ => lo
  | fuel + 1, lo, hi =>
    if lo < hi then
      let mid := (lo + hi) / 2
      match a[mid]? with
      | none => lo
      | some x => if p x then bisect p a fuel (mid + 1) hi else bisect p a fuel lo mid
    else lo

/-- The position of the last element that satisfies `p`, for a `p` that holds on an initial
segment; zero if there is none. -/
def lastIndex (p : α → Bool) (a : Array α) : Nat :=
  bisect p a 64 0 a.size - 1

structure Ranges where
  bounds : Array (Nat × Nat)

/-- From `next` on, so many characters are outside, then so many inside, and so on in turn. -/
def Ranges.boundsOfRuns (next : Nat) : List Nat → List (Nat × Nat)
  | outside :: inside :: runs =>
    let first := next + outside
    (first, first + inside - 1) :: boundsOfRuns (first + inside) runs
  | _ => []

def Ranges.ofRuns (runs : List Nat) : Ranges :=
  ⟨(Ranges.boundsOfRuns 0 runs).toArray⟩

def hexDigits : Nat → Nat → List Nat
  | 0, _ => []
  | count + 1, n => n % 16 :: hexDigits count (n / 16)

/-- Reads run lengths from digits. The last digit of a length is below eight, the others have eight
added. -/
def runsOfDigits (value : Nat) : List Nat → List Nat
  | [] => []
  | d :: ds =>
    if d < 8 then (8 * value + d) :: runsOfDigits 0 ds else runsOfDigits (8 * value + (d - 8)) ds

/-- The set with the runs in numbers of 88 hexadecimal digits, which are read from the last one. -/
def Ranges.ofNumbers (numbers : List Nat) : Ranges :=
  Ranges.ofRuns (runsOfDigits 0 (numbers.flatMap (hexDigits 88)))

def runDigitValue (c : Char) : Nat :=
  let n := c.toNat
  if n < 58 then n - 48 else if n < 91 then n - 55 else n - 61

/-- Reads run lengths. Each is one digit, or has as many plus signs before it as it has more
digits. -/
def runsOf (more value : Nat) : List Char → List Nat
  | [] => []
  | c :: cs =>
    if c == '+' then runsOf (more + 1) value cs
    else
      let value := 62 * value + runDigitValue c
      if more == 0 then value :: runsOf 0 0 cs else runsOf (more - 1) value cs

def Ranges.ofLines (lines : List String) : Ranges :=
  Ranges.ofRuns (runsOf 0 0 (lines.flatMap String.toList))

def Ranges.find? (r : Ranges) (n : Nat) : Option (Nat × Nat) :=
  match r.bounds[lastIndex (fun bound => bound.1 ≤ n) r.bounds]? with
  | some bound => if bound.1 ≤ n && n ≤ bound.2 then some bound else none
  | none => none

def Ranges.contains (r : Ranges) (n : Nat) : Bool :=
  (r.find? n).isSome

end Folio.Text
