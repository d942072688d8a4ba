import Folio.Pattern.Basic
import Folio.Text.Case

/-!
# Tests of characters

A single character of a pattern is a test of the characters of a text. When letter case is ignored,
the character of the text is put into lower case first, and the test accepts all lower-case
characters that share their capital, such as the two forms of a small sigma.
-/

namespace Folio.Pattern

inductive Fold where
  | exact
  | ascii
  | full
deriving DecidableEq, Repr

def Fold.lower : Fold → Nat → Nat
  | .exact, n => n
  | .ascii, n => if 65 ≤ n && n ≤ 90 then n + 32 else n
  | .full, n => (Text.foldChar (Char.ofNat n)).toNat

def Fold.raise : Fold → Nat → Nat
  | .exact, n => n
  | .ascii, n => if 97 ≤ n && n ≤ 122 then n - 32 else n
  | .full, n => (Text.raiseChar (Char.ofNat n)).toNat

def Fold.isCased (fold : Fold) (n : Nat) : Bool :=
  fold.lower n != n || fold.raise n != n

def sharedCapitals : List (Nat × List Nat) :=
  (Text.wordsOf [
    "69=131 73=17F B5=3BC 131=69 17F=73 345=3B9,1FBE 390=1FD3 3B0=1FE3 3B2=3D0 3B5=3F5 3B8=3D1",
    "3B9=345,1FBE 3BA=3F0 3BC=B5 3C0=3D6 3C1=3F1 3C2=3C3 3C3=3C2 3C6=3D5 3D0=3B2 3D1=3B8 3D5=3C6",
    "3D6=3C0 3F0=3BA 3F1=3C1 3F5=3B5 432=1C80 434=1C81 43E=1C82 441=1C83 442=1C84,1C85 44A=1C86",
    "463=1C87 1C80=432 1C81=434 1C82=43E 1C83=441 1C84=442,1C85 1C85=442,1C84 1C86=44A 1C87=463",
    "1C88=A64B 1E61=1E9B 1E9B=1E61 1FBE=345,3B9 1FD3=390 1FE3=3B0 A64B=1C88 FB05=FB06 FB06=FB05"]
    ).flatMap Text.CaseMap.longerOfWord

def secondCapitals : List (Nat × List Nat) :=
  (Text.wordsOf [
    "69=130 6B=212A DF=1E9E E5=212B 1C6=1C5 1C9=1C8 1CC=1CB 1F3=1F2 3B8=3F4 3C9=2126",
    "1F80-1F87=1F88 1F90-1F97=1F98 1FA0-1FA7=1FA8 1FB3=1FBC 1FC3=1FCC 1FF3=1FFC"]
    ).flatMap Text.CaseMap.longerOfWord

def Fold.relatives : Fold → Nat → List Nat
  | .full, n => n :: (sharedCapitals.lookup n).getD []
  | _, n => [n]

def Fold.sources (fold : Fold) (n : Nat) : List Nat :=
  let candidates := n :: fold.raise n :: (secondCapitals.lookup n).getD []
  candidates.filter fun m => fold.lower m == n

def lastBasic : Nat := 0xFFFF

inductive Part where
  | code (n : Nat)
  | range (first last : Nat)
  /-- A range in which all codes are put into lower case. -/
  | lowered (first last : Nat)
  /-- A range that holds the code or its capital. -/
  | raised (first last : Nat)
  | kind (kind : Kind) (ascii negated : Bool)
deriving DecidableEq, Repr

/-- A test: what counts as a character of the text, and the parts of which one has to accept it, or
none if the test is negated. -/
structure CharTest where
  negated : Bool
  fold : Fold
  parts : List Part
deriving DecidableEq, Repr

def Kind.holds (ascii : Bool) (n : Nat) : Kind → Bool
  | .digit => if ascii then 48 ≤ n && n ≤ 57 else Text.isDecimal (Char.ofNat n)
  | .space => if ascii then n == 32 || (9 ≤ n && n ≤ 13) else Text.isSpace (Char.ofNat n)
  | .word =>
    if ascii then
      (48 ≤ n && n ≤ 57) || (65 ≤ n && n ≤ 90) || n == 95 || (97 ≤ n && n ≤ 122)
    else Text.isWord (Char.ofNat n)

def inRange (first last n : Nat) : Bool :=
  first ≤ n && n ≤ last

def Part.accepts (fold : Fold) (n : Nat) : Part → Bool
  | .code m => n == m
  | .range first last => inRange first last n
  | .lowered first last =>
    (fold.relatives n).any fun m => (fold.sources m).any (inRange first last)
  | .raised first last => inRange first last n || inRange first last (fold.raise n)
  | .kind k ascii negated => k.holds ascii n != negated

def CharTest.accepts (test : CharTest) (c : Char) : Bool :=
  let n := test.fold.lower c.toNat
  (test.parts.any (·.accepts test.fold n)) != test.negated

def Flags.fold (flags : Flags) : Fold :=
  if !flags.ignoreCase then .exact else if flags.ascii then .ascii else .full

def CharTest.ofCode (flags : Flags) (negated : Bool) (code : Nat) : CharTest :=
  let fold := flags.fold
  if fold.isCased code then ⟨negated, fold, (fold.relatives (fold.lower code)).map .code⟩
  else ⟨negated, .exact, [.code code]⟩

def CharTest.any (flags : Flags) : CharTest :=
  ⟨true, .exact, if flags.dotAll then [] else [.code 10]⟩

def Member.foldedParts (fold : Fold) (ascii : Bool) : Member → List Part
  | .char code =>
    if lastBasic < fold.lower code then [.code code]
    else (fold.relatives (fold.lower code)).map .code
  | .range first last =>
    (if first ≤ lastBasic then [.lowered first (min last lastBasic)] else [])
      ++ (if lastBasic < last then [.raised first last] else [])
  | .kind k negated => [.kind k ascii negated]

def Member.exactParts (ascii : Bool) : Member → List Part
  | .char code => [.code code]
  | .range first last => [.range first last]
  | .kind k negated => [.kind k ascii negated]

def Member.isCased (fold : Fold) : Member → Bool
  | .char code => lastBasic < fold.lower code || fold.isCased code
  | .range first last =>
    lastBasic < last || (List.range (last + 1 - first)).any fun i => fold.isCased (first + i)
  | .kind _ _ => false

def CharTest.ofSet (flags : Flags) (negated : Bool) (members : List Member) : CharTest :=
  let fold := flags.fold
  if fold != .exact && members.any (·.isCased fold) then
    ⟨negated, fold, members.flatMap (·.foldedParts fold flags.ascii)⟩
  else ⟨negated, .exact, members.flatMap (·.exactParts flags.ascii)⟩

end Folio.Pattern
