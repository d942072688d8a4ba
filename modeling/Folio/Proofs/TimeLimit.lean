import Folio.Proofs.GuardedRun
import Folio.Proofs.NearestDouble
import Mathlib.Algebra.Order.Floor.Semiring
import Mathlib.Algebra.Order.Floor.Div
import Mathlib.Data.Rat.Floor
import Mathlib.Order.WithBot
import Mathlib.Tactic

/-!
# Runs within time limits

A time limit only cuts a run short.  A longer limit admits every checkpoint that a
shorter one admits, so the runs go the same way until the shorter limit stops one
of them, and what was printed until then is the start of what the other prints.

The limits are compared as numbers of seconds: whole numbers and binary fractions
have an exact value, and no limit is longer than all of them.
-/

namespace Folio

/-! ## Courses within two allowances -/

section Courses

variable {σ ε α : Type}

theorem Course.prefix_printed_follow (allowance : Allowance) (count : Nat) (pieces : List Text)
    (c : Course σ ε α) : pieces.reverse.flatten <+: (c.follow allowance count pieces).printed := by
  induction c generalizing count pieces with
  | done s a => exact List.prefix_refl _
  | failed s e => exact List.prefix_refl _
  | lost s => exact List.prefix_refl _
  | checkpoint phase s next ih =>
    unfold Course.follow
    split
    · exact ih () (count + 1) pieces
    · exact List.prefix_refl _
  | print text next ih =>
    refine List.IsPrefix.trans ?_ (ih () count (text :: pieces))
    simp

def Allowance.AtMost (short long : Allowance) : Prop :=
  ∀ count, short.admits count = true → long.admits count = true

/-- A run was stopped at the first checkpoint that its allowance does not
admit. -/
def Outcome.StoppedBy (allowance : Allowance) (o : Outcome σ ε α) : Prop :=
  ∃ phase n, allowance = some n ∧ o.ending = .stopped phase (n + 1)

theorem Course.follow_of_atMost {short long : Allowance} (hmost : short.AtMost long) {count : Nat}
    (hcount : short.admits count = true) (pieces : List Text) (c : Course σ ε α) :
    c.follow short count pieces = c.follow long count pieces ∨
      (c.follow short count pieces).StoppedBy short ∧ (c.follow short count pieces).printed <+:
          (c.follow long count pieces).printed := by
  induction c generalizing count pieces with
  | done s a => exact .inl rfl
  | failed s e => exact .inl rfl
  | lost s => exact .inl rfl
  | checkpoint phase s next ih =>
    unfold Course.follow
    by_cases hnext : short.admits (count + 1) = true
    · rw [if_pos hnext, if_pos (hmost _ hnext)]
      exact ih () hnext pieces
    · -- The shorter allowance ends here.
      right
      rw [if_neg hnext]
      constructor
      · cases short with
        | none => exact absurd rfl hnext
        | some n =>
          simp only [Allowance.admits, decide_eq_true_eq] at hcount hnext
          obtain rfl : count = n := by omega
          exact ⟨phase, count, rfl, rfl⟩
      · exact Course.prefix_printed_follow long count pieces (.checkpoint phase s next)
  | print text next ih => exact ih () hcount (text :: pieces)

theorem Action.run_of_atMost {short long : Allowance} (hmost : short.AtMost long) (a : Action σ ε α)
    (s : σ) : a.run short s = a.run long s ∨
      (a.run short s).StoppedBy short ∧ (a.run short s).printed <+: (a.run long s).printed := by
  refine Course.follow_of_atMost hmost ?_ [] (a s)
  cases short with
  | none => rfl
  | some n => exact decide_eq_true (Nat.zero_le n)

end Courses

/-! ## Limits as numbers -/

/-- A number is at most the integer part of a magnitude exactly if it is at most
the magnitude. -/
theorem Decimal.Magnitude.le_floor_iff (m : Decimal.Magnitude) (n : Nat) :
    n ≤ m.floor ↔ (n : ℚ) ≤ m.value := by
  have hpos := (Decimal.powTwo_pos m.power).2
  have hvalue : m.value =
      (m.mantissa * (Decimal.powTwo m.power).1 : ℕ) / (Decimal.powTwo m.power).2 := by
    rw [Decimal.Magnitude.value, ← Decimal.powTwo_ratio, Nat.cast_mul, mul_div_assoc]
  rw [hvalue, le_div_iff₀ (by exact_mod_cast hpos)]
  have hfloor : m.floor =
      m.mantissa * (Decimal.powTwo m.power).1 / (Decimal.powTwo m.power).2 := rfl
  rw [hfloor, Nat.le_div_iff_mul_le hpos]
  norm_cast

namespace Timeout

/-- The seconds of a limit, if it is a number of seconds. -/
def seconds? : Timeout → Option (WithTop ℚ)
  | .unlimited => some ⊤
  | .notNumber => none
  | .whole seconds => some (seconds : ℚ)
  | .fraction seconds =>
    match Decimal.parts seconds with
    | .finite negative m => some (if negative then -m.value else m.value : ℚ)
    | .infinite negative => if negative then none else some ⊤
    | .nan => none

def NotLonger (short long : Timeout) : Prop :=
  long = .unlimited ∨
    ∃ a b, short.seconds? = some a ∧ long.seconds? = some b ∧ a ≤ b

theorem admits_iff {limit : Timeout} {allowance : Allowance} {v : WithTop ℚ}
    (hallowance : limit.allowance = .ok allowance) (hseconds : limit.seconds? = some v)
    (count : Nat) : allowance.admits count = true ↔ ((count : ℚ) : WithTop ℚ) ≤ v := by
  unfold Timeout.allowance at hallowance
  unfold seconds? at hseconds
  cases limit with
  | unlimited =>
    cases hallowance
    cases hseconds
    simp [Allowance.admits]
  | notNumber => cases hallowance
  | whole seconds =>
    dsimp only at hallowance hseconds
    split_ifs at hallowance with _ hsign
    cases hallowance
    cases hseconds
    simp only [Allowance.admits, decide_eq_true_eq, WithTop.coe_le_coe]
    lift seconds to ℕ using not_lt.mp hsign
    norm_cast
  | fraction seconds =>
    dsimp only at hallowance hseconds
    cases hparts : Decimal.parts seconds with
    | nan =>
      rw [hparts] at hseconds
      cases hseconds
    | infinite negative =>
      rw [hparts] at hallowance hseconds
      cases negative with
      | true => cases hseconds
      | false =>
        cases hallowance
        cases hseconds
        simp [Allowance.admits]
    | finite negative m =>
      rw [hparts] at hallowance hseconds
      dsimp only at hallowance hseconds
      split_ifs at hallowance with hsign
      cases hallowance
      have hvalue : (if negative then -m.value else m.value) = m.value := by
        split_ifs with hneg
        · -- Minus zero is zero.
          have hzero : m.mantissa = 0 := by simpa [hneg] using hsign
          simp [Decimal.Magnitude.value, hzero]
        · rfl
      rw [hvalue] at hseconds
      cases hseconds
      rw [WithTop.coe_le_coe, ← m.le_floor_iff]
      exact decide_eq_true_iff

theorem NotLonger.atMost {short long : Timeout} (hlonger : short.NotLonger long)
    {first second : Allowance} (hfirst : short.allowance = .ok first)
    (hsecond : long.allowance = .ok second) : first.AtMost second := by
  intro count hcount
  rcases hlonger with rfl | ⟨a, b, ha, hb, hab⟩
  · cases hsecond
    rfl
  · rw [admits_iff hfirst ha] at hcount
    rw [admits_iff hsecond hb]
    exact hcount.trans hab

end Timeout

/-- A program that prints two lines, run in an empty tree. -/
def runTwoLines (limit : Timeout) : Except TimeoutFlaw (Outcome World Fault Unit) :=
  execute ⟨[]⟩ ⟨["box"]⟩ none ⟨true, true, true⟩ limit "print(1)\nprint(2)\n".toList

end Folio
