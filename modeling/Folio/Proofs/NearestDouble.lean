import Folio.Decimal.Reader
import Mathlib

/-!
# The nearest double

Every decimal in the interval around a double rounds to that double.  The shortest
decimal of a double lies in its interval, since one of the first seventeen decimal
grids has a point there, so reading it gives the double back.
-/

namespace Folio.Decimal

variable {num den : Nat} {x : Float} {negative : Bool} {m : Magnitude} {i : Interval}
   {d : Scientific}

/-! ## Quotients as rational numbers -/

theorem pow_quotient {base : Nat} (hbase : 0 < base) {k : Int} {p : Nat × Nat}
    (hp : p = if 0 ≤ k then (Nat.pow base k.toNat, 1) else (1, Nat.pow base k.natAbs)) :
    (0 < p.1 ∧ 0 < p.2) ∧ (p.1 / p.2 : ℚ) = base ^ k := by
  split at hp
  · subst hp
    lift k to ℕ using ‹0 ≤ k›
    exact ⟨⟨Nat.pow_pos hbase, Nat.one_pos⟩, by simp⟩
  · subst hp
    obtain ⟨n, rfl⟩ : ∃ n : ℕ, k = -n := ⟨(-k).toNat, by omega⟩
    exact ⟨⟨Nat.one_pos, Nat.pow_pos hbase⟩, by simp⟩

theorem powTwo_pos (k : Int) : 0 < (powTwo k).1 ∧ 0 < (powTwo k).2 :=
  (pow_quotient Nat.two_pos rfl).1

theorem powTen_pos (k : Int) : 0 < (powTen k).1 ∧ 0 < (powTen k).2 :=
  (pow_quotient (show 0 < 10 by decide) rfl).1

theorem powTwo_ratio (k : Int) : ((powTwo k).1 : ℚ) / (powTwo k).2 = 2 ^ k :=
  (pow_quotient Nat.two_pos rfl).2

theorem powTen_ratio (k : Int) : ((powTen k).1 : ℚ) / (powTen k).2 = 10 ^ k :=
  (pow_quotient (show 0 < 10 by decide) rfl).2

def Magnitude.value (m : Magnitude) : ℚ :=
  m.mantissa * 2 ^ m.power

def Scientific.value (d : Scientific) : ℚ :=
  d.digits * 10 ^ d.power

theorem Scientific.value_eq_div (d : Scientific) :
    d.value = (d.digits * (powTen d.power).1 : ℕ) / (powTen d.power).2 := by
  rw [Scientific.value, ← powTen_ratio, Nat.cast_mul, mul_div_assoc]

theorem ratio_le_iff (hden : 0 < den) {up down : Nat} (hdown : 0 < down) :
    den * up ≤ num * down ↔ (up / down : ℚ) ≤ num / den := by
  rw [div_le_div_iff₀ (by exact_mod_cast hdown) (by exact_mod_cast hden), mul_comm den]
  norm_cast

theorem powTwo_le_iff (hden : 0 < den) (k : Int) :
    den * (powTwo k).1 ≤ num * (powTwo k).2 ↔ (2 : ℚ) ^ k ≤ num / den := by
  rw [ratio_le_iff hden (powTwo_pos k).2, powTwo_ratio]

theorem powTen_le_iff (hden : 0 < den) (k : Int) :
    den * (powTen k).1 ≤ num * (powTen k).2 ↔ (10 : ℚ) ^ k ≤ num / den := by
  rw [ratio_le_iff hden (powTen_pos k).2, powTen_ratio]

theorem log2_bounds (hnum : num ≠ 0) (hden : 0 < den) :
    (2 : ℚ) ^ ((num.log2 : Int) - den.log2 - 1) ≤ num / den ∧
      (num / den : ℚ) < 2 ^ ((num.log2 : Int) - den.log2 + 1) := by
  have hpos : (0 : ℚ) < den := by exact_mod_cast hden
  have hnumLow : (2 : ℚ) ^ num.log2 ≤ num := by exact_mod_cast Nat.log2_self_le hnum
  have hnumHigh : (num : ℚ) < 2 ^ (num.log2 + 1) := by exact_mod_cast Nat.lt_log2_self
  have hdenLow : (2 : ℚ) ^ den.log2 ≤ den := by exact_mod_cast Nat.log2_self_le hden.ne'
  have hdenHigh : (den : ℚ) < 2 ^ (den.log2 + 1) := by exact_mod_cast Nat.lt_log2_self
  constructor
  · rw [le_div_iff₀ hpos]
    calc (2 : ℚ) ^ ((num.log2 : Int) - den.log2 - 1) * den
        ≤ 2 ^ ((num.log2 : Int) - den.log2 - 1) * 2 ^ (den.log2 + 1) := by gcongr
      _ = 2 ^ num.log2 := by
          rw [← zpow_natCast, ← zpow_natCast, ← zpow_add₀ two_ne_zero]
          congr 1
          push_cast
          ring
      _ ≤ num := hnumLow
  · rw [div_lt_iff₀ hpos]
    calc (num : ℚ) < 2 ^ (num.log2 + 1) := hnumHigh
      _ = 2 ^ ((num.log2 : Int) - den.log2 + 1) * 2 ^ den.log2 := by
          rw [← zpow_natCast, ← zpow_natCast, ← zpow_add₀ two_ne_zero]
          congr 1
          push_cast
          ring
      _ ≤ 2 ^ ((num.log2 : Int) - den.log2 + 1) * den := by gcongr

/-! ## Doubles -/

/-- The magnitudes that doubles have. -/
structure Magnitude.OfDouble (m : Magnitude) : Prop where
  mantissa_lt : m.mantissa < 2 * leastMantissa
  least : -1074 ≤ m.power
  most : m.power ≤ 971
  full : leastMantissa ≤ m.mantissa ∨ m.power = -1074

def Magnitude.bits (m : Magnitude) : Nat :=
  (m.power + 1074).toNat * leastMantissa + m.mantissa

theorem ofDouble_of_parts (hparts : parts x = .finite negative m) : m.OfDouble := by
  have hleast : leastMantissa = 4503599627370496 := by decide
  have hfraction : x.toBits.toNat % leastMantissa < leastMantissa := Nat.mod_lt _ (by decide)
  have hfield : x.toBits.toNat / leastMantissa % 2048 < 2048 := Nat.mod_lt _ (by decide)
  unfold parts at hparts
  dsimp only at hparts
  split at hparts
  · split at hparts <;> cases hparts
  · rename_i hfinite
    simp only [beq_iff_eq] at hfinite
    split at hparts
    · cases hparts
      exact ⟨by dsimp only; omega, le_refl _, by dsimp only; omega, .inr rfl⟩
    · rename_i hnormal
      simp only [beq_iff_eq] at hnormal
      cases hparts
      exact ⟨by dsimp only; omega, by dsimp only; omega, by dsimp only; omega,
        .inl (Nat.le_add_left _ _)⟩

theorem ofBits_of_parts (hparts : parts x = .finite negative m) : ofBits negative m.bits = x := by
  have hleast : leastMantissa = 4503599627370496 := by decide
  have hsign : signBit = 9223372036854775808 := by decide
  have hlt : x.toBits.toNat < 18446744073709551616 := x.toBits.toNat_lt
  have hnumber : (if negative then m.bits + signBit else m.bits) = x.toBits.toNat := by
    unfold parts at hparts
    dsimp only at hparts
    split at hparts
    · split at hparts <;> cases hparts
    · split at hparts
      · rename_i hzero
        simp only [beq_iff_eq] at hzero
        cases hparts
        simp only [Magnitude.bits, beq_iff_eq, hleast, hsign] at *
        split <;> omega
      · rename_i hnormal
        simp only [beq_iff_eq] at hnormal
        cases hparts
        simp only [Magnitude.bits, beq_iff_eq, hleast, hsign] at *
        split <;> omega
  rw [ofBits, hnumber, UInt64.ofNat_toNat, Float.ofBits_toBits]

/-! ## The interval of a double -/

/-- The distance of the lower end of the interval, in units of the last place. -/
def Magnitude.gapBelow (m : Magnitude) : ℚ :=
  if m.mantissa = leastMantissa ∧ m.power ≠ -1074 then 1 / 4 else 1 / 2

def Magnitude.lowEnd (m : Magnitude) : ℚ :=
  (m.mantissa - m.gapBelow) * 2 ^ m.power

def Magnitude.highEnd (m : Magnitude) : ℚ :=
  (m.mantissa + 1 / 2) * 2 ^ m.power

/-- A number rounds to a magnitude: an end of the interval does if the mantissa is
even. -/
def Magnitude.Near (m : Magnitude) (x : ℚ) : Prop :=
  if m.mantissa % 2 = 0 then m.lowEnd ≤ x ∧ x ≤ m.highEnd
  else m.lowEnd < x ∧ x < m.highEnd

theorem Magnitude.Near.le {m : Magnitude} {x : ℚ} (hx : m.Near x) :
    m.lowEnd ≤ x ∧ x ≤ m.highEnd := by
  unfold Magnitude.Near at hx
  split at hx
  · exact hx
  · exact ⟨hx.1.le, hx.2.le⟩

theorem Magnitude.near_of_lt {x : ℚ} (hlow : m.lowEnd < x) (hhigh : x < m.highEnd) : m.Near x := by
  unfold Magnitude.Near
  split
  · exact ⟨hlow.le, hhigh.le⟩
  · exact ⟨hlow, hhigh⟩

theorem Magnitude.gapBelow_cases (m : Magnitude) :
    m.mantissa = leastMantissa ∧ m.power ≠ -1074 ∧ m.gapBelow = 1 / 4 ∨
      ¬(m.mantissa = leastMantissa ∧ m.power ≠ -1074) ∧ m.gapBelow = 1 / 2 := by
  unfold Magnitude.gapBelow
  split
  · rename_i hnarrow
    exact .inl ⟨hnarrow.1, hnarrow.2, rfl⟩
  · rename_i hwide
    exact .inr ⟨hwide, rfl⟩

theorem Magnitude.interval_den_pos (m : Magnitude) : 0 < m.interval.den :=
  (powTwo_pos (m.power - 2)).2

theorem Magnitude.interval_value_ne_zero (hm : m.mantissa ≠ 0) : m.interval.value ≠ 0 := by
  have hup := (powTwo_pos (m.power - 2)).1
  exact Nat.mul_ne_zero (Nat.mul_ne_zero (by decide) hm) hup.ne'

theorem Magnitude.div_interval_den (m : Magnitude) (n : Nat) :
    ((n * (powTwo (m.power - 2)).1 : ℕ) : ℚ) / m.interval.den = n / 4 * 2 ^ m.power := by
  have hden : m.interval.den = (powTwo (m.power - 2)).2 := rfl
  rw [hden, Nat.cast_mul, mul_div_assoc, powTwo_ratio, zpow_sub₀ two_ne_zero]
  norm_num
  ring

theorem Magnitude.interval_value (m : Magnitude) :
    (m.interval.value : ℚ) / m.interval.den = m.value := by
  have hvalue : m.interval.value = 4 * m.mantissa * (powTwo (m.power - 2)).1 := rfl
  rw [hvalue, m.div_interval_den, Magnitude.value]
  push_cast
  ring

theorem Magnitude.interval_high (m : Magnitude) :
    (m.interval.high : ℚ) / m.interval.den = m.highEnd := by
  have hhigh : m.interval.high = (4 * m.mantissa + 2) * (powTwo (m.power - 2)).1 := rfl
  rw [hhigh, m.div_interval_den, Magnitude.highEnd]
  push_cast
  ring

theorem Magnitude.interval_low (hm : m.mantissa ≠ 0) :
    (m.interval.low : ℚ) / m.interval.den = m.lowEnd := by
  have hlow : m.interval.low = (4 * m.mantissa -
      if m.mantissa == leastMantissa && m.power != -1074 then 1 else 2) *
        (powTwo (m.power - 2)).1 := rfl
  rw [hlow, m.div_interval_den, Magnitude.lowEnd]
  rcases m.gapBelow_cases with ⟨hleast, hpower, hgap⟩ | ⟨hwide, hgap⟩
  · rw [hgap, if_pos (by simp [hleast, hpower]), Nat.cast_sub (by omega)]
    push_cast
    ring
  · rw [hgap, if_neg (by simpa using hwide), Nat.cast_sub (by omega)]
    push_cast
    ring

theorem Magnitude.holds_iff (hm : m.mantissa ≠ 0)
    (d : Scientific) : m.interval.holds d = true ↔ m.Near d.value := by
  have hden : (0 : ℚ) < m.interval.den := by exact_mod_cast m.interval_den_pos
  have hdown : (0 : ℚ) < (powTen d.power).2 := by exact_mod_cast (powTen_pos d.power).2
  have hle : ∀ n : Nat, n * (powTen d.power).2 ≤ d.digits * (powTen d.power).1 * m.interval.den ↔
        (n : ℚ) / m.interval.den ≤ d.value := by
    intro n
    rw [d.value_eq_div, div_le_div_iff₀ hden hdown]
    norm_cast
  have hge : ∀ n : Nat, d.digits * (powTen d.power).1 * m.interval.den ≤
      n * (powTen d.power).2 ↔ d.value ≤ (n : ℚ) / m.interval.den := by
    intro n
    rw [d.value_eq_div, div_le_div_iff₀ hdown hden]
    norm_cast
  have hclosed : m.interval.closed = (m.mantissa % 2 == 0) := rfl
  unfold Interval.holds Magnitude.Near
  simp only [hclosed, beq_iff_eq]
  split
  · rw [Bool.and_eq_true, decide_eq_true_eq, decide_eq_true_eq, hle, hge, m.interval_high,
      Magnitude.interval_low hm]
  · rw [Bool.and_eq_true, decide_eq_true_eq, decide_eq_true_eq, ← Nat.not_le, ← Nat.not_le, hle,
      hge, m.interval_high, Magnitude.interval_low hm, not_le, not_le]

/-! ## The search for the shortest decimal -/

theorem Interval.holds_of_onGrid? {power : Int}
    (hgrid : i.onGrid? power = some d) : i.holds d = true := by
  unfold Interval.onGrid? at hgrid
  dsimp only at hgrid
  split at hgrid
  · rename_i hlower hupper
    cases hgrid
    split
    · exact hlower
    · exact hupper
  · rename_i hlower hupper
    cases hgrid
    exact hlower
  · rename_i hlower hupper
    cases hgrid
    exact hupper
  · cases hgrid

theorem Interval.onGrid?_isSome {power : Int}
    (hholds : i.holds (i.below power) = true ∨ i.holds ⟨(i.below power).digits + 1, power⟩ = true) :
    (i.onGrid? power).isSome = true := by
  unfold Interval.onGrid?
  dsimp only
  split
  · rfl
  · rfl
  · rfl
  · rename_i hlower hupper
    rw [hlower, hupper] at hholds
    simp at hholds

/-- The search ends with a decimal of the interval if there is one on a grid that
it looks at. -/
theorem Interval.holds_search {first : Int} {k : Nat}
    (hgrid : (i.onGrid? (first - k)).isSome = true) (fuel tried : Nat) (hfrom : tried ≤ k)
    (hto : k < tried + fuel) : i.holds (i.search first fuel tried) = true := by
  induction fuel generalizing tried with
  | zero => omega
  | succ fuel ih =>
    rw [Interval.search]
    cases hd : i.onGrid? (first - tried) with
    | some d => exact holds_of_onGrid? hd
    | none =>
      have hne : tried ≠ k := by
        rintro rfl
        simp [hd] at hgrid
      exact ih (tried + 1) (by omega) (by omega)

theorem Magnitude.below_bounds (m : Magnitude) (power : Int) :
    (m.interval.below power).value ≤ m.value ∧
      m.value < (m.interval.below power).value + 10 ^ power := by
  have hden : (0 : ℚ) < m.interval.den := by exact_mod_cast m.interval_den_pos
  have hup : (0 : ℚ) < (powTen power).1 := by exact_mod_cast (powTen_pos power).1
  have hdown : (0 : ℚ) < (powTen power).2 := by exact_mod_cast (powTen_pos power).2
  have hvalue : (m.interval.below power).value = ((m.interval.value * (powTen power).2 /
        (m.interval.den * (powTen power).1) : ℕ) : ℚ) * 10 ^ power := rfl
  rw [hvalue, ← powTen_ratio, ← m.interval_value]
  generalize m.interval.value = value at *
  generalize m.interval.den = den at *
  generalize (powTen power).1 = up at *
  generalize (powTen power).2 = down at *
  have hfloor : value * down / (den * up) * (den * up) ≤ value * down := Nat.div_mul_le_self _ _
  have hnext : value * down < value * down / (den * up) * (den * up) + den * up :=
    Nat.lt_div_mul_add (by exact_mod_cast mul_pos hden hup)
  generalize value * down / (den * up) = q at *
  have hfloor' : (q : ℚ) * (den * up) ≤ value * down := by exact_mod_cast hfloor
  have hnext' : (value : ℚ) * down < q * (den * up) + den * up := by exact_mod_cast hnext
  constructor
  · rw [← mul_div_assoc, div_le_div_iff₀ hdown hden]
    linarith
  · rw [← mul_div_assoc, ← add_div, div_lt_div_iff₀ hden hdown]
    linarith

/-- A grid with sixteen digits behind the first one has a point in the interval,
since its points are less than a unit of the last place apart. -/
theorem Magnitude.onGrid?_isSome {m : Magnitude} (hm : m.mantissa ≠ 0) (hdouble : m.OfDouble)
    {power : Int} (hfine : 10 ^ 16 * (10 : ℚ) ^ power ≤ m.value) :
    (m.interval.onGrid? power).isSome = true := by
  have hleast : (leastMantissa : ℚ) = 4503599627370496 := by
    exact_mod_cast (by decide : leastMantissa = 4503599627370496)
  have hmantissa : (m.mantissa : ℚ) < 2 * leastMantissa := by exact_mod_cast hdouble.mantissa_lt
  have hunit : (0 : ℚ) < 2 ^ m.power := by positivity
  obtain ⟨hbelow, habove⟩ := m.below_bounds power
  have hupper : (⟨(m.interval.below power).digits + 1, power⟩ : Scientific).value =
      (m.interval.below power).value + 10 ^ power := by
    have hpower : (m.interval.below power).power = power := rfl
    simp only [Scientific.value, hpower]
    push_cast
    ring
  apply Interval.onGrid?_isSome
  rw [Magnitude.holds_iff hm, Magnitude.holds_iff hm, hupper]
  unfold Magnitude.value at *
  generalize (m.interval.below power).value = lower at *
  generalize (10 : ℚ) ^ power = step at *
  have hlowEnd : m.lowEnd = (m.mantissa - m.gapBelow) * 2 ^ m.power := rfl
  have hhighEnd : m.highEnd = (m.mantissa + 1 / 2) * 2 ^ m.power := rfl
  generalize (2 : ℚ) ^ m.power = unit at *
  rcases m.gapBelow_cases with ⟨hnarrow, -, hgap⟩ | ⟨-, hgap⟩
  · -- The gap below is half as wide, and so is the grid: the upper neighbour fits.
    right
    have hvalue : (m.mantissa : ℚ) = 4503599627370496 := by rw [hnarrow, hleast]
    rw [hvalue] at hfine hbelow habove hlowEnd hhighEnd
    rw [hgap] at hlowEnd
    apply Magnitude.near_of_lt
    · linarith
    · linarith
  · have hstep : step < unit := by
      rw [hleast] at hmantissa
      nlinarith
    rw [hgap] at hlowEnd
    by_cases hnear : m.mantissa * unit - lower < unit / 2
    · left
      apply Magnitude.near_of_lt
      · linarith
      · linarith
    · right
      apply Magnitude.near_of_lt
      · linarith
      · linarith

theorem powTen_estimate : ∀ n ∈ List.range 2200,
    (powTen (Int.fdiv (((n : Int) - 1100) * 30103) 100000 - 1)).1 *
        (powTwo ((n : Int) - 1100 - 1)).2 ≤ (powTwo ((n : Int) - 1100 - 1)).1 *
        (powTen (Int.fdiv (((n : Int) - 1100) * 30103) 100000 - 1)).2 := by
  decide +kernel

theorem zpow_estimate {e : Int} (hleast : -1100 ≤ e) (hmost : e < 1100) :
    (10 : ℚ) ^ (Int.fdiv (e * 30103) 100000 - 1) ≤ 2 ^ (e - 1) := by
  obtain ⟨n, rfl⟩ : ∃ n : ℕ, e = (n : Int) - 1100 := ⟨(e + 1100).toNat, by omega⟩
  have hbound := powTen_estimate n (List.mem_range.mpr (by omega))
  generalize Int.fdiv (((n : Int) - 1100) * 30103) 100000 - 1 = p at *
  generalize (n : Int) - 1100 - 1 = k at *
  have hten : (0 : ℚ) < (powTen p).2 := by exact_mod_cast (powTen_pos p).2
  have htwo : (0 : ℚ) < (powTwo k).2 := by exact_mod_cast (powTwo_pos k).2
  rw [← powTen_ratio, ← powTwo_ratio, div_le_div_iff₀ hten htwo]
  exact_mod_cast hbound

theorem firstPlace.settle_cases (num den fuel : Nat) (p : Int) : settle num den fuel p = p ∨
      den * (powTen (settle num den fuel p)).1 ≤ num * (powTen (settle num den fuel p)).2 := by
  induction fuel generalizing p with
  | zero => exact .inl rfl
  | succ fuel ih =>
    rw [settle]
    dsimp only
    split
    · rename_i hreached
      rcases ih (p + 1) with hsame | hmoved
      · rw [hsame]
        exact .inr hreached
      · exact .inr hmoved
    · exact .inl rfl

theorem zpow_firstPlace_le (hnum : num ≠ 0) (hden : 0 < den)
    (hleast : (2 : ℚ) ^ (-1074 : Int) ≤ num / den) (hmost : (num / den : ℚ) < 2 ^ (1024 : Int)) :
    (10 : ℚ) ^ firstPlace num den ≤ num / den := by
  obtain ⟨hlow, hhigh⟩ := log2_bounds hnum hden
  have hlogLow : -1074 < (num.log2 : Int) - den.log2 + 1 :=
    (zpow_lt_zpow_iff_right₀ one_lt_two).mp (hleast.trans_lt hhigh)
  have hlogHigh : (num.log2 : Int) - den.log2 - 1 < 1024 :=
    (zpow_lt_zpow_iff_right₀ one_lt_two).mp (hlow.trans_lt hmost)
  unfold firstPlace
  dsimp only
  rcases firstPlace.settle_cases num den 4
    (Int.fdiv (((num.log2 : Int) - (den.log2 : Int)) * 30103) 100000 - 1) with
    hsame | hmoved
  · rw [hsame]
    exact (zpow_estimate (by omega) (by omega)).trans hlow
  · exact (powTen_le_iff hden _).mp hmoved

theorem Scientific.value_trim (fuel : Nat) (d : Scientific) : (d.trim fuel).value = d.value := by
  induction fuel generalizing d with
  | zero => rfl
  | succ fuel ih =>
    rw [Scientific.trim]
    split
    · rename_i htrim
      simp only [Bool.and_eq_true, bne_iff_ne, beq_iff_eq] at htrim
      obtain ⟨n, hn⟩ := Nat.dvd_of_mod_eq_zero htrim.2
      rw [ih]
      simp only [Scientific.value, hn, zpow_add₀ (by norm_num : (10 : ℚ) ≠ 0)]
      rw [Nat.mul_div_cancel_left _ (by decide)]
      push_cast
      ring
    · rfl

/-- A positive double lies between the least one and the next power of two after
the greatest one. -/
theorem Magnitude.OfDouble.value_bounds (hdouble : m.OfDouble)
    (hm : m.mantissa ≠ 0) : (2 : ℚ) ^ (-1074 : Int) ≤ m.value ∧ m.value < 2 ^ (1024 : Int) := by
  have hmantissa : (1 : ℚ) ≤ m.mantissa := by exact_mod_cast Nat.one_le_iff_ne_zero.mpr hm
  have hmost : (m.mantissa : ℚ) < 2 ^ (53 : Int) := by
    have htwice : (2 * leastMantissa : Nat) = 2 ^ 53 := by decide
    exact_mod_cast htwice ▸ hdouble.mantissa_lt
  unfold Magnitude.value
  constructor
  · calc (2 : ℚ) ^ (-1074 : Int) ≤ 2 ^ m.power := zpow_le_zpow_right₀ one_le_two hdouble.least
      _ ≤ m.mantissa * 2 ^ m.power := le_mul_of_one_le_left (by positivity) hmantissa
  · calc (m.mantissa : ℚ) * 2 ^ m.power < 2 ^ (53 : Int) * 2 ^ m.power := by gcongr
      _ = 2 ^ (53 + m.power) := (zpow_add₀ two_ne_zero _ _).symm
      _ ≤ 2 ^ (1024 : Int) := zpow_le_zpow_right₀ one_le_two (by have := hdouble.most; omega)

theorem near_shortest (hdouble : m.OfDouble) (hm : m.mantissa ≠ 0) : m.Near (shortest m).value := by
  obtain ⟨hleast, hmost⟩ := hdouble.value_bounds hm
  rw [← m.interval_value] at hleast hmost
  have hfirst := zpow_firstPlace_le (Magnitude.interval_value_ne_zero hm)
    m.interval_den_pos hleast hmost
  rw [m.interval_value] at hfirst
  generalize hplace : firstPlace m.interval.value m.interval.den = first at hfirst
  have hshort : shortest m = (m.interval.search first 17 0).trim 20 := by
    simp [shortest, hm, hplace]
  have hfine : 10 ^ 16 * (10 : ℚ) ^ (first - (16 : Nat)) ≤ m.value := by
    have hpow : 10 ^ 16 * (10 : ℚ) ^ (first - (16 : Nat)) = 10 ^ first := by
      rw [zpow_sub₀ (by norm_num), zpow_natCast]
      field_simp
    rw [hpow]
    exact hfirst
  have hholds := Interval.holds_search
    (Magnitude.onGrid?_isSome hm hdouble hfine) 17 0 (by omega) (by omega)
  rw [hshort, Scientific.value_trim]
  exact (Magnitude.holds_iff hm _).mp hholds

/-! ## Rounding to the nearest double -/

/-- A quotient within a half of a number is rounded to it, at a half if the number
is even. -/
theorem roundDiv_eq {n : Nat} (hden : 0 < den) (hlow : 2 * n * den ≤ 2 * num + den)
    (hhigh : 2 * num ≤ 2 * n * den + den)
    (hodd : n % 2 = 1 → 2 * n * den < 2 * num + den ∧ 2 * num < 2 * n * den + den) :
    roundDiv num den = n := by
  have hdiv : den * (num / den) + num % den = num := Nat.div_add_mod num den
  have hmod : num % den < den := Nat.mod_lt _ hden
  unfold roundDiv
  dsimp only
  generalize num / den = q at *
  generalize num % den = r at *
  subst hdiv
  have hcases : n = q ∨ n = q + 1 := by
    have hupper : n < q + 2 := by
      by_contra hfar
      have hmul : (q + 2) * den ≤ n * den := Nat.mul_le_mul_right _ (by omega)
      linarith
    have hlower : q < n + 1 := by
      by_contra hfar
      have hmul : (n + 1) * den ≤ q * den := Nat.mul_le_mul_right _ (by omega)
      linarith
    omega
  rcases hcases with rfl | rfl
  · have hle : 2 * r ≤ den := by linarith
    split
    · rfl
    · rw [if_neg (by omega)]
      split
      · rfl
      · rename_i hne
        have hlt := (hodd (by simpa using hne)).2
        exact absurd (by linarith : 2 * r < den) (by omega)
  · have hle : den ≤ 2 * r := by linarith
    rw [if_neg (by omega)]
    split
    · rfl
    · split
      · rename_i heven
        simp only [beq_iff_eq] at heven
        have hlt := (hodd (by omega)).1
        exact absurd (by linarith : den < 2 * r) (by omega)
      · rfl

theorem roundDiv_powTwo_eq {n : Nat} (hden : 0 < den) (k : Int)
    (hlow : ((n : ℚ) - 1 / 2) * 2 ^ k ≤ num / den) (hhigh : (num / den : ℚ) ≤ (n + 1 / 2) * 2 ^ k)
    (hodd : n % 2 = 1 → ((n : ℚ) - 1 / 2) * 2 ^ k < num / den ∧
      (num / den : ℚ) < (n + 1 / 2) * 2 ^ k) :
    roundDiv (num * (powTwo k).2) (den * (powTwo k).1) = n := by
  have hpos : (0 : ℚ) < den := by exact_mod_cast hden
  have hdown : (0 : ℚ) < (powTwo k).2 := by exact_mod_cast (powTwo_pos k).2
  have hratio : ∀ x : ℚ, x * 2 ^ k = x * (powTwo k).1 / (powTwo k).2 := by
    intro x
    rw [← powTwo_ratio, mul_div_assoc]
  simp only [hratio, div_le_div_iff₀ hdown hpos, div_le_div_iff₀ hpos hdown,
    div_lt_div_iff₀ hdown hpos, div_lt_div_iff₀ hpos hdown] at hlow hhigh hodd
  have hup := (powTwo_pos k).1
  generalize (powTwo k).1 = up at *
  generalize (powTwo k).2 = down at *
  apply roundDiv_eq (Nat.mul_pos hden hup)
  · have hcast : (2 * n * (den * up) : ℚ) ≤ 2 * (num * down) + den * up := by linarith
    exact_mod_cast hcast
  · have hcast : (2 * (num * down) : ℚ) ≤ 2 * n * (den * up) + den * up := by linarith
    exact_mod_cast hcast
  · intro hn
    obtain ⟨hlt, hgt⟩ := hodd hn
    have hltCast : (2 * n * (den * up) : ℚ) < 2 * (num * down) + den * up := by linarith
    have hgtCast : (2 * (num * down) : ℚ) < 2 * n * (den * up) + den * up := by linarith
    exact ⟨by exact_mod_cast hltCast, by exact_mod_cast hgtCast⟩

/-- The last place is fifty-two places behind the first one, but not below the last
place of the least double. -/
theorem lastPlace_eq (hnum : num ≠ 0) (hden : 0 < den) {f : Int} (hlow : (2 : ℚ) ^ f ≤ num / den)
    (hhigh : (num / den : ℚ) < 2 ^ (f + 1)) : lastPlace num den = max (f - 52) (-1074) := by
  obtain ⟨hlogLow, hlogHigh⟩ := log2_bounds hnum hden
  have hupper : (num.log2 : Int) - den.log2 - 1 < f + 1 :=
    (zpow_lt_zpow_iff_right₀ one_lt_two).mp (hlogLow.trans_lt hhigh)
  have hlower : f < (num.log2 : Int) - den.log2 + 1 :=
    (zpow_lt_zpow_iff_right₀ one_lt_two).mp (hlow.trans_lt hlogHigh)
  unfold lastPlace
  dsimp only
  simp only [powTwo_le_iff hden]
  generalize (num.log2 : Int) - den.log2 = e at *
  split
  · rename_i hreached
    have hle : e < f + 1 := (zpow_lt_zpow_iff_right₀ one_lt_two).mp (hreached.trans_lt hhigh)
    rw [show e = f by omega]
  · rename_i hnot
    have hlt : f < e := (zpow_lt_zpow_iff_right₀ one_lt_two).mp (hlow.trans_lt (not_le.mp hnot))
    rw [show e - 1 = f by omega]

/-- Where the first place is at most the last one of a full mantissa, the last
place is that of the least double. -/
theorem lastPlace_of_small (hnum : num ≠ 0) (hden : 0 < den)
    (hsmall : (num / den : ℚ) < 2 ^ (-1022 : Int)) : lastPlace num den = -1074 := by
  have hpos : (0 : ℚ) < num / den := by
    have hnumPos : (0 : ℚ) < num := by exact_mod_cast Nat.pos_of_ne_zero hnum
    have hdenPos : (0 : ℚ) < den := by exact_mod_cast hden
    positivity
  obtain ⟨f, hlow, hhigh⟩ := exists_mem_Ico_zpow hpos one_lt_two
  have hf : f < -1022 := (zpow_lt_zpow_iff_right₀ one_lt_two).mp (hlow.trans_lt hsmall)
  rw [lastPlace_eq hnum hden hlow hhigh]
  omega

theorem Magnitude.lowEnd_ge (m : Magnitude) :
    ((m.mantissa : ℚ) - 1 / 2) * 2 ^ m.power ≤ m.lowEnd := by
  unfold Magnitude.lowEnd
  have hgap : m.gapBelow ≤ 1 / 2 := by
    rcases m.gapBelow_cases with ⟨-, -, hgap⟩ | ⟨-, hgap⟩ <;> rw [hgap]
    norm_num
  gcongr

theorem Magnitude.OfDouble.highEnd_lt (hdouble : m.OfDouble) : m.highEnd < 2 ^ (m.power + 53) := by
  have htwice : (2 * leastMantissa : Nat) = 2 ^ 53 := by decide
  have hlt : m.mantissa + 1 ≤ 2 ^ 53 := htwice ▸ hdouble.mantissa_lt
  have hcast : (m.mantissa : ℚ) + 1 ≤ 2 ^ 53 := by exact_mod_cast hlt
  rw [zpow_add₀ two_ne_zero, mul_comm, Magnitude.highEnd]
  gcongr
  norm_num at hcast ⊢
  linarith

/-- The ways to round to a double: at its own last place, or at the place behind
it from below a power of two. -/
theorem Magnitude.Near.lastPlace_cases (hdouble : m.OfDouble) (hnum : num ≠ 0) (hden : 0 < den)
    (hnear : m.Near (num / den)) :
    lastPlace num den = m.power ∨ lastPlace num den = m.power - 1 ∧ m.mantissa = leastMantissa ∧
        -1074 < m.power ∧ m.lowEnd = (m.mantissa - 1 / 4) * 2 ^ m.power ∧
        (num / den : ℚ) < m.mantissa * 2 ^ m.power := by
  have hleast : (leastMantissa : ℚ) = 2 ^ 52 := by
    exact_mod_cast (by decide : leastMantissa = 2 ^ 52)
  have hunit : (0 : ℚ) < 2 ^ m.power := by positivity
  obtain ⟨hlow, hhigh⟩ := hnear.le
  have hlt := hhigh.trans_lt hdouble.highEnd_lt
  have hbottom := hdouble.least
  by_cases hfull : (2 : ℚ) ^ (m.power + 52) ≤ num / den
  · left
    rw [lastPlace_eq hnum hden hfull (by rwa [add_assoc])]
    omega
  · have hbelow := not_le.mp hfull
    by_cases hpower : m.power = -1074
    · left
      rw [hpower] at hbelow ⊢
      exact lastPlace_of_small hnum hden hbelow
    · right
      -- Only a power of two has an interval that reaches below a power of two.
      have hlarge := hdouble.full.resolve_right hpower
      rw [zpow_add₀ two_ne_zero] at hbelow
      have hmantissa : m.mantissa = leastMantissa := by
        by_contra hne
        have hnext : leastMantissa + 1 ≤ m.mantissa := by omega
        have hcast : (leastMantissa : ℚ) + 1 ≤ m.mantissa := by exact_mod_cast hnext
        have hinside : (2 : ℚ) ^ m.power * 2 ^ 52 ≤ m.lowEnd := by
          refine le_trans ?_ m.lowEnd_ge
          rw [mul_comm]
          gcongr
          linarith
        exact absurd hbelow (not_lt.mpr (hinside.trans hlow))
      have hgap : m.gapBelow = 1 / 4 := by simp [Magnitude.gapBelow, hmantissa, hpower]
      have hend : m.lowEnd = (m.mantissa - 1 / 4) * 2 ^ m.power := by rw [Magnitude.lowEnd, hgap]
      have hvalue : (m.mantissa : ℚ) = 4503599627370496 := by
        rw [hmantissa, hleast]
        norm_num
      have hfirst : (2 : ℚ) ^ (m.power + 51) ≤ num / den := by
        rw [zpow_add₀ two_ne_zero]
        rw [hend, hvalue] at hlow
        norm_num
        linarith
      refine ⟨?_, hmantissa, by omega, hend, ?_⟩
      · rw [lastPlace_eq hnum hden hfirst (by rw [add_assoc, zpow_add₀ two_ne_zero]; exact hbelow)]
        omega
      · rw [hvalue, mul_comm]
        norm_num at hbelow
        exact hbelow

theorem ofRatio?_of_near (hdouble : m.OfDouble) (hnum : num ≠ 0) (hden : 0 < den)
    (hnear : m.Near (num / den)) (negative : Bool) :
    ofRatio? negative num den = some (ofBits negative m.bits) := by
  obtain ⟨hlow, hhigh⟩ := hnear.le
  have hbits : ((lastPlace num den) + 1074).toNat * leastMantissa +
      roundDiv (num * (powTwo (lastPlace num den)).2)
        (den * (powTwo (lastPlace num den)).1) = m.bits := by
    rcases hnear.lastPlace_cases hdouble hnum hden with
      hplace | ⟨hplace, hmantissa, hpower, hend, hbelow⟩
    · rw [hplace, roundDiv_powTwo_eq hden _ (m.lowEnd_ge.trans hlow) hhigh]
      · rfl
      · intro hodd
        rw [Magnitude.Near, if_neg (by omega)] at hnear
        exact ⟨m.lowEnd_ge.trans_lt hnear.1, hnear.2⟩
    · have hunit : (2 : ℚ) ^ m.power = 2 ^ (m.power - 1) * 2 := by
        rw [← zpow_add_one₀ two_ne_zero, sub_add_cancel]
      have hhalf : (0 : ℚ) < 2 ^ (m.power - 1) := by positivity
      rw [hend, hunit] at hlow
      rw [hunit] at hbelow
      rw [hplace, roundDiv_powTwo_eq (n := 2 * m.mantissa) hden]
      · rw [Magnitude.bits, hmantissa]
        obtain ⟨k, hk⟩ : ∃ k : ℕ, m.power + 1074 = k + 1 := ⟨(m.power + 1073).toNat, by omega⟩
        rw [show m.power - 1 + 1074 = (k : Int) by omega, hk, Int.toNat_natCast,
          show ((k : Int) + 1).toNat = k + 1 by omega]
        ring
      · push_cast
        linarith
      · push_cast
        linarith
      · intro hodd
        omega
  have hfits : m.bits < 2047 * leastMantissa := by
    have hpower : (m.power + 1074).toNat ≤ 2045 := by
      have := hdouble.most
      omega
    have hmul := Nat.mul_le_mul_right leastMantissa hpower
    have hmantissa := hdouble.mantissa_lt
    unfold Magnitude.bits
    omega
  unfold ofRatio?
  dsimp only
  rw [if_neg (by simpa using hnum), hbits, if_pos hfits]

/-! ## Reading a decimal -/

theorem Scientific.size_bounds (hd : d.digits ≠ 0) :
    (10 : ℚ) ^ ((Nat.toDigits 10 d.digits).length + d.power - 1) ≤ d.value ∧
      d.value < 10 ^ ((Nat.toDigits 10 d.digits).length + d.power) := by
  have hten : (10 : ℚ) ≠ 0 := by norm_num
  obtain ⟨k, hk⟩ : ∃ k, (Nat.toDigits 10 d.digits).length = k + 1 :=
    Nat.exists_eq_succ_of_ne_zero (by simp [Nat.toDigits_ne_nil])
  have hhigh : d.digits < 10 ^ (k + 1) :=
    (Nat.length_toDigits_le_iff (by decide) (by omega)).mp hk.le
  have hlow : 10 ^ k ≤ d.digits := by
    rcases Nat.eq_zero_or_pos k with rfl | hpos
    · exact Nat.one_le_iff_ne_zero.mpr hd
    · by_contra hlt
      have := (Nat.length_toDigits_le_iff (by decide) hpos).mpr (not_le.mp hlt)
      omega
  have hlowCast : (10 : ℚ) ^ k ≤ d.digits := by exact_mod_cast hlow
  have hhighCast : (d.digits : ℚ) < 10 ^ (k + 1) := by exact_mod_cast hhigh
  rw [hk, Scientific.value]
  constructor
  · rw [show ((k + 1 : ℕ) : Int) + d.power - 1 = k + d.power by push_cast; ring, zpow_add₀ hten,
      zpow_natCast]
    gcongr
  · rw [zpow_add₀ hten, zpow_natCast]
    gcongr

theorem two_pow_lt_ten_pow {m n : ℕ} (hm : m ≤ 3 * n) (hn : n ≠ 0) : (2 : ℚ) ^ m < 10 ^ n := by
  calc (2 : ℚ) ^ m ≤ 2 ^ (3 * n) := pow_le_pow_right₀ (by norm_num) hm
    _ = 8 ^ n := by rw [pow_mul]; norm_num
    _ < 10 ^ n := pow_lt_pow_left₀ (by norm_num) (by norm_num) hn

theorem zpow_ten_lt : (10 : ℚ) ^ (-400 : Int) < 2 ^ (-1075 : Int) := by
  have hpow : (2 : ℚ) ^ 1075 < 10 ^ 400 := two_pow_lt_ten_pow (by norm_num) (by norm_num)
  rw [zpow_neg, zpow_neg]
  exact inv_strictAnti₀ (by positivity) (by exact_mod_cast hpow)

theorem zpow_two_lt : (2 : ℚ) ^ (1024 : Int) < 10 ^ (399 : Int) := by
  exact_mod_cast two_pow_lt_ten_pow (m := 1024) (n := 399) (by norm_num) (by norm_num)

theorem Magnitude.Near.range (hdouble : m.OfDouble) (hm : m.mantissa ≠ 0) {x : ℚ}
    (hnear : m.Near x) : (10 : ℚ) ^ (-400 : Int) < x ∧ x < 10 ^ (399 : Int) := by
  obtain ⟨hlow, hhigh⟩ := hnear.le
  have hone : (1 : ℚ) ≤ m.mantissa := by exact_mod_cast Nat.one_le_iff_ne_zero.mpr hm
  constructor
  · calc (10 : ℚ) ^ (-400 : Int) < 2 ^ (-1075 : Int) := zpow_ten_lt
      _ ≤ 2 ^ (m.power - 1) := zpow_le_zpow_right₀ one_le_two (by have := hdouble.least; omega)
      _ = 1 / 2 * 2 ^ m.power := by
          rw [zpow_sub_one₀ two_ne_zero]
          ring
      _ ≤ (m.mantissa - 1 / 2) * 2 ^ m.power := by
          gcongr
          linarith
      _ ≤ m.lowEnd := m.lowEnd_ge
      _ ≤ x := hlow
  · calc x ≤ m.highEnd := hhigh
      _ < 2 ^ (m.power + 53) := hdouble.highEnd_lt
      _ ≤ 2 ^ (1024 : Int) := zpow_le_zpow_right₀ one_le_two (by have := hdouble.most; omega)
      _ < 10 ^ (399 : Int) := zpow_two_lt

theorem Magnitude.Near.digits_ne_zero (hdouble : m.OfDouble) (hm : m.mantissa ≠ 0)
    (hnear : m.Near d.value) : d.digits ≠ 0 := by
  intro hzero
  have hpos : (0 : ℚ) < d.value := lt_trans (by positivity) (hnear.range hdouble hm).1
  simp [Scientific.value, hzero] at hpos

theorem ofScientific_of_near (hdouble : m.OfDouble) (hm : m.mantissa ≠ 0) (hnear : m.Near d.value)
    (negative : Bool) : ofScientific negative d = ofBits negative m.bits := by
  have hone : (1 : ℚ) < 10 := by norm_num
  obtain ⟨hleast, hmost⟩ := hnear.range hdouble hm
  have hdigits := hnear.digits_ne_zero hdouble hm
  obtain ⟨hlow, hhigh⟩ := d.size_bounds hdigits
  have hsmall : -400 < ((Nat.toDigits 10 d.digits).length : Int) + d.power :=
    (zpow_lt_zpow_iff_right₀ hone).mp (hleast.trans hhigh)
  have hlarge : ((Nat.toDigits 10 d.digits).length : Int) + d.power - 1 < 399 :=
    (zpow_lt_zpow_iff_right₀ hone).mp (hlow.trans_lt hmost)
  have hnum : d.digits * (powTen d.power).1 ≠ 0 :=
    Nat.mul_ne_zero hdigits (powTen_pos d.power).1.ne'
  rw [d.value_eq_div] at hnear
  have hratio := ofRatio?_of_near hdouble hnum (powTen_pos d.power).2 hnear negative
  unfold ofScientific
  dsimp only
  rw [if_neg (by simp [hdigits]; omega), if_neg (by omega), hratio, Option.getD_some]

/-- A decimal that is equal to the shortest one of a double is read as the
double. -/
theorem ofScientific_of_value (hparts : parts x = .finite negative m)
    (hd : d.value = (shortest m).value) : ofScientific negative d = x := by
  have hdouble := ofDouble_of_parts hparts
  rw [← ofBits_of_parts hparts]
  by_cases hm : m.mantissa = 0
  · have hpower : m.power = -1074 := by
      refine hdouble.full.resolve_left ?_
      rw [hm]
      decide
    have hzero : d.digits = 0 := by
      have hvalue : d.value = 0 := by
        rw [hd]
        simp [shortest, hm, Scientific.value]
      have hten : (10 : ℚ) ^ d.power ≠ 0 := by positivity
      exact_mod_cast (mul_eq_zero.mp hvalue).resolve_right hten
    simp [ofScientific, hzero, Magnitude.bits, hm, hpower]
  · apply ofScientific_of_near hdouble hm
    rw [hd]
    exact near_shortest hdouble hm

/-! ## What is not finite -/

theorem toBits_of_infinite (hparts : parts x = .infinite negative) :
    x.toBits.toNat = 2047 * leastMantissa + if negative then signBit else 0 := by
  have hleast : leastMantissa = 4503599627370496 := by decide
  have hsign : signBit = 9223372036854775808 := by decide
  have hlt : x.toBits.toNat < 18446744073709551616 := x.toBits.toNat_lt
  unfold parts at hparts
  simp only [hleast, hsign] at *
  split at hparts
  · rename_i hfield
    simp only [beq_iff_eq] at hfield
    split at hparts
    · rename_i hfraction
      simp only [beq_iff_eq] at hfraction
      cases hparts
      simp only [beq_iff_eq]
      split <;> omega
    · cases hparts
  · split at hparts <;> cases hparts

theorem eq_of_infinite (hparts : parts x = .infinite negative) :
    x = if negative then -1.0 / 0.0 else 1.0 / 0.0 := by
  have hbits := toBits_of_infinite hparts
  apply Float.toBits_inj.mp
  apply UInt64.toNat_inj.mp
  rw [hbits]
  cases negative with
  | false => decide +kernel
  | true => decide +kernel

theorem fields_of_nan (hparts : parts x = .nan) :
    x.toBits.toNat / leastMantissa % 2048 = 2047 ∧ x.toBits.toNat % leastMantissa ≠ 0 := by
  unfold parts at hparts
  dsimp only at hparts
  split at hparts
  · rename_i hfield
    simp only [beq_iff_eq] at hfield
    split at hparts
    · cases hparts
    · rename_i hfraction
      simp only [beq_iff_eq] at hfraction
      exact ⟨hfield, hfraction⟩
  · split at hparts <;> cases hparts

open Float.Model.UnpackedFloat in
theorem eq_of_nan (hparts : parts x = .nan) : x = 0.0 / 0.0 := by
  obtain ⟨hfield, hfraction⟩ := fields_of_nan hparts
  have hexponent : @unpackExponent Float.Model.Format.binary64 x.toBits.toBitVec = -1#_ := by
    rw [unpackExponent_def]
    apply BitVec.eq_of_toNat_eq
    rw [BitVec.extractLsb'_toNat, Nat.shiftRight_eq_div_pow]
    exact hfield
  have hmantissa : @unpackMantissa Float.Model.Format.binary64 x.toBits.toBitVec ≠ 0#_ := by
    rw [unpackMantissa_def]
    intro hzero
    have hnumber := congrArg BitVec.toNat hzero
    rw [BitVec.extractLsb'_toNat, Nat.shiftRight_zero] at hnumber
    exact hfraction hnumber
  apply Float.toBits_inj.mp
  apply UInt64.toBitVec_inj.mp
  refine (x.toModel.valid.eq_packedNaN hexponent hmantissa).trans ?_
  decide +kernel

end Folio.Decimal
