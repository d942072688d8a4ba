import Folio.Proofs.JsonRoundTrip
import Folio.Proofs.NearestDouble

/-!
# Decimals read back

Every double is written in a form that is read as a decimal again: digits that do
not start with a zero unless it is all of them, and a fraction or an exponent.
For the form it matters that the shortest decimal of a double has a digit other
than zero unless the double is zero.  The decimal is read as the double, so arrays
of doubles are read back.
-/

namespace Folio.Decimal

variable {m : Magnitude} {t rest exponent whole fraction : Text}

/-! ## The form of a decimal -/

def Digits (t : Text) : Prop :=
  ∀ c ∈ t, c.isDigit = true

/-- Nothing, or a letter, a sign and digits. -/
inductive Exponent : Text → Prop
  | none : Exponent []
  | some {sign : Char} {digits : Text} (hsign : sign = '-' ∨ sign = '+')
      (hne : digits ≠ []) (hdigits : Digits digits) : Exponent ('e' :: sign :: digits)

def pointed (fraction : Text) : Text :=
  if fraction = [] then [] else '.' :: fraction

/-- Digits that do not start with a zero, unless it is all of them. -/
structure Whole (t : Text) : Prop where
  digits : Digits t
  ne_nil : t ≠ []
  zero : t.head? = some '0' → t = ['0']

/-- A number in writing that has a fraction or an exponent. -/
structure Written (t whole fraction exponent : Text) : Prop where
  text : t = whole ++ (pointed fraction ++ exponent)
  before : Whole whole
  behind : Digits fraction
  scale : Exponent exponent
  decimal : fraction ≠ [] ∨ exponent ≠ []

theorem Digits.append {u : Text} (ht : Digits t) (hu : Digits u) : Digits (t ++ u) :=
  List.forall_mem_append.mpr ⟨ht, hu⟩

theorem digits_ofNat (n : Nat) : Digits (Text.ofNat n) := fun _ => Json.isDigit_of_mem_ofNat

theorem digits_zeros (n : Nat) : Digits (List.replicate n '0') := by
  intro c hc
  rw [List.eq_of_mem_replicate hc]
  rfl

theorem ofNat_ne_nil (n : Nat) : Text.ofNat n ≠ [] := Nat.toDigits_ne_nil

theorem exponent_exponentText (e : Int) : Exponent (exponentText 'e' e) := by
  refine .some ?_ ?_ ?_
  · split <;> simp
  · simp [Text.padLeft, ofNat_ne_nil]
  · exact (digits_zeros _).append (digits_ofNat _)

theorem whole_zero : Whole ['0'] := ⟨by simp [Digits], by simp, fun _ => rfl⟩

theorem whole_of_head {n : Nat} (hn : n ≠ 0) (ht : Digits t)
    (hhead : t.head? = (Text.ofNat n).head?) : Whole t := by
  have hzero := Json.head?_ofNat_ne_zero (Nat.pos_of_ne_zero hn)
  refine ⟨ht, ?_, ?_⟩
  · rintro rfl
    cases hdigits : Text.ofNat n with
    | nil => exact ofNat_ne_nil n hdigits
    | cons c digits =>
      rw [hdigits] at hhead
      cases hhead
  · intro hstart
    exact absurd (hhead.symm.trans hstart) hzero

/-! ## The number of a decimal -/

theorem digitsValue_append (t u : Text) :
    digitsValue (t ++ u) = digitsValue t * 10 ^ u.length + digitsValue u := by
  induction u using List.reverseRecOn with
  | nil => simp [digitsValue]
  | append_singleton u c ih =>
    have hlast : ∀ v, digitsValue (v ++ [c]) = 10 * digitsValue v + (c.toNat - '0'.toNat) := by
      intro v
      rw [digitsValue, List.foldl_append]
      rfl
    rw [← List.append_assoc, hlast, hlast, ih, List.length_append, List.length_singleton,
      Nat.pow_succ]
    ring

theorem digitsValue_zeros (n : Nat) : digitsValue (List.replicate n '0') = 0 := by
  induction n with
  | zero => rfl
  | succ n ih =>
    rw [List.replicate_succ, ← List.singleton_append, digitsValue_append, ih]
    simp [digitsValue]

def Scientific.padded (d : Scientific) (zeros : Nat) : Scientific :=
  ⟨d.digits * 10 ^ zeros, d.power - zeros⟩

theorem Scientific.value_padded (d : Scientific) (zeros : Nat) :
    (d.padded zeros).value = d.value := by
  have hten : (10 : ℚ) ^ zeros ≠ 0 := by positivity
  simp only [Scientific.value, Scientific.padded]
  rw [zpow_sub₀ (by norm_num), zpow_natCast]
  push_cast
  field_simp

/-- A text writes an exponent, or it is empty and stands for zero. -/
def Scale (exponent : Text) (e : Int) : Prop :=
  exponent = [] ∧ e = 0 ∨ exponent = exponentText 'e' e

/-- Digits with a point among them or next to them, where no zeros come before
other digits. -/
theorem exists_written_pointAfter {n : Nat} {point : Int} (hzero : n = 0 → point ≤ 1) :
    ∃ whole fraction zeros, Written (pointAfter (Text.ofNat n) point) whole fraction [] ∧
        (⟨digitsValue (whole ++ fraction), 0 - fraction.length⟩ : Scientific) =
          Scientific.padded ⟨n, point - (Text.ofNat n).length⟩ zeros := by
  have hdigits := digits_ofNat n
  have hne := ofNat_ne_nil n
  have hvalue := Json.digitsValue_ofNat n
  unfold pointAfter
  split
  · have hfraction : List.replicate point.natAbs '0' ++ Text.ofNat n ≠ [] := by simp [hne]
    refine ⟨['0'], List.replicate point.natAbs '0' ++ Text.ofNat n, 0,
      ⟨by simp [pointed, hne], whole_zero, (digits_zeros _).append hdigits, .none, .inl hfraction⟩,
        ?_⟩
    have hstart : ['0'] = List.replicate 1 '0' := rfl
    simp only [Scientific.padded, Scientific.mk.injEq, hstart, digitsValue_append,
      digitsValue_zeros, hvalue, List.length_append, List.length_replicate]
    exact ⟨by simp, by omega⟩
  · rename_i hpos
    split
    · rename_i hlong
      refine ⟨Text.ofNat n ++ List.replicate (point.toNat - (Text.ofNat n).length) '0', ['0'],
        point.toNat - (Text.ofNat n).length + 1,
        ⟨by simp [pointed], ?_, by simp [Digits], .none, .inl (by simp)⟩, ?_⟩
      · by_cases hn : n = 0
        · have hpoint : point = 1 := by
            have hle := hzero hn
            omega
          rw [hn, hpoint]
          exact whole_zero
        · apply whole_of_head hn (hdigits.append (digits_zeros _))
          rw [List.head?_append_of_ne_nil _ hne]
      · have hend : ['0'] = List.replicate 1 '0' := rfl
        simp only [Scientific.padded, Scientific.mk.injEq, hend, digitsValue_append,
          digitsValue_zeros, hvalue, List.length_replicate, Nat.add_zero, Nat.pow_succ,
          Nat.pow_zero, Nat.one_mul, Nat.mul_assoc]
        exact ⟨trivial, by omega⟩
    · rename_i hshort
      have hfraction : (Text.ofNat n).drop point.toNat ≠ [] := by simpa using hshort
      refine ⟨(Text.ofNat n).take point.toNat, (Text.ofNat n).drop point.toNat, 0,
        ⟨by simp [pointed, hfraction], ?_, fun c hc => hdigits c (List.mem_of_mem_drop hc), .none,
          .inl hfraction⟩, ?_⟩
      · have hn : n ≠ 0 := by
          rintro rfl
          simp [Text.ofNat] at hshort
          omega
        apply whole_of_head hn fun c hc => hdigits c (List.mem_of_mem_take hc)
        rw [List.head?_take, if_neg (by omega)]
      · simp only [Scientific.padded, Scientific.mk.injEq, List.take_append_drop, hvalue,
          List.length_drop]
        exact ⟨by simp, by omega⟩

theorem exists_written_exponentText (n : Nat) (e : Int) :
    ∃ whole fraction, Written ((match Text.ofNat n with
      | first :: second :: rest => first :: '.' :: second :: rest
      | short => short) ++ exponentText 'e' e) whole fraction (exponentText 'e' e) ∧
      digitsValue (whole ++ fraction) = n ∧
      (fraction.length : Int) = (Text.ofNat n).length - 1 := by
  have hdigits := digits_ofNat n
  have hvalue := Json.digitsValue_ofNat n
  have hexponent := exponent_exponentText e
  have hsome : exponentText 'e' e ≠ [] := by simp [exponentText]
  have hwhole : ∀ c : Char, c.isDigit = true → Whole [c] := fun c hc =>
    ⟨by simpa [Digits] using hc, by simp, by simp⟩
  match hn : Text.ofNat n with
  | [] => exact absurd hn (ofNat_ne_nil n)
  | [c] =>
    rw [hn] at hdigits hvalue
    exact ⟨[c], [], ⟨by simp [pointed], hwhole c (hdigits c (by simp)), by simp [Digits], hexponent,
      .inr hsome⟩, hvalue, by simp⟩
  | first :: second :: rest =>
    rw [hn] at hdigits hvalue
    exact ⟨[first], second :: rest, ⟨by simp [pointed], hwhole first (hdigits first (by simp)),
      fun c hc => hdigits c (by simp [hc]), hexponent, .inr hsome⟩, hvalue, by simp⟩

theorem exists_written_magnitudeText (hdouble : m.OfDouble) : ∃ whole fraction exponent e zeros,
      Written (magnitudeText m) whole fraction exponent ∧ Scale exponent e ∧
        (⟨digitsValue (whole ++ fraction), e - fraction.length⟩ : Scientific) =
          (shortest m).padded zeros := by
  unfold magnitudeText
  dsimp only
  split
  · rename_i hpoint
    simp only [Bool.and_eq_true, decide_eq_true_eq] at hpoint
    have hzero : (shortest m).digits = 0 →
        ((Text.ofNat (shortest m).digits).length : Int) + (shortest m).power ≤ 1 := by
      intro hzero
      have hm : m.mantissa = 0 := by
        by_contra hm
        exact (near_shortest hdouble hm).digits_ne_zero hdouble hm hzero
      have hpower : (shortest m).power = 0 := by simp [shortest, hm]
      rw [hzero] at hpoint ⊢
      simp [Text.ofNat] at hpoint ⊢
      omega
    obtain ⟨whole, fraction, zeros, hwritten, hvalue⟩ := exists_written_pointAfter hzero
    rw [add_sub_cancel_left] at hvalue
    exact ⟨whole, fraction, [], 0, zeros, hwritten, .inl ⟨rfl, rfl⟩, hvalue⟩
  · obtain ⟨whole, fraction, hwritten, hvalue, hlength⟩ :=
      exists_written_exponentText (shortest m).digits
        ((Text.ofNat (shortest m).digits).length + (shortest m).power - 1)
    refine ⟨whole, fraction, _, _, 0, hwritten, .inr rfl, ?_⟩
    simp only [Scientific.padded, Scientific.mk.injEq, hvalue, hlength]
    exact ⟨by simp, by omega⟩

end Folio.Decimal

namespace Folio.Json

open Decimal (Digits Exponent Written pointed)

/-! ## Reading a decimal -/

theorem takeWhile_digits (ht : Digits t) (hrest : ∀ c, rest.head? = some c → c.isDigit = false) :
    (t ++ rest).takeWhile Char.isDigit = t := by
  rw [List.takeWhile_append_of_pos ht]
  cases rest with
  | nil => simp
  | cons c rest => simp [hrest c rfl]

theorem Follows.not_digit (hrest : Follows rest) {c : Char}
    (hc : rest.head? = some c) : c.isDigit = false := by
  rcases hrest c hc with rfl | rfl | rfl <;> rfl

theorem exponentOf_some {sign : Char} {digits : Text} (hsign : sign = '-' ∨ sign = '+')
    (hne : digits ≠ []) (hdigits : Digits digits) (rest : Text)
    (hrest : ∀ c, rest.head? = some c → c.isDigit = false) :
    exponentOf ('e' :: sign :: digits ++ rest) =
      some (if sign = '-' then -(Decimal.digitsValue digits : Int)
        else Decimal.digitsValue digits, digits.length + 2) := by
  have htake := takeWhile_digits hdigits hrest
  rcases hsign with rfl | rfl
  · simp [exponentOf, Decimal.takeSign, htake, hne]
    omega
  · simp [exponentOf, Decimal.takeSign, htake, hne]
    omega

theorem exponentOf_exponentText (e : Int) :
    (exponentOf (Decimal.exponentText 'e' e)).map Prod.fst = some e := by
  have hsign : (if e < 0 then '-' else '+') = '-' ∨ (if e < 0 then '-' else '+') = '+' := by
    split <;> simp
  have hne : Text.padLeft '0' 2 (Text.ofNat e.natAbs) ≠ [] := by
    simp [Text.padLeft, Decimal.ofNat_ne_nil]
  have hdigits : Digits (Text.padLeft '0' 2 (Text.ofNat e.natAbs)) :=
    (Decimal.digits_zeros _).append (Decimal.digits_ofNat _)
  have hsome := exponentOf_some hsign hne hdigits [] (by simp)
  have hvalue : Decimal.digitsValue (Text.padLeft '0' 2 (Text.ofNat e.natAbs)) = e.natAbs := by
    rw [Text.padLeft, Decimal.digitsValue_append, Decimal.digitsValue_zeros, digitsValue_ofNat,
      Nat.zero_mul, Nat.zero_add]
  rw [List.append_nil] at hsome
  rw [Decimal.exponentText, hsome, hvalue, Option.map_some]
  by_cases he : e < 0
  · rw [if_pos he, if_pos rfl]
    congr 1
    dsimp only
    omega
  · rw [if_neg he, if_neg (by decide)]
    congr 1
    dsimp only
    omega

theorem exponentOf_scale {e : Int} (hscale : Decimal.Scale exponent e) :
    ((exponentOf exponent).map Prod.fst).getD 0 = e := by
  rcases hscale with ⟨rfl, rfl⟩ | rfl
  · rfl
  · rw [exponentOf_exponentText, Option.getD_some]

theorem exponentOf_append (hexponent : Exponent exponent)
    (hrest : Follows rest) : exponentOf (exponent ++ rest) = exponentOf exponent := by
  cases hexponent with
  | none => exact exponentOf_eq_none hrest
  | some hsign hne hdigits =>
    have hempty := exponentOf_some hsign hne hdigits [] (by simp)
    rw [List.append_nil] at hempty
    rw [hempty]
    exact exponentOf_some hsign hne hdigits rest fun c hc =>
      hrest.not_digit hc

theorem exponentOf_length (hexponent : Exponent exponent) :
    ((exponentOf exponent).map Prod.snd).getD 0 = exponent.length ∧
      (exponentOf exponent).isNone = decide (exponent = []) := by
  cases hexponent with
  | none => exact ⟨rfl, rfl⟩
  | some hsign hne hdigits =>
    have hempty := exponentOf_some hsign hne hdigits [] (by simp)
    rw [List.append_nil] at hempty
    rw [hempty]
    exact ⟨rfl, by simp⟩

theorem exponent_start (hexponent : Exponent exponent)
    (hrest : Follows rest) : fractionOf (exponent ++ rest) = [] ∧
      ∀ c, (exponent ++ rest).head? = some c → c.isDigit = false := by
  cases hexponent with
  | none => exact ⟨fractionOf_eq_nil hrest, fun c hc => hrest.not_digit hc⟩
  | some hsign hne hdigits =>
    refine ⟨rfl, ?_⟩
    intro c hc
    cases hc
    rfl

theorem not_digit_of_written (ht : Written t whole fraction exponent) {c : Char}
    (hc : (pointed fraction ++ (exponent ++ rest)).head? = some c) : c.isDigit = false := by
  by_cases hfraction : fraction = []
  · have hsome := ht.decimal.resolve_left (fun hne => hne hfraction)
    cases ht.scale with
    | none => exact absurd rfl hsome
    | some hsign hne hdigits =>
      simp [pointed, hfraction] at hc
      rw [← hc]
      rfl
  · simp [pointed, hfraction] at hc
    rw [← hc]
    rfl

theorem wholeOf_written (ht : Written t whole fraction exponent) :
    wholeOf (whole ++ (pointed fraction ++ (exponent ++ rest))) = whole := by
  obtain ⟨hdigits, hne, hzero⟩ := ht.before
  unfold wholeOf
  rw [List.head?_append_of_ne_nil _ hne]
  split
  · rename_i hstart
    exact (hzero (beq_iff_eq.mp hstart)).symm
  · exact takeWhile_digits hdigits fun c hc => not_digit_of_written ht hc

theorem fractionOf_pointed (hdigits : Digits fraction)
    (hrest : ∀ c, rest.head? = some c → c.isDigit = false) (hnone : fractionOf rest = []) :
    fractionOf (pointed fraction ++ rest) = fraction := by
  by_cases hfraction : fraction = []
  · simpa [pointed, hfraction] using hnone
  · simp only [pointed, hfraction, if_false, List.cons_append, fractionOf]
    exact takeWhile_digits hdigits hrest

theorem length_pointed (fraction : Text) : (pointed fraction).length =
      if fraction.isEmpty then 0 else fraction.length + 1 := by
  cases fraction <;> rfl

theorem readMagnitude_written
    (ht : Written t whole fraction exponent) (cursor : Cursor) (negative : Bool)
    (hrest : Follows rest) : readMagnitude cursor negative (t ++ rest) =
      .ok (.float (Decimal.ofDigits negative whole fraction
          (((exponentOf exponent).map Prod.fst).getD 0)),
        cursor.drop ((if negative then 1 else 0) + t.length)) := by
  obtain ⟨hlength, hnone⟩ := exponentOf_length ht.scale
  obtain ⟨hfraction, hdigit⟩ := exponent_start ht.scale hrest
  have htext : t ++ rest = whole ++ (pointed fraction ++ (exponent ++ rest)) := by simp [ht.text]
  have hsome : whole.isEmpty = false := by simpa using ht.before.ne_nil
  have hdecimal : (fraction.isEmpty && (exponentOf exponent).isNone) = false := by
    rw [hnone]
    rcases ht.decimal with hne | hne <;> simp [hne]
  unfold readMagnitude
  simp only [htext, wholeOf_written ht, hsome, List.drop_left,
    fractionOf_pointed ht.behind hdigit hfraction, ← length_pointed,
    exponentOf_append ht.scale hrest, hdecimal, hlength, Bool.false_eq_true, if_false]
  rw [ht.text, List.length_append, List.length_append]
  congr 3
  omega

theorem exists_cons_of_written
    (ht : Written t whole fraction exponent) : ∃ c u, t = c :: u ∧ c.isDigit = true := by
  cases hwhole : whole with
  | nil => exact absurd hwhole ht.before.ne_nil
  | cons c digits =>
    refine ⟨c, digits ++ (pointed fraction ++ exponent), ?_, ?_⟩
    · rw [ht.text, hwhole]
      rfl
    · exact ht.before.digits c (by simp [hwhole])

theorem readAs_signed
    (ht : Written t whole fraction exponent) (negative : Bool) : ReadAs (Decimal.signed negative t)
      (.float (Decimal.ofDigits negative whole fraction
        (((exponentOf exponent).map Prod.fst).getD 0))) := by
  obtain ⟨c, u, htext, hc⟩ := exists_cons_of_written ht
  have hstarts : Starts (Decimal.signed negative t) := by
    rw [htext]
    exact starts_signed hc negative u
  refine readAs_of_starts hstarts ?_
  intro rest hrest fuel hfuel offset
  have hmagnitude := readMagnitude_written ht
    ⟨offset, Decimal.signed negative (t ++ rest)⟩ negative hrest
  rw [drop_signed] at hmagnitude
  rw [← hmagnitude, signed_append, htext, List.cons_append, readValue_signed hc]

theorem readAs_floatText (x : Float) : ReadAs (floatText x) (.float x) := by
  unfold floatText
  cases hparts : Decimal.parts x with
  | nan =>
    rw [Decimal.eq_of_nan hparts]
    exact readAs_name ⟨'N', _, rfl, by decide⟩ (by decide) (by decide) (by decide) fun rest => rfl
  | infinite negative =>
    rw [Decimal.eq_of_infinite hparts]
    cases negative with
    | false =>
      exact readAs_name ⟨'I', _, rfl, by decide⟩ (by decide) (by decide) (by decide) fun rest => rfl
    | true =>
      exact readAs_name ⟨'-', _, rfl, by decide⟩ (by decide) (by decide) (by decide) fun rest => rfl
  | finite negative m =>
    obtain ⟨whole, fraction, exponent, e, zeros, hwritten, hscale, hvalue⟩ :=
      Decimal.exists_written_magnitudeText (Decimal.ofDouble_of_parts hparts)
    have hread := readAs_signed hwritten negative
    have hdouble : Decimal.ofDigits negative whole fraction e = x := by
      rw [Decimal.ofDigits, hvalue]
      exact Decimal.ofScientific_of_value hparts ((Decimal.shortest m).value_padded zeros)
    rw [exponentOf_scale hscale, hdouble] at hread
    simpa [Decimal.floatText, hparts] using hread

theorem return_notMem_digits (ht : Digits t) : '\r' ∉ t := by
  intro hmem
  have hdigit := ht '\r' hmem
  cases hdigit

theorem return_notMem_written (ht : Written t whole fraction exponent) : '\r' ∉ t := by
  have hwhole := return_notMem_digits ht.before.digits
  have hpointed : '\r' ∉ pointed fraction := by
    have hfraction := return_notMem_digits ht.behind
    unfold pointed
    split <;> simp [hfraction]
  have hexponent : '\r' ∉ exponent := by
    cases ht.scale with
    | none => simp
    | some hsign hne hdigits =>
      have hrest := return_notMem_digits hdigits
      rcases hsign with rfl | rfl <;> simp [hrest]
  simp [ht.text, hwhole, hpointed, hexponent]

theorem return_notMem_floatText (x : Float) : '\r' ∉ floatText x := by
  unfold floatText
  cases hparts : Decimal.parts x with
  | nan => simp
  | infinite negative => cases negative <;> simp
  | finite negative m =>
    obtain ⟨whole, fraction, exponent, -, -, hwritten, -⟩ :=
      Decimal.exists_written_magnitudeText (Decimal.ofDouble_of_parts hparts)
    have hmagnitude := return_notMem_written hwritten
    cases negative <;> simp [Decimal.floatText, hparts, Decimal.signed, hmagnitude]

/-! ## Arrays of decimals -/

theorem return_notMem_array {ascii : Bool} {items : List Json}
    (hitems : ∀ item ∈ items, '\r' ∉ render ascii item) : '\r' ∉ render ascii (.array items) := by
  have hrender : ∀ first, '\r' ∉ renderItems ascii first items := by
    induction items with
    | nil => simp [renderItems]
    | cons item items ih =>
      obtain ⟨hitem, hrest⟩ := List.forall_mem_cons.mp hitems
      intro first
      have hmore := ih hrest false
      cases first <;> simp [renderItems, hitem, hmore]
  simpa [render] using hrender true

def rows (vectors : List (List Float)) : Json :=
  .array (vectors.map fun v => .array (v.map .float))

/-- Doubles in rows are read back from a file. -/
theorem parse_rows (ascii : Bool) (vectors : List (List Float)) :
    parse (Text.unixNewlines (render ascii (rows vectors))) = .ok (rows vectors) := by
  have hrow : ∀ v : List Float, ReadAs (render ascii (.array (v.map .float)))
      (.array (v.map .float)) := by
    intro v
    apply ReadAs.array
    rw [List.forall₂_map_left_iff, List.forall₂_map_right_iff, List.forall₂_same]
    exact fun x _ => readAs_floatText x
  have hrows : ReadAs (render ascii (rows vectors)) (rows vectors) := by
    apply ReadAs.array
    rw [List.forall₂_map_left_iff, List.forall₂_map_right_iff, List.forall₂_same]
    exact fun v _ => hrow v
  have hclean : '\r' ∉ render ascii (rows vectors) := by
    apply return_notMem_array
    rw [List.forall_mem_map]
    intro v _
    apply return_notMem_array
    rw [List.forall_mem_map]
    exact fun x _ => return_notMem_floatText x
  rw [unixNewlines_of_notMem hclean, hrows.parse]

end Folio.Json
