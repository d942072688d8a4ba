import Folio.Index.Search
import Mathlib

/-!
# Stable sorting

Sorting keeps the order of items that are tied, so it may change places with
leaving items out, and sorting by a second order and then by a first one is
sorting by both.  A list in order is known by the items of each rank.

Doubles that are numbers are ordered by their kind, their exponent and their
mantissa.
-/

namespace Folio

/-! ## Items and their ranks -/

section Stable

variable {α β : Type} {le first second : α → α → Bool}

/-- An order in which any two items can be compared. -/
structure Ranks (le : α → α → Bool) : Prop where
  trans : ∀ a b c, le a b = true → le b c = true → le a c = true
  total : ∀ a b, (le a b || le b a) = true

namespace Ranks

theorem refl (hle : Ranks le) (a : α) : le a a = true := by simpa using hle.total a a

/-- A new first item goes behind the items that come before it and before all
others. -/
theorem exists_split (hle : Ranks le) (a : α) (l : List α) :
    ∃ before after, (a :: l).mergeSort le = before ++ a :: after ∧
      l.mergeSort le = before ++ after ∧ (∀ b ∈ before, le a b = false) ∧
      ∀ b ∈ after, le a b = true := by
  obtain ⟨before, after, hwhole, hrest, hbefore⟩ := List.mergeSort_cons hle.trans hle.total a l
  have hsorted := List.pairwise_mergeSort hle.trans hle.total (a :: l)
  rw [hwhole, List.pairwise_append, List.pairwise_cons] at hsorted
  exact ⟨before, after, hwhole, hrest, fun b hb => by simpa using hbefore b hb, hsorted.2.1.1⟩

theorem split_unique {a : α} {before after front back : List α}
    (hsame : before ++ after = front ++ back) (hbefore : ∀ b ∈ before, le a b = false)
    (hafter : ∀ b ∈ after, le a b = true) (hfront : ∀ b ∈ front, le a b = false)
    (hback : ∀ b ∈ back, le a b = true) : before = front ∧ after = back := by
  have hfilter (first second : List α) (hfirst : ∀ b ∈ first, le a b = false)
      (hsecond : ∀ b ∈ second, le a b = true) : (first ++ second).filter (!le a ·) = first := by
    rw [List.filter_append, List.filter_eq_self.mpr (by simpa using hfirst),
      List.filter_eq_nil_iff.mpr (by simpa using hsecond), List.append_nil]
  have hfirst : before = front := by
    rw [← hfilter before after hbefore hafter, hsame, hfilter front back hfront hback]
  exact ⟨hfirst, List.append_cancel_left (hfirst ▸ hsame)⟩

/-- Sorting may change places with leaving items out and replacing the others, if
that keeps their order. -/
theorem filterMap_mergeSort (hle : Ranks le) {other : β → β → Bool} (hother : Ranks other)
    {f : α → Option β} (hf : ∀ a b x y, f a = some x → f b = some y → le a b = other x y)
    (l : List α) : (l.mergeSort le).filterMap f = (l.filterMap f).mergeSort other := by
  induction l with
  | nil => simp
  | cons a l ih =>
    obtain ⟨before, after, hwhole, hrest, hbefore, hafter⟩ := hle.exists_split a l
    rw [hrest, List.filterMap_append] at ih
    rw [hwhole, List.filterMap_append]
    cases ha : f a with
    | none => rw [List.filterMap_cons_none ha, List.filterMap_cons_none ha, ih]
    | some x =>
      obtain ⟨front, back, hkept, hleft, hfront, hback⟩ := hother.exists_split x (l.filterMap f)
      have hmoved {k : List α} {v : Bool} (hk : ∀ b ∈ k, le a b = v) :
          ∀ y ∈ k.filterMap f, other x y = v := by
        intro y hy
        obtain ⟨b, hb, hby⟩ := List.mem_filterMap.mp hy
        rw [← hf a b x y ha hby, hk b hb]
      have hsame := split_unique (ih.trans hleft) (hmoved hbefore) (hmoved hafter) hfront hback
      rw [List.filterMap_cons_some ha, List.filterMap_cons_some ha, hkept, hsame.1, hsame.2]

theorem filter_mergeSort (hle : Ranks le) (p : α → Bool) (l : List α) :
    (l.mergeSort le).filter p = (l.filter p).mergeSort le := by
  rw [← List.filterMap_eq_filter]
  refine hle.filterMap_mergeSort hle (fun a b x y ha hb => ?_) l
  rw [(Option.guard_eq_some_iff.mp ha).1, (Option.guard_eq_some_iff.mp hb).1]

end Ranks

def tied (le : α → α → Bool) (a b : α) : Bool :=
  le a b && le b a

namespace Ranks

theorem eq_of_filter_tied (hle : Ranks le) {l m : List α} (hl : l.Pairwise (le · ·))
    (hm : m.Pairwise (le · ·))
    (hsame : ∀ a, l.filter (tied le a) = m.filter (tied le a)) : l = m := by
  induction l generalizing m with
  | nil =>
    cases m with
    | nil => rfl
    | cons b m => simpa [tied, hle.refl] using hsame b
  | cons a l ih =>
    cases m with
    | nil => simpa [tied, hle.refl] using hsame a
    | cons b m =>
      have hfirst {c d : α} {s t : List α} (hs : (c :: s).Pairwise (le · ·))
          (h : (c :: s).filter (tied le d) = (d :: t).filter (tied le d)) : le c d = true := by
        have hmem : d ∈ (c :: s).filter (tied le d) := by
          rw [h]
          simp [tied, hle.refl]
        rcases List.mem_cons.mp (List.mem_of_mem_filter hmem) with rfl | hd
        · exact hle.refl d
        · exact (List.pairwise_cons.mp hs).1 d hd
      have hab : tied le a b = true := by simp [tied, hfirst hl (hsame b), hfirst hm (hsame a).symm]
      have haa : tied le a a = true := by simp [tied, hle.refl]
      have hhead := hsame a
      rw [List.filter_cons_of_pos haa, List.filter_cons_of_pos hab, List.cons.injEq] at hhead
      obtain ⟨rfl, -⟩ := hhead
      refine congrArg _ (ih (List.pairwise_cons.mp hl).2 (List.pairwise_cons.mp hm).2 fun c => ?_)
      have hc := hsame c
      rw [List.filter_cons, List.filter_cons] at hc
      split at hc
      · exact (List.cons.inj hc).2
      · exact hc

theorem filter_tied_mergeSort (hle : Ranks le) (a : α) (l : List α) :
    (l.mergeSort le).filter (tied le a) = l.filter (tied le a) := by
  rw [hle.filter_mergeSort]
  refine List.mergeSort_of_pairwise (List.pairwise_of_forall_mem_list ?_)
  intro b hb c hc
  simp only [List.mem_filter, tied, Bool.and_eq_true] at hb hc
  exact hle.trans b a c hb.2.2 hc.2.1

theorem mergeSort_eq (hle : Ranks le) {l m : List α} (hm : m.Pairwise (le · ·))
    (hsame : ∀ a, m.filter (tied le a) = l.filter (tied le a)) : l.mergeSort le = m :=
  hle.eq_of_filter_tied (List.pairwise_mergeSort hle.trans hle.total l) hm fun a =>
    (hle.filter_tied_mergeSort a l).trans (hsame a).symm

end Ranks

/-- First one order, and another one where the first does not decide. -/
def lexLe (first second : α → α → Bool) (a b : α) : Bool :=
  first a b && (!first b a || second a b)

theorem tied_lexLe (a b : α) :
    tied (lexLe first second) a b = (tied first a b && tied second a b) := by
  simp only [tied, lexLe]
  cases first a b <;> cases first b a <;> simp

theorem Ranks.lexLe (hfirst : Ranks first) (hsecond : Ranks second) :
    Ranks (lexLe first second) where
  trans a b c hab hbc := by
    simp only [Folio.lexLe, Bool.and_eq_true, Bool.or_eq_true, Bool.not_eq_true'] at hab hbc ⊢
    refine ⟨hfirst.trans a b c hab.1 hbc.1, ?_⟩
    rcases hab.2 with hba | hab'
    · left
      rw [Bool.eq_false_iff] at hba ⊢
      exact fun hca => hba (hfirst.trans b c a hbc.1 hca)
    · rcases hbc.2 with hcb | hbc'
      · left
        rw [Bool.eq_false_iff] at hcb ⊢
        exact fun hca => hcb (hfirst.trans c a b hca hab.1)
      · exact .inr (hsecond.trans a b c hab' hbc')
  total a b := by
    have hf := hfirst.total a b
    have hs := hsecond.total a b
    simp only [Folio.lexLe]
    revert hf hs
    cases first a b <;> cases first b a <;> simp

theorem Ranks.mergeSort_mergeSort (hfirst : Ranks first) (hsecond : Ranks second) (l : List α) :
    (l.mergeSort second).mergeSort first = l.mergeSort (Folio.lexLe first second) := by
  refine ((hfirst.lexLe hsecond).mergeSort_eq ?_ fun a => ?_).symm
  · rw [List.pairwise_iff_forall_sublist]
    intro a b hab
    have hle := List.pairwise_iff_forall_sublist.mp
      (List.pairwise_mergeSort hfirst.trans hfirst.total (l.mergeSort second)) hab
    cases hba : first b a with
    | false => simp [Folio.lexLe, hle, hba]
    | true =>
      -- Tied by the first order, they stand as the second sort has left them.
      have hpair := hab.filter (tied first a)
      rw [hfirst.filter_tied_mergeSort, List.filter_cons_of_pos (by simp [tied, hfirst.refl]),
        List.filter_cons_of_pos (by simp [tied, hle, hba]), List.filter_nil] at hpair
      have hsorted := List.pairwise_iff_forall_sublist.mp
        (List.pairwise_mergeSort hsecond.trans hsecond.total l) (hpair.trans List.filter_sublist)
      simp [Folio.lexLe, hle, hba, hsorted]
  · have htied : tied (Folio.lexLe first second) a = fun b => tied second a b && tied first a b :=
      funext fun b => (tied_lexLe a b).trans (Bool.and_comm _ _)
    rw [htied, ← List.filter_filter, hfirst.filter_tied_mergeSort, List.filter_filter,
      funext fun b => Bool.and_comm (tied second a b) _, ← List.filter_filter,
      hsecond.filter_tied_mergeSort, List.filter_filter]

/-- Of the items of one key, the first one comes before all items of the keys that
first appear later. -/
theorem pairwise_eraseDups_map [DecidableEq β] {r : α → α → Prop} (f : α → β) {l : List α}
    (hl : l.Pairwise r) : (l.map f).eraseDups.Pairwise fun x y =>
      ∃ a ∈ l, f a = x ∧ ∀ b ∈ l, f b = y → r a b := by
  induction hlength : l.length using Nat.strong_induction_on generalizing l with
  | _ n ih =>
    cases l with
    | nil => simp
    | cons a l =>
      obtain ⟨hfirst, hrest⟩ := List.pairwise_cons.mp hl
      have hfilter : (l.map f).filter (fun y => !y == f a) =
          (l.filter fun b => !f b == f a).map f := by
        rw [List.filter_map]
        rfl
      have hne {y : β} (hy : y ∈ ((l.filter fun b => !f b == f a).map f).eraseDups) : y ≠ f a := by
        rw [List.mem_eraseDups, ← hfilter] at hy
        simpa using List.of_mem_filter hy
      have hlater {b : α} {y : β} (hy : y ≠ f a) (hb : b ∈ a :: l) (hby : f b = y) :
          b ∈ l.filter fun b => !f b == f a := by
        rcases List.mem_cons.mp hb with rfl | hb
        · exact absurd hby.symm hy
        · simpa [List.mem_filter, hb, hby] using hy
      rw [List.map_cons, List.eraseDups_cons, hfilter, List.pairwise_cons]
      constructor
      · intro y hy
        exact ⟨a, List.mem_cons_self, rfl, fun b hb hby =>
          hfirst b (List.mem_of_mem_filter (hlater (hne hy) hb hby))⟩
      · have hshort : (l.filter fun b => !f b == f a).length < n := by
          have hle := List.length_filter_le (fun b => !f b == f a) l
          rw [List.length_cons] at hlength
          omega
        refine (ih _ hshort (hrest.filter _) rfl).imp_of_mem
          fun {x y} _ hy ⟨b, hb, hbx, hbefore⟩ => ?_
        exact ⟨b, List.mem_cons_of_mem a (List.mem_of_mem_filter hb), hbx,
          fun c hc hcy => hbefore c (hlater (hne hy) hc hcy) hcy⟩

end Stable

/-! ## The order of doubles -/

namespace Decimal

open Float.Model

/-- Where a double stands in the order of doubles: by its kind, then by its exponent and its
mantissa. -/
def rank (x : Float) : ℤ ×ₗ ℤ ×ₗ ℤ :=
  match x.toModel.unpack with
  | .infinity .negative => toLex (-2, toLex (0, 0))
  | .finite .negative m e _ => toLex (-1, toLex (-e, -m))
  | .zero _ => toLex (0, toLex (0, 0))
  | .finite .positive m e _ => toLex (1, toLex (e, m))
  | .infinity .positive => toLex (2, toLex (0, 0))
  | .notANumber => toLex (0, toLex (0, 0))

theorem lt_iff_rank_lt {x y : Float} (hx : x.isNaN = false) (hy : y.isNaN = false) :
    x < y ↔ rank x < rank y := by
  have hlt : x < y ↔ x.toModel.unpack.compare y.toModel.unpack = some .lt := by
    change decide (x.toModel.unpack.lt y.toModel.unpack = true) = true ↔ _
    rw [decide_eq_true_iff]
    exact beq_iff_eq
  change x.toModel.unpack.isNaN = false at hx
  change y.toModel.unpack.isNaN = false at hy
  rw [hlt, rank, rank]
  generalize x.toModel.unpack = a at *
  generalize y.toModel.unpack = b at *
  have hless (e f : ℤ) (m n : ℕ) :
      (compare e f).then (compare m n) = .lt ↔ e < f ∨ e = f ∧ m < n := by
    simp [Ordering.then_eq_lt, compare_lt_iff_lt]
  have hmore (e f : ℤ) (m n : ℕ) :
      (compare e f).then (compare m n) = .gt ↔ f < e ∨ e = f ∧ n < m := by
    simp [Ordering.then_eq_gt, compare_gt_iff_gt]
  rcases a with (_ | _) | _ | _ | ⟨_ | _, m, e, _⟩ <;>
    rcases b with (_ | _) | _ | _ | ⟨_ | _, n, f, _⟩ <;> cases hx <;> cases hy <;>
    simp [UnpackedFloat.compare, Prod.Lex.toLex_lt_toLex, hless, hmore]
  -- What is left compares two infinite doubles.
  all_goals decide

end Decimal

end Folio
