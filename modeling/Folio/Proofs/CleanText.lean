import Folio.Text.Normalize
import Folio.Proofs.JsonRoundTrip
import Folio.Proofs.TextLines

/-!
# Cleaning text twice

A text is brought to compatibility form and then cleaned of blanks and invisible characters. What
cleaning leaves it leaves a second time too. Only the compatibility form can change a clean text: a
character that stood between a letter and its mark is gone, and the two compose. Texts of
characters that neither fall apart nor compose are clean after one pass.
-/

namespace Folio.Text

variable {c : Char} {t : Text}

/-- The second half of normalization: line ends, blanks and invisible characters. -/
def clean (t : Text) : Text :=
  (unixNewlines t).filterMap shown?

theorem normalize_eq_clean (t : Text) : normalize t = clean (compatibilityForm t) := rfl

theorem shown?_shown {d : Char} (h : shown? c = some d) : shown? d = some d := by
  have hblank : shown? ' ' = some ' ' := by decide
  have hcases := h
  unfold shown? at hcases
  split_ifs at hcases with hkept hspace hhidden
  all_goals cases hcases
  · exact h
  · exact hblank
  · exact h

theorem shown?_of_mem_clean (hc : c ∈ clean t) : shown? c = some c := by
  obtain ⟨d, -, hd⟩ := List.mem_filterMap.1 hc
  exact shown?_shown hd

theorem clean_of_shown (ht : ∀ c ∈ t, shown? c = some c) : clean t = t := by
  have hreturn : '\r' ∉ t := by
    intro hmem
    have hspace : shown? '\r' = some ' ' := by decide
    rw [ht _ hmem] at hspace
    exact absurd hspace (by decide)
  rw [clean, Json.unixNewlines_of_notMem hreturn, List.filterMap_congr ht]
  exact List.filterMap_some

/-- A character that the compatibility form keeps apart from what stands around it. -/
structure Inert (c : Char) : Prop where
  whole : decomposeChar c = [c]
  unmarked : combiningClass c = 0
  separate : ∀ b, composite? b c = none
  noVowel : c.toNat < vowelBase ∨ vowelBase + vowelCount ≤ c.toNat

theorem Inert.of_lt (hc : c.toNat < 0xA0) : Inert c where
  whole := if_pos hc
  unmarked := if_pos (hc.trans (by decide))
  separate _ := if_pos (hc.trans (by decide))
  noVowel := .inl (hc.trans (by decide))

theorem orderMarks_of_inert (ht : ∀ c ∈ t, Inert c) : orderMarks t = t := by
  -- The fold puts every character in front of the reversed text before it.
  have hfold : ∀ done : Text, t.foldl (fun done c =>
      let k := combiningClass c
      if k == 0 then c :: done else placeMark k c done) done = t.reverse ++ done := by
    induction t with
    | nil => intro done; rfl
    | cons c t ih =>
      intro done
      rw [List.foldl_cons, ih fun d hd => ht d (.tail _ hd)]
      simp [(ht c (.head _)).unmarked]
  rw [orderMarks, hfold, List.append_nil, List.reverse_reverse]

theorem composeHangul?_of_inert (c : Char) {rest : Text} (ht : ∀ d ∈ rest, Inert d) :
    composeHangul? (c :: rest) = none := by
  cases rest with
  | nil => rfl
  | cons d rest =>
    have hvowel := (ht d (.head _)).noVowel
    rw [composeHangul?, if_neg]
    simp only [Bool.and_eq_true, decide_eq_true_eq]
    omega

theorem absorbMarks_of_inert (c : Char) {rest : Text} (ht : ∀ d ∈ rest, Inert d) :
    absorbMarks c 0 [] rest = (c, rest) := by
  cases rest with
  | nil => rfl
  | cons d rest =>
    have hd := ht d (.head _)
    simp [absorbMarks, hd.unmarked, hd.separate c]

theorem composeMarks_of_inert (ht : ∀ c ∈ t, Inert c) (done : Text) :
    composeMarks t.length done t = done.reverse ++ t := by
  induction t generalizing done with
  | nil => simp [composeMarks]
  | cons c t ih =>
    have hrest : ∀ d ∈ t, Inert d := fun d hd => ht d (.tail _ hd)
    rw [List.length_cons, composeMarks, composeHangul?_of_inert c hrest,
      absorbMarks_of_inert c hrest]
    simp only [ih hrest, List.reverse_cons, List.append_assoc, List.singleton_append]

theorem compatibilityForm_of_inert (ht : ∀ c ∈ t, Inert c) : compatibilityForm t = t := by
  have hwhole : t.flatMap decomposeChar = t := by
    rw [List.flatMap_congr fun c hc => (ht c hc).whole]
    exact List.flatMap_singleton' t
  rw [compatibilityForm, hwhole, orderMarks_of_inert ht, composeMarks_of_inert ht]
  rfl

theorem mem_of_mem_unixNewlines (hc : c ∈ unixNewlines t) : c ∈ t ∨ c = '\n' := by
  have hgo (done t : Text) (h : c ∈ unixNewlines.go done t) : c ∈ done ∨ c ∈ t ∨ c = '\n' := by
    fun_induction unixNewlines.go done t with
    | case1 done => exact .inl (List.mem_reverse.1 h)
    | case2 done rest ih => grind
    | case3 done d rest hne ih => grind
  exact (hgo [] t hc).resolve_left List.not_mem_nil

theorem lt_of_mem_normalize (ht : ∀ c ∈ t, c.toNat < 0xA0)
    (hc : c ∈ normalize t) : c.toNat < 0xA0 := by
  rw [normalize_eq_clean, compatibilityForm_of_inert fun d hd => .of_lt (ht d hd)] at hc
  obtain ⟨d, hd, hshown⟩ := List.mem_filterMap.1 hc
  have hlow : d.toNat < 0xA0 := by
    rcases mem_of_mem_unixNewlines hd with hmem | rfl
    · exact ht d hmem
    · decide
  unfold shown? at hshown
  split_ifs at hshown
  all_goals cases hshown
  · exact hlow
  · decide
  · exact hlow

/-- What one pass leaves has nothing to clean, so a second pass is the compatibility form of the
first one's result, cleaned; it changes nothing where that form changes nothing, as in every text
of inert characters and so in every text of characters below the Latin letters with marks. -/
theorem normalize_again (t : Text) :
    (∀ c ∈ normalize t, shown? c = some c) ∧
      (compatibilityForm (normalize t) = normalize t → normalize (normalize t) = normalize t) ∧
      ((∀ c ∈ normalize t, Inert c) → normalize (normalize t) = normalize t) ∧
      ((∀ c ∈ t, c.toNat < 0xA0) → normalize (normalize t) = normalize t) := by
  have hshown : ∀ c ∈ normalize t, shown? c = some c := fun c hc => shown?_of_mem_clean hc
  have hform (h : compatibilityForm (normalize t) = normalize t) :
      normalize (normalize t) = normalize t := by
    rw [normalize_eq_clean (normalize t), h, clean_of_shown hshown]
  refine ⟨hshown, hform, fun h => hform (compatibilityForm_of_inert h), fun h => ?_⟩
  exact hform (compatibilityForm_of_inert fun c hc => .of_lt (lt_of_mem_normalize h hc))

end Folio.Text
