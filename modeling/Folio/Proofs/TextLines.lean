import Folio.Text.Basic

/-!
# The lines of a text

A text that is not empty has a line.  An end of line behind a text closes its
last line or adds an empty one, and the text behind it is split on its own.
-/

namespace Folio

theorem splitLines_ne_nil {t : Text} (ht : t ≠ []) : Text.splitLines t ≠ [] := by
  have hgo : ∀ (t line : Text) (lines : List Text),
      (t ≠ [] ∨ line ≠ [] ∨ lines ≠ []) → Text.splitLines.go line lines t ≠ [] := by
    intro t line lines
    fun_induction Text.splitLines.go line lines t with
    | case1 line lines =>
      intro hsome
      by_cases hline : line = []
      · simpa [hline] using hsome
      · simp [hline]
    | case2 line lines rest ih => exact fun _ => ih (by simp)
    | case3 line lines c rest hne hend ih => exact fun _ => ih (by simp)
    | case4 line lines c rest hne hend ih => exact fun _ => ih (by simp)
  exact hgo t [] [] (.inl ht)

theorem splitLines_go_lines (line : Text) (lines more : List Text) (text : Text) :
    Text.splitLines.go line (lines ++ more) text =
      more.reverse ++ Text.splitLines.go line lines text := by
  fun_induction Text.splitLines.go line lines text with
  | case1 line lines => cases line <;> simp [Text.splitLines.go]
  | case2 line lines rest ih =>
    rw [Text.splitLines.go]
    exact ih
  | case3 line lines c rest hpair hend ih =>
    rw [Text.splitLines.go, if_pos hend]
    · exact ih
    · exact hpair
  | case4 line lines c rest hpair hend ih =>
    rw [Text.splitLines.go, if_neg hend]
    · exact ih
    · exact hpair

theorem splitLines_go_nil (lines : List Text) (text : Text) : Text.splitLines.go [] lines text =
      lines.reverse ++ Text.splitLines text := splitLines_go_lines [] [] lines text

/-- An end of line adds an empty line to a text or closes its last one, and
what follows is split on its own. -/
theorem splitLines_go_newline (line : Text) (lines : List Text) (text : Text) :
    ∃ tail, (tail = [] ∨ tail = [[]]) ∧ ∀ rest,
      Text.splitLines.go line lines (text ++ '\n' :: rest) =
        Text.splitLines.go line lines text ++ tail ++ Text.splitLines rest := by
  have hend : Text.isLineEnd '\n' = true := by decide
  fun_induction Text.splitLines.go line lines text with
  | case1 line lines =>
    refine ⟨if line.isEmpty then [[]] else [], by split <;> simp, ?_⟩
    intro rest
    rw [List.nil_append, Text.splitLines.go, if_pos hend, splitLines_go_nil]
    · cases line <;> simp
    · simp
  | case2 line lines text ih =>
    obtain ⟨tail, htail, ih⟩ := ih
    refine ⟨tail, htail, fun rest => ?_⟩
    rw [List.cons_append, List.cons_append, Text.splitLines.go]
    exact ih rest
  | case3 line lines c text hpair hc ih =>
    by_cases hreturn : c = '\r' ∧ text = []
    · -- The two characters end one line together.
      obtain ⟨rfl, rfl⟩ := hreturn
      refine ⟨[], .inl rfl, fun rest => ?_⟩
      simp [Text.splitLines.go, splitLines_go_nil]
    · obtain ⟨tail, htail, ih⟩ := ih
      refine ⟨tail, htail, fun rest => ?_⟩
      rw [List.cons_append, Text.splitLines.go, if_pos hc]
      · exact ih rest
      · intro after hc hafter
        cases text with
        | nil => exact hreturn ⟨hc, rfl⟩
        | cons d text =>
          cases hafter
          exact hpair text hc rfl
  | case4 line lines c text hpair hc ih =>
    obtain ⟨tail, htail, ih⟩ := ih
    refine ⟨tail, htail, fun rest => ?_⟩
    rw [List.cons_append, Text.splitLines.go, if_neg hc]
    · exact ih rest
    · rintro after rfl -
      exact hc (by decide)

theorem splitLines_newline (text : Text) : ∃ tail, (tail = [] ∨ tail = [[]]) ∧
      Text.splitLines (text ++ ['\n']) = Text.splitLines text ++ tail ∧
      ∀ rest, Text.splitLines (text ++ '\n' :: rest) =
        Text.splitLines (text ++ ['\n']) ++ Text.splitLines rest := by
  obtain ⟨tail, htail, hsplit⟩ := splitLines_go_newline [] [] text
  have hnewline : Text.splitLines (text ++ ['\n']) = Text.splitLines text ++ tail := by
    have hnil := hsplit []
    rwa [show Text.splitLines [] = [] from rfl, List.append_nil] at hnil
  refine ⟨tail, htail, hnewline, fun rest => ?_⟩
  rw [hnewline]
  exact hsplit rest

end Folio
