import Folio.Proofs.AssignmentSign
import Folio.Proofs.IndexedReading

/-!
# Pages of plain text

A text is cut into lines at its line ends, the lines are put together again in
pages of a fixed number, and the blanks around every page are dropped.  All that
is lost on the way is blank: the line ends at the cuts and what stands around a
page.  So the pages hold the solid characters of the text, in their order.

A file is read as plain text in two places, by the file itself and for an index.
Both give the same pages.
-/

namespace Folio

open Action

/-! ## Pieces of a list -/

section Pieces

variable {α : Type} {n fuel : Nat}

theorem length_drop_le (hn : 0 < n) {items : List α} (hfuel : items.length ≤ fuel + 1) :
    (items.drop n).length ≤ fuel := by
  rw [List.length_drop]
  omega

theorem getElem?_piecesOf_go (hn : 0 < n) {items : List α} (hfuel : items.length ≤ fuel) (i : Nat) :
    (piecesOf.go n fuel items)[i]? =
      if n * i < items.length then some ((items.drop (n * i)).take n) else none := by
  induction fuel generalizing items i with
  | zero =>
    obtain rfl := List.length_eq_zero_iff.mp (Nat.le_zero.mp hfuel)
    simp [piecesOf.go]
  | succ fuel ih =>
    cases items with
    | nil => simp [piecesOf.go]
    | cons a rest =>
      rw [piecesOf.go]
      cases i with
      | zero => simp
      | succ i =>
        rw [List.getElem?_cons_succ, ih (length_drop_le hn hfuel), List.length_drop, List.drop_drop,
          Nat.mul_succ, Nat.add_comm n]
        congr 1
        exact propext (by omega)

theorem length_piecesOf_go (hn : 0 < n) {items : List α} (hfuel : items.length ≤ fuel) :
    (piecesOf.go n fuel items).length = (items.length + (n - 1)) / n := by
  induction fuel generalizing items with
  | zero =>
    obtain rfl := List.length_eq_zero_iff.mp (Nat.le_zero.mp hfuel)
    exact (Nat.div_eq_of_lt (by simpa using hn)).symm
  | succ fuel ih =>
    cases items with
    | nil => exact (Nat.div_eq_of_lt (by simpa using hn)).symm
    | cons a rest =>
      rw [piecesOf.go, List.length_cons, ih (length_drop_le hn hfuel), List.length_drop,
        ← Nat.add_div_right _ hn]
      rw [List.length_cons] at *
      by_cases hlong : n ≤ rest.length + 1
      · congr 1
        omega
      · rw [Nat.div_eq_of_lt_le (k := 1) (by omega) (by omega), Nat.div_eq_of_lt_le (k := 1)
          (by omega) (by omega)]

theorem flatten_piecesOf_go (hn : 0 < n) {items : List α}
    (hfuel : items.length ≤ fuel) : (piecesOf.go n fuel items).flatten = items := by
  induction fuel generalizing items with
  | zero =>
    obtain rfl := List.length_eq_zero_iff.mp (Nat.le_zero.mp hfuel)
    rfl
  | succ fuel ih =>
    cases items with
    | nil => rfl
    | cons a rest =>
      rw [piecesOf.go, List.flatten_cons, ih (length_drop_le hn hfuel), List.take_append_drop]

end Pieces

/-! ## Solid characters -/

namespace Text

/-- What is left of a text without its blanks. -/
def solid (t : Text) : Text :=
  t.filter fun c => !isSpace c

theorem solid_append (t u : Text) : solid (t ++ u) = solid t ++ solid u := List.filter_append ..

theorem solid_eq_nil {t : Text} (ht : ∀ c ∈ t, isSpace c = true) : solid t = [] :=
  List.filter_eq_nil_iff.mpr fun c hc => by simp [ht c hc]

theorem solid_flatten (pieces : List Text) : solid pieces.flatten = (pieces.map solid).flatten :=
  List.filter_flatten ..

theorem solid_strip (t : Text) : solid (strip t) = solid t := by
  obtain ⟨lead, trail, hlead, htrail, ht⟩ := Source.exists_strip t
  conv_rhs => rw [ht]
  rw [solid_append, solid_append, solid_eq_nil hlead, solid_eq_nil htrail, List.nil_append,
    List.append_nil]

theorem solid_joinWith {separator : Text} (hseparator : ∀ c ∈ separator, isSpace c = true)
    (pieces : List Text) : solid (joinWith separator pieces) = solid pieces.flatten := by
  unfold joinWith
  induction pieces with
  | nil => rfl
  | cons piece rest ih =>
    by_cases hrest : rest = []
    · simp [hrest]
    · rw [List.intercalate_cons_of_ne_nil hrest, List.flatten_cons, solid_append, solid_append,
        solid_append, solid_eq_nil hseparator, ih, List.append_nil]

/-- Lines hold all of a text but its line ends. -/
theorem solid_splitLines (t : Text) : solid (splitLines t).flatten = solid t := by
  have hgo : ∀ (t line : Text) (lines : List Text), solid (splitLines.go line lines t).flatten =
        solid (lines.reverse.flatten ++ (line.reverse ++ t)) := by
    intro t line lines
    fun_induction splitLines.go line lines t with
    | case1 line lines =>
      by_cases hline : line = []
      · simp [hline]
      · simp [hline]
    | case2 line lines rest ih =>
      rw [ih]
      simp [solid_append, show solid ('\r' :: '\n' :: rest) = solid rest from rfl]
    | case3 line lines c rest hpair hend ih =>
      have hc : solid (c :: rest) = solid rest :=
        List.filter_cons_of_neg (by simp [Source.isSpace_of_isLineEnd hend])
      rw [ih]
      simp [solid_append, hc]
    | case4 line lines c rest hpair hend ih =>
      rw [ih]
      simp
  exact hgo t [] []

end Text

/-! ## The pages of a text -/

/-- Pages that a text is cut into: their number, what each of them is, and that
nothing solid is lost. -/
structure CutIntoPages (t : Text) (pages : List Text) : Prop where
  count : pages.length = max 1 (((Text.splitLines t).length + 79) / 80)
  page : ∀ i, i < pages.length → pages[i]? = some (Text.strip
    (Text.joinWith ['\n'] (((Text.splitLines t).drop (80 * i)).take 80)))
  solid : Text.solid pages.flatten = Text.solid t

theorem solid_pageOfLines (lines : List Text) :
    Text.solid (pageOfLines lines) = Text.solid lines.flatten := by
  rw [pageOfLines, Text.solid_strip,
    Text.solid_joinWith (List.forall_mem_singleton.mpr rfl)]

theorem cutIntoPages_nil : CutIntoPages [] [[]] := by
  refine ⟨rfl, fun i hi => ?_, rfl⟩
  obtain rfl : i = 0 := Nat.lt_one_iff.mp hi
  rfl

theorem cutIntoPages_map {t : Text} (ht : t ≠ []) :
    CutIntoPages t ((piecesOf linesPerPage (Text.splitLines t)).map pageOfLines) := by
  have hpositive : 0 < linesPerPage := by decide
  have hlines : 0 < (Text.splitLines t).length := List.length_pos_iff.mpr (splitLines_ne_nil ht)
  have hcount : (piecesOf linesPerPage (Text.splitLines t)).length =
      ((Text.splitLines t).length + 79) / 80 := length_piecesOf_go hpositive (Nat.le_refl _)
  refine ⟨?_, fun i hi => ?_, ?_⟩
  · rw [List.length_map, hcount]
    omega
  · rw [List.length_map, hcount] at hi
    have hin : linesPerPage * i < (Text.splitLines t).length := by
      change 80 * i < _
      omega
    rw [List.getElem?_map, piecesOf, getElem?_piecesOf_go hpositive (Nat.le_refl _), if_pos hin]
    rfl
  · calc Text.solid ((piecesOf linesPerPage (Text.splitLines t)).map pageOfLines).flatten
        = ((piecesOf linesPerPage (Text.splitLines t)).map
            fun lines => Text.solid lines.flatten).flatten := by
          rw [Text.solid_flatten, List.map_map]
          simp only [Function.comp_def, solid_pageOfLines]
      _ = Text.solid (piecesOf linesPerPage (Text.splitLines t)).flatten.flatten := by
          rw [List.flatten_flatten, Text.solid_flatten, List.map_map]
          rfl
      _ = Text.solid t := by
          rw [piecesOf, flatten_piecesOf_go hpositive (Nat.le_refl _), Text.solid_splitLines]

theorem exists_cutIntoPages (t : Text) :
    ∃ pages, pagesOfText linesPerPage t = .ok pages ∧ CutIntoPages t pages := by
  by_cases ht : t = []
  · exact ⟨[[]], by simp [pagesOfText, ht], ht ▸ cutIntoPages_nil⟩
  · refine ⟨_, ?_, cutIntoPages_map ht⟩
    simp [pagesOfText, ht, linesPerPage]

/-! ## The two readers -/

theorem result_textPages_eq (tree : FileTree) (path : Path) (size : Int) :
    (Reading.textPages size path).result tree = (Index.textPages size path).result tree := by
  unfold Reading.textPages Index.textPages
  rw [result_bind_of_finished (result_check _ tree), result_bind,
    result_bind (TreeAction.read path)]
  congr 1
  funext tree content
  dsimp only
  rw [result_bind, result_bind (TreeAction.ofFailure _)]
  congr 1
  funext tree pages
  rw [result_bind_of_finished (result_checkTimes _ _ tree),
    result_bind_of_finished (result_checkTimes _ _ tree)]

/-- Every text is cut into pages that lose nothing but blanks, and whoever reads a
file with that text gets these pages.  The two readers also fail alike. -/
theorem text_pages_lose_nothing (t : Text) :
    ∃ pages, pagesOfText linesPerPage t = .ok pages ∧ CutIntoPages t pages ∧
      ∀ (tree : FileTree) (path : Path),
        ((Index.textPages linesPerPage path).run none tree).ending =
          ((Reading.textPages linesPerPage path).run none tree).ending ∧
        ∀ content, tree.read path = .ok content → content.plainText = t →
          ((Reading.textPages linesPerPage path).run none tree).ending =
            .finished pages := by
  obtain ⟨pages, hpages, hcut⟩ := exists_cutIntoPages t
  refine ⟨pages, hpages, hcut, fun tree path => ?_⟩
  rw [Action.ending_run_none, Action.ending_run_none, result_textPages_eq]
  refine ⟨rfl, fun content hread htext => ?_⟩
  subst htext
  rw [Index.result_textPages hread hpages]

end Folio
