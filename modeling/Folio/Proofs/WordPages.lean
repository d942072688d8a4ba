import Folio.Proofs.IndexedListing

/-!
# Pages of word-processor documents

The paragraphs of a document are put into sections, line by line from the last
one on, and every table with something in it is a page after them.  Nothing but
blanks is lost and nothing changes its place: the pages put together are the
paragraphs and then the rows of the tables.

Sections are determined by what they have to be: every heading stands first in
its section, and a section after the first one starts with a heading.
-/

namespace Folio

open Action

open Text (joinWith)

/-! ## Texts put together -/

theorem joinWith_flatten (separator : Text) {parts : List (List Text)}
    (hparts : ∀ part ∈ parts, part ≠ []) : joinWith separator (parts.map (joinWith separator)) =
      joinWith separator parts.flatten := by
  induction parts with
  | nil => rfl
  | cons part parts ih =>
    obtain ⟨hpart, hparts⟩ := List.forall_mem_cons.mp hparts
    by_cases hnil : parts = []
    · simp [hnil, joinWith]
    · obtain ⟨next, hnext⟩ := List.exists_mem_of_ne_nil parts hnil
      have hflatten : parts.flatten ≠ [] := fun hflat =>
        hparts next hnext (List.flatten_eq_nil_iff.mp hflat next hnext)
      rw [List.flatten_cons, joinWith_append separator hpart hflatten, ← ih hparts, List.map_cons,
        ← List.singleton_append, joinWith_append separator (by simp) (by simpa using hnil)]
      simp [joinWith]

theorem joinWith_ne_nil (separator : Text) {texts : List Text} (hne : texts ≠ [])
    (htexts : ∀ t ∈ texts, t ≠ []) : joinWith separator texts ≠ [] := by
  cases texts with
  | nil => exact absurd rfl hne
  | cons t texts =>
    have ht : t ≠ [] := htexts t List.mem_cons_self
    unfold joinWith
    by_cases hnil : texts = []
    · simpa [hnil] using ht
    · rw [List.intercalate_cons_of_ne_nil hnil]
      simp [ht]

theorem ne_nil_of_nonBlank? {t shown : Text} (hshown : nonBlank? t = some shown) : shown ≠ [] := by
  unfold nonBlank? at hshown
  dsimp only at hshown
  split at hshown
  · cases hshown
  · rename_i hempty
    cases hshown
    simpa using hempty

namespace Word

/-! ## Sections -/

/-- Sections of lines: every heading is the first line of its section, and only the
first section may start without one. -/
structure SplitAtHeadings (lines : List Line) (parts : List (List Line)) : Prop where
  flatten : parts.flatten = lines
  inhabited : ∀ part ∈ parts, part ≠ []
  headingFirst : ∀ part ∈ parts, ∀ line ∈ part.tail, line.heading = false
  startsAtHeading : ∀ part ∈ parts.tail, ∀ line ∈ part.head?, line.heading = true

theorem SplitAtHeadings.cons {lines : List Line} {parts : List (List Line)}
    (hsplit : SplitAtHeadings lines parts) (line : Line) :
    SplitAtHeadings (line :: lines) (addLine line parts) := by
  obtain ⟨rfl, hinhabited, hfirst, hstarts⟩ := hsplit
  cases parts with
  | nil => exact ⟨rfl, by simp [addLine], by simp [addLine], by
      simp [addLine]⟩
  | cons part rest =>
    cases part with
    | nil => exact absurd rfl (hinhabited [] List.mem_cons_self)
    | cons first more =>
      rw [addLine]
      split
      · rename_i hheading
        refine ⟨rfl, ?_, ?_, ?_⟩
        · exact List.forall_mem_cons.mpr ⟨by simp, hinhabited⟩
        · exact List.forall_mem_cons.mpr ⟨by simp, hfirst⟩
        · exact List.forall_mem_cons.mpr ⟨by simpa using hheading, hstarts⟩
      · rename_i hplain
        obtain ⟨hmore, hfirst⟩ := List.forall_mem_cons.mp hfirst
        refine ⟨rfl, ?_, ?_, hstarts⟩
        · exact List.forall_mem_cons.mpr ⟨by simp, (List.forall_mem_cons.mp hinhabited).2⟩
        · exact List.forall_mem_cons.mpr
            ⟨List.forall_mem_cons.mpr ⟨by simpa using hplain, hmore⟩, hfirst⟩

theorem splitAtHeadings_sections (lines : List Line) : SplitAtHeadings lines (sections lines) := by
  induction lines with
  | nil => exact ⟨rfl, by simp [sections], by simp [sections], by simp [sections]⟩
  | cons line lines ih => exact ih.cons line

theorem SplitAtHeadings.eq_sections {lines : List Line} {parts : List (List Line)}
    (hsplit : SplitAtHeadings lines parts) : parts = sections lines := by
  induction lines generalizing parts with
  | nil =>
    cases parts with
    | nil => rfl
    | cons part rest =>
      exact absurd (List.flatten_eq_nil_iff.mp hsplit.flatten part
        List.mem_cons_self) (hsplit.inhabited part List.mem_cons_self)
  | cons line lines ih =>
    obtain ⟨hflatten, hinhabited, hfirst, hstarts⟩ := hsplit
    cases parts with
    | nil => cases hflatten
    | cons part rest =>
      obtain ⟨hpart, hothers⟩ := List.forall_mem_cons.mp hinhabited
      obtain ⟨hmore, hplain⟩ := List.forall_mem_cons.mp hfirst
      cases part with
      | nil => exact absurd rfl hpart
      | cons first more =>
        obtain ⟨rfl, hlines⟩ := List.cons_eq_cons.mp hflatten
        change _ = addLine first (sections lines)
        cases more with
        | nil =>
          have hsections : rest = sections lines := ih ⟨hlines, hothers, hplain,
            fun part hpart => hstarts part (List.mem_of_mem_tail hpart)⟩
          rw [← hsections]
          cases rest with
          | nil => rfl
          | cons part rest =>
            cases part with
            | nil => exact absurd rfl (hothers [] List.mem_cons_self)
            | cons heading more => rw [addLine, if_pos (hstarts _ List.mem_cons_self heading rfl)]
        | cons second more =>
          obtain ⟨hsecond, hrest⟩ := List.forall_mem_cons.mp hmore
          have hsections : (second :: more) :: rest = sections lines :=
            ih ⟨hlines, List.forall_mem_cons.mpr ⟨by simp, hothers⟩,
              List.forall_mem_cons.mpr ⟨hrest, hplain⟩, hstarts⟩
          rw [← hsections, addLine, if_neg (by simp [hsecond])]

/-! ## What the pages show -/

/-- The rows of a table that are not blank, as they are shown. -/
def shownRows (table : List (List Text)) : List Text :=
  table.filterMap rowText?

theorem text_ne_nil {blocks : List Block} {line : Line} (hline : line ∈ lines blocks) :
    line.text ≠ [] := by
  obtain ⟨⟨style, text⟩, -, hshown⟩ := List.mem_filterMap.mp hline
  obtain ⟨shown, hnonBlank, rfl⟩ := Option.map_eq_some_iff.mp hshown
  exact ne_nil_of_nonBlank? hnonBlank

theorem row_ne_nil {table : List (List Text)} {row : Text}
    (hrow : row ∈ shownRows table) : row ≠ [] := by
  obtain ⟨cells, -, hrow⟩ := List.mem_filterMap.mp hrow
  unfold rowText? at hrow
  split at hrow
  · cases hrow
  · rename_i hne
    cases hrow
    refine joinWith_ne_nil _ hne fun cell hcell => ?_
    obtain ⟨_, -, hshown⟩ := List.mem_filterMap.mp hcell
    exact ne_nil_of_nonBlank? hshown

theorem filterMap_tableText? (tables : List (List (List Text))) : tables.filterMap tableText? =
      ((tables.map shownRows).filter (· ≠ [])).map (joinWith ['\n']) := by
  induction tables with
  | nil => rfl
  | cons table tables ih =>
    have htable : tableText? table = if shownRows table = [] then none
        else some (joinWith ['\n'] (shownRows table)) := by
      unfold tableText? shownRows
      split
      · rename_i hnil
        rw [if_pos hnil]
      · rename_i hne
        rw [if_neg hne]
    rw [List.filterMap_cons, htable, List.map_cons]
    by_cases hnil : shownRows table = []
    · rw [if_pos hnil, List.filter_cons_of_neg (by simp [hnil])]
      exact ih
    · rw [if_neg hnil, List.filter_cons_of_pos (by simp [hnil]), List.map_cons, ← ih]

/-- The lines of the pages, page by page: sections, then the rows of tables. -/
def pageLines (blocks : List Block) : List (List Text) :=
  (sections (lines blocks)).map (List.map Line.text) ++
    ((tables blocks).map shownRows).filter (· ≠ [])

theorem pages_eq (blocks : List Block) : pages blocks = if pageLines blocks = [] then [[]]
      else (pageLines blocks).map (joinWith ['\n']) := by
  have hfound : (pageLines blocks).map (joinWith ['\n']) =
      (sections (lines blocks)).map (fun part => joinWith ['\n'] (part.map Line.text)) ++
        (tables blocks).filterMap tableText? := by
    rw [pageLines, List.map_append, List.map_map, filterMap_tableText?]
    rfl
  unfold pages
  dsimp only
  rw [← hfound]
  simp only [List.isEmpty_iff, List.map_eq_nil_iff]

theorem flatten_pageLines (blocks : List Block) : (pageLines blocks).flatten =
      (lines blocks).map Line.text ++ (tables blocks).flatMap shownRows := by
  rw [pageLines, List.flatten_append, List.flatten_filter_ne_nil, ← List.map_flatten,
    (splitAtHeadings_sections _).flatten, List.flatMap]

theorem ne_nil_of_mem_pageLines {blocks : List Block} {part : List Text}
    (hpart : part ∈ pageLines blocks) : part ≠ [] ∧ ∀ t ∈ part, t ≠ [] := by
  rcases List.mem_append.mp hpart with hpart | hpart
  · obtain ⟨found, hfound, rfl⟩ := List.mem_map.mp hpart
    have hsplit := splitAtHeadings_sections (lines blocks)
    refine ⟨by simpa using hsplit.inhabited found hfound, fun t ht => ?_⟩
    obtain ⟨line, hline, rfl⟩ := List.mem_map.mp ht
    exact text_ne_nil (hsplit.flatten ▸ List.mem_flatten_of_mem hfound hline)
  · obtain ⟨hpart, hne⟩ := List.mem_filter.mp hpart
    obtain ⟨table, -, rfl⟩ := List.mem_map.mp hpart
    exact ⟨by simpa using hne, fun row => row_ne_nil⟩

theorem result_wordPages {readers : Readers} (hreaders : readers.word = true) {tree : FileTree}
    {path : Path} {blocks : List Block} (hread : tree.read path = .ok (.word blocks)) :
    (Reading.wordPages readers path).result tree = (tree, .finished (pages blocks)) := by
  have hopen : (Reading.openWord readers false path).result tree = (tree, .finished blocks) := by
    unfold Reading.openWord Reading.require
    rw [if_pos hreaders, result_bind_of_finished (result_pure _ tree),
      result_bind_of_finished (result_get tree), hread]
    rfl
  have htables : ∀ tables : List (List (List Text)),
      (Action.forList (fun rows : List (List Text) => do
        Action.check "file.read_docx.table"
        Action.checkTimes "file.read_docx.table_row" rows.length) tables :
          TreeAction Unit).result tree = (tree, .finished ()) := by
    intro tables
    unfold Action.forList
    induction tables with
    | nil => rfl
    | cons rows tables ih =>
      rw [Action.foldList, result_bind_of_finished (t := tree) (v := ())]
      · exact ih
      · exact (result_bind_of_finished (result_check _ tree)).trans (result_checkTimes _ _ tree)
  unfold Reading.wordPages
  rw [result_bind_of_finished (result_check _ tree), result_bind_of_finished hopen,
    result_bind_of_finished (result_checkTimes _ _ tree), result_bind_of_finished (htables _)]
  rfl

/-- The pages of a document, put together, are its paragraphs and then the rows of
its tables.  A document without text has one empty page.  Otherwise no page is empty:
there is a page for every section between headings, and one for every table with a
row to show. -/
theorem word_pages_split_at_headings (blocks : List Block) :
    let texts := (lines blocks).map Line.text ++ (tables blocks).flatMap shownRows
    joinWith ['\n'] (pages blocks) = joinWith ['\n'] texts ∧
      (texts = [] → pages blocks = [[]]) ∧
      (texts ≠ [] → (∀ page ∈ pages blocks, page ≠ []) ∧
        ∃! parts, SplitAtHeadings (lines blocks) parts ∧
          pages blocks =
            parts.map (fun part => joinWith ['\n'] (part.map Line.text)) ++
              ((tables blocks).map shownRows |>.filter (· ≠ [])).map
                (joinWith ['\n'])) ∧
      ∀ (readers : Readers) (tree : FileTree) (path : Path),
        readers.word = true → tree.read path = .ok (.word blocks) →
          ((Reading.wordPages readers path).run none tree).ending =
            .finished (pages blocks) := by
  intro texts
  have htexts : texts = (pageLines blocks).flatten := (flatten_pageLines blocks).symm
  have hnil : pageLines blocks = [] ↔ texts = [] := by
    rw [htexts, List.flatten_eq_nil_iff]
    refine ⟨fun hnil => by simp [hnil], fun hall => ?_⟩
    by_contra hne
    obtain ⟨part, hpart⟩ := List.exists_mem_of_ne_nil _ hne
    exact (ne_nil_of_mem_pageLines hpart).1 (hall part hpart)
  refine ⟨?_, fun hempty => ?_, fun hsome => ⟨fun page hpage => ?_, ?_⟩, ?_⟩
  · rw [pages_eq]
    split
    · rename_i hempty
      rw [hnil.mp hempty]
      rfl
    · rw [htexts, joinWith_flatten _ fun part hpart => (ne_nil_of_mem_pageLines hpart).1]
  · rw [pages_eq, if_pos (hnil.mpr hempty)]
  · rw [pages_eq, if_neg (hnil.not.mpr hsome)] at hpage
    obtain ⟨part, hpart, rfl⟩ := List.mem_map.mp hpage
    have hlines := ne_nil_of_mem_pageLines hpart
    exact joinWith_ne_nil _ hlines.1 hlines.2
  · refine ⟨_, ⟨splitAtHeadings_sections _, ?_⟩, fun parts hparts => hparts.1.eq_sections⟩
    rw [pages_eq, if_neg (hnil.not.mpr hsome), pageLines, List.map_append, List.map_map]
    rfl
  · intro readers tree path hreaders hread
    rw [Action.ending_run_none, result_wordPages hreaders hread]

end Word

end Folio
