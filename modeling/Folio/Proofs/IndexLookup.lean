import Folio.Proofs.DirectoryChain
import Folio.Proofs.PreparedIndex

/-!
# Looking up an index

The index of a path is the nearest one.  The path itself and the folders above it
are asked for the directory of an index, up from the path.  The pages of a file are
those of the records that carry its path in the index that is found.
-/

namespace Folio.Index

open Action TreeAction FileTree

variable {tree : FileTree} {root path candidate db : Path} {content : Content}
  {records : List Record} {pages : List Text}

/-! ## The folders that are asked for an index -/

theorem mem_rootCandidates_iff :
    candidate ∈ rootCandidates path ↔ candidate.parts <+: path.parts := by
  constructor
  · intro hmem
    rcases List.mem_cons.mp hmem with rfl | hmem
    · exact List.prefix_refl _
    rcases List.mem_cons.mp hmem with rfl | hmem
    · exact List.dropLast_prefix _
    obtain ⟨i, -, rfl⟩ := List.mem_map.mp hmem
    exact List.take_prefix _ _
  · intro hbelow
    have htake := List.prefix_iff_eq_take.mp hbelow
    have hlength := hbelow.length_le
    by_cases hlast : candidate.parts.length = path.parts.length
    · have hparts : candidate.parts = path.parts := by rw [htake, hlast, List.take_length]
      exact List.mem_cons.mpr (.inl (congrArg Path.mk hparts))
    · refine List.mem_cons_of_mem _ (List.mem_cons_of_mem _ ?_)
      refine List.mem_map.mpr ⟨path.parts.length - 1 - candidate.parts.length, ?_, ?_⟩
      · rw [List.mem_range]
        omega
      · have hcount : path.parts.length - 1 - (path.parts.length - 1 - candidate.parts.length) =
              candidate.parts.length := by omega
        rw [hcount, ← htake]

theorem pairwise_rootCandidates (path : Path) : (rootCandidates path).Pairwise fun a b =>
      b.parts.length ≤ a.parts.length := by
  refine List.pairwise_cons.mpr ⟨?_, List.pairwise_cons.mpr ⟨?_, ?_⟩⟩
  · intro candidate hmem
    exact (mem_rootCandidates_iff.mp (List.mem_cons_of_mem _ hmem)).length_le
  · intro candidate hmem
    obtain ⟨i, -, rfl⟩ := List.mem_map.mp hmem
    rw [Path.parent, List.length_take, List.length_dropLast]
    omega
  · rw [Path.ancestors, List.pairwise_map]
    refine List.pairwise_lt_range.imp fun hlt => ?_
    rw [List.length_take, List.length_take]
    omega

theorem result_firstIndexed?_cons {rest : List Path} (tree : FileTree) :
    (firstIndexed? (candidate :: rest)).result tree =
      match tree.isDirectory? (candidate.child directoryName) with
      | .ok true => (tree, .finished (some candidate))
      | .ok false => (firstIndexed? rest).result tree
      | .error e => (tree, .failed (.failure (.system e))) := by
  rw [firstIndexed?, result_bind_of_finished (result_check _ tree), result_bind, TreeAction.ask,
    result_bind_of_finished (result_get tree)]
  cases tree.isDirectory? (candidate.child directoryName) with
  | error e => rfl
  | ok found => cases found <;> rfl

/-- Two trees agree on the folders below a folder, none of which has an index.
The folder itself has one in the second tree only. -/
theorem result_firstIndexed?_none {candidates : List Path}
    (hnone : ∀ c ∈ candidates, tree.isDirectory? (c.child directoryName) = .ok false) :
    (firstIndexed? candidates).result tree = (tree, .finished none) := by
  induction candidates with
  | nil => rfl
  | cons c candidates ih =>
    rw [result_firstIndexed?_cons, hnone c (by simp)]
    exact ih fun other h => hnone other (by simp [h])

theorem result_firstIndexed?_nearest {near : List Path} (far : List Path)
    (hnear : ∀ c ∈ near, tree.isDirectory? (c.child directoryName) ≠ .ok true)
    (hroot : tree.isDirectory? (root.child directoryName) = .ok true) :
    (firstIndexed? (near ++ root :: far)).result tree = (tree, .finished (some root)) ∨
      ∃ c ∈ near, ∃ e, tree.isDirectory? (c.child directoryName) = .error e ∧
        (firstIndexed? (near ++ root :: far)).result tree =
          (tree, .failed (.failure (.system e))) := by
  induction near with
  | nil =>
    left
    rw [List.nil_append, result_firstIndexed?_cons, hroot]
  | cons c near ih =>
    rw [List.cons_append, result_firstIndexed?_cons]
    cases hasked : tree.isDirectory? (c.child directoryName) with
    | error e => exact .inr ⟨c, by simp, e, hasked, rfl⟩
    | ok found =>
      cases found with
      | true => exact absurd hasked (hnear c (by simp))
      | false =>
        refine (ih fun other h => hnear other (by simp [h])).imp_right ?_
        rintro ⟨other, hother, hfailed⟩
        exact ⟨other, by simp [hother], hfailed⟩

theorem exists_rootCandidates_append (hroot : root.parts <+: path.parts) :
    ∃ near far, rootCandidates path = near ++ root :: far ∧
      (∀ c ∈ near, root.parts <+: c.parts ∧ c.parts ≠ root.parts ∧ c.parts <+: path.parts) ∧
      ∀ c ∈ root :: far, c.parts <+: root.parts := by
  obtain ⟨near, far, hsplit, hnot⟩ := List.eq_append_cons_of_mem (mem_rootCandidates_iff.mpr hroot)
  have hpath : ∀ c ∈ near ++ root :: far, c.parts <+: path.parts :=
    fun c hc => mem_rootCandidates_iff.mp (hsplit ▸ hc)
  have hordered := pairwise_rootCandidates path
  rw [hsplit, List.pairwise_append, List.pairwise_cons] at hordered
  obtain ⟨-, ⟨hfar, -⟩, hnear⟩ := hordered
  refine ⟨near, far, hsplit, fun c hc => ⟨?_, ?_, hpath c (by simp [hc])⟩, fun c hc => ?_⟩
  · exact List.prefix_of_prefix_length_le hroot (hpath c (by simp [hc])) (hnear c hc root (by simp))
  · intro hparts
    have heq : c = root := congrArg Path.mk hparts
    exact hnot (heq ▸ hc)
  · rcases List.mem_cons.mp hc with rfl | hc
    · exact List.prefix_refl _
    · exact List.prefix_of_prefix_length_le (hpath c (by simp [hc])) hroot (hfar c hc)

theorem nameFits_directoryName : nameFits directoryName = true := by decide

/-! ## The pages of a file in an index -/

theorem result_position?_of_resolve (hnamed : ∀ name ∈ path.parts, Name.Proper name)
    (hresolve : tree.resolve path = .path path) :
    (position? path).result tree = Ending.andThen (fun t found =>
      (t, .finished (found.map fun root => Position.ofRoot root path)))
        ((findRoot? path).result tree) := by
  have hnull : path.NoNull := fun name hname => (hnamed name hname).noNull
  have hresult : (TreeAction.resolve path).result tree = (tree, .finished path) :=
    resolve_eq_finished_iff.mpr ⟨rfl, hnull.any_eq_false, hresolve⟩
  unfold position?
  rw [result_bind_of_finished hresult, result_bind]
  congr 1
  funext t found
  cases found <;> rfl

theorem result_position?_refused {e : SystemError}
    (hnamed : ∀ name ∈ path.parts, Name.Proper name) (hresolve : tree.resolve path = .path path)
    (hasked : tree.isDirectory? (path.child directoryName) = .error e) :
    (position? path).result tree = (tree, .failed (.failure (.system e))) := by
  rw [result_position?_of_resolve hnamed hresolve, findRoot?, rootCandidates,
    result_firstIndexed?_cons, hasked]
  rfl

theorem result_position? (hsound : tree.Sound)
    (hfile : tree.node? path.parts = some (.file content)) :
    (position? path).result tree = Ending.andThen (fun t found =>
      (t, .finished (found.map fun root => Position.ofRoot root path)))
        ((findRoot? path).result tree) := result_position?_of_resolve (hsound.named_of_node? hfile)
    (hsound.resolve_entry hfile rfl)

theorem result_loadRecords (hisFile : tree.isFile? (recordsFile db) = .ok true)
    (hread : tree.read (recordsFile db) = .ok (.text (recordsText records)))
    (hstored : ∀ r ∈ records, Json.Stored (.object r.fields)) :
    (loadRecords db).result tree = (tree, .finished records) := by
  unfold loadRecords
  rw [result_bind_of_finished (ask_eq_finished_iff.mpr ⟨rfl, hisFile⟩)]
  refine (result_bind_of_finished (result_get tree)).trans ?_
  rw [readJson_recordsText hread hstored]
  refine (result_bind_of_finished (result_pure _ tree)).trans ?_
  rw [recordsOf?_map]
  rfl

theorem result_loadCatalogue (hisFile : tree.isFile? (recordsFile db) = .ok true)
    (hread : tree.read (recordsFile db) = .ok (.text (recordsText records)))
    (hstored : ∀ r ∈ records, Json.Stored (.object r.fields)) : (loadCatalogue db).result tree =
      (tree, .finished ⟨pagesByPath records, positionsByPath records⟩) := by
  unfold loadCatalogue
  rw [result_bind_of_finished (result_loadRecords hisFile hread hstored),
    result_bind_of_finished (result_checkTimes _ _ tree),
    result_bind_of_finished (result_checkTimes _ _ tree)]
  rfl

theorem result_filePages?_of_position (hposition : (position? path).result tree =
      (tree, .finished (some (Position.ofRoot root path))))
    (hisFile : tree.isFile? (recordsFile (root.child directoryName)) = .ok true)
    (hread : tree.read (recordsFile (root.child directoryName)) = .ok (.text (recordsText records)))
    (hstored : ∀ r ∈ records, Json.Stored (.object r.fields)) (hne : pages ≠ [])
    (hrecords : (records.filter (·.path? == some (path.inside root))) =
      (pageRecords root path pages).map Prod.fst) : (filePages? path).result tree =
        (tree, .finished (some (pages.map fun page => Text.strip (Text.normalize page)))) := by
  have hcleaned : (records.filter fun r => r.path? == some (path.inside root)) =
      (pages.map fun page => Text.strip (Text.normalize page)).zipIdx.map
        fun page => Record.ofPage (path.inside root) path.name.toList (page.2 + 1) page.1 := by
    rw [hrecords, pageRecords, List.map_map, List.zipIdx_map, List.map_map]
    rfl
  have hlookup := lookup_pagesByPath (by simpa using hne) hcleaned
  unfold filePages?
  rw [result_bind_of_finished hposition]
  refine (result_bind_of_finished (ask_eq_finished_iff.mpr ⟨rfl, hisFile⟩)).trans ?_
  refine (result_bind_of_finished (result_loadCatalogue hisFile hread hstored)).trans ?_
  have hinside : (Position.ofRoot root path).inside = path.inside root := rfl
  dsimp only
  rw [hinside, hlookup]
  refine (result_bind_of_finished (result_checkTimes _ _ tree)).trans ?_
  rw [List.map_map]
  exact congrArg (fun pages => (tree, Ending.finished (some pages))) (List.zipIdx_map_fst 0 _)

theorem result_filePages?_of_missing {position : Position}
    (hposition : (position? path).result tree = (tree, .finished (some position)))
    (hisFile : tree.isFile? (recordsFile position.db) = .ok true)
    (hread : tree.read (recordsFile position.db) = .ok (.text (recordsText records)))
    (hjson : ∀ r ∈ records, Json.Stored (.object r.fields))
    (hmissing : (pagesByPath records).lookup position.inside = none) :
    (filePages? path).result tree = (tree, .finished none) := by
  unfold filePages?
  rw [result_bind_of_finished hposition]
  refine (result_bind_of_finished (TreeAction.ask_eq_finished_iff.mpr ⟨rfl, hisFile⟩)).trans ?_
  refine (result_bind_of_finished (result_loadCatalogue hisFile hread hjson)).trans ?_
  dsimp only
  rw [hmissing]
  rfl

/-! ## Documents and their records -/

theorem stored_of_found {readers : Readers} {paths : List Path}
    {found : List (Option (List (Record × Text)))}
    (hfound : List.Forall₂ (Finds readers root db tree) paths found)
    (hshort : ((found.filterMap id).flatten.map Prod.fst).any Record.isTooLong = false) :
    ∀ r ∈ (found.filterMap id).flatten.map Prod.fst, Json.Stored (.object r.fields) := by
  induction hfound with
  | nil => simp
  | @cons first records paths found hfinds hfound ih =>
    rw [flatten_filterMap_cons, List.map_append, List.any_append, Bool.or_eq_false_iff] at hshort
    intro r hr
    rw [flatten_filterMap_cons, List.map_append, List.mem_append] at hr
    rcases hr with hr | hr
    · have hr' := List.any_eq_false.mp hshort.1 r hr
      cases hfinds with
      | other => simp at hr
      | ownFile => simp at hr
      | document =>
        simp only [Option.getD_some, pageRecords, List.map_map, List.mem_map] at hr
        obtain ⟨page, -, rfl⟩ := hr
        exact Record.stored_ofPage _ _ _ _ (eq_false_of_ne_true hr')
    · exact ih hshort.2 r hr

theorem result_textPages {size : Int} (hread : tree.read path = .ok content)
    (hpages : pagesOfText size content.plainText = .ok pages) :
    (textPages size path).result tree = (tree, .finished pages) := by
  unfold textPages
  rw [TreeAction.read, result_bind_of_finished (ask_eq_finished_iff.mpr ⟨rfl, hread⟩)]
  dsimp only
  rw [hpages]
  refine (result_bind_of_finished (result_pure _ tree)).trans ?_
  exact result_bind_of_finished (result_checkTimes _ _ tree)

theorem result_extract_text (readers : Readers) (hkind : path.kind? = none)
    (hread : tree.read path = .ok content)
    (hpages : pagesOfText linesPerPage content.plainText = .ok pages) :
    (extract readers path).result tree = (tree, .finished pages) := by
  unfold extract
  rw [hkind]
  exact result_textPages hread hpages

end Folio.Index
