import Folio.Proofs.IndexedListing
import Folio.Proofs.SearchRanking

/-!
# The ranking of a directory

A search in a directory ranks the pages of all its documents together, by their
scores, then by the paths of their documents in the index, then by their numbers.
What is left of this ranking for one document is the ranking of the document
alone, and the order in which documents first appear in it is the ranking of the
documents by their best pages.
-/

namespace Folio.Index

variable {x : Scored (Text × Numeral × Text)} {path : Text} {positions : List (Nat × Numeral)}

/-! ## Paths in the order of their writing -/

theorem append_lt_append_iff (start s t : Text) : start ++ s < start ++ t ↔ s < t := by
  induction start with
  | nil => simp
  | cons c start ih => simp [ih]

def textLe (s t : Text) : Bool :=
  !(t < s)

theorem ranks_textLe {α : Type} (key : α → Text) : Ranks fun a b => textLe (key a) (key b) where
  trans a b c hab hbc := by
    simp only [textLe, Bool.not_eq_true', decide_eq_false_iff_not, List.not_lt] at *
    exact List.le_trans hab hbc
  total a b := by
    simp only [textLe, Bool.or_eq_true, Bool.not_eq_true', decide_eq_false_iff_not, List.not_lt]
    exact List.le_total _ _

theorem documentPath_text (root : Path) {rest : List Name}
    (hplain : ∀ name ∈ rest, Name.Plain name) :
    documentPath root (WrittenPath.text ⟨false, rest⟩) = ⟨root.parts ++ rest⟩ := by
  rw [documentPath, WrittenPath.ofText_text hplain]
  rfl

theorem text_append (root : Path) {rest : List Name} (hne : rest ≠ []) :
    Path.text ⟨root.parts ++ rest⟩ = (if root.parts = [] then ['/'] else root.text ++ ['/']) ++
        WrittenPath.text ⟨false, rest⟩ := by
  by_cases hroot : root.parts = []
  · simp [WrittenPath.text, Path.text, hroot, hne]
  · simp [WrittenPath.text, Path.text, hroot, hne, List.map_append, joinWith_append ['/']
      (List.map_eq_nil_iff.not.mpr hroot) (List.map_eq_nil_iff.not.mpr hne)]

/-- A text is the one writing of a path that goes on from a folder. -/
def Canonical (t : Text) : Prop :=
  ∃ rest : List Name, rest ≠ [] ∧ (∀ name ∈ rest, Name.Plain name) ∧
    WrittenPath.text ⟨false, rest⟩ = t

namespace Canonical

variable {s t : Text}

theorem documentPath_inj (hs : Canonical s) (ht : Canonical t) {root : Path}
    (hsame : documentPath root s = documentPath root t) : s = t := by
  obtain ⟨parts, -, hparts, rfl⟩ := hs
  obtain ⟨rest, -, hrest, rfl⟩ := ht
  rw [documentPath_text root hparts, documentPath_text root hrest, Path.mk.injEq,
    List.append_cancel_left_eq] at hsame
  rw [hsame]

theorem le_documentPath (hs : Canonical s) (ht : Canonical t) (root : Path) :
    Path.le (documentPath root s) (documentPath root t) = textLe s t := by
  obtain ⟨parts, hne, hparts, rfl⟩ := hs
  obtain ⟨rest, hne', hrest, rfl⟩ := ht
  rw [documentPath_text root hparts, documentPath_text root hrest, Path.le, text_append root hne,
    text_append root hne', textLe]
  simp only [append_lt_append_iff]

end Canonical

def Named (records : List Record) : Prop :=
  ∀ r ∈ records, ∀ t, r.path? = some t → Canonical t

/-! ## The order in a directory -/

/-- The order of pages with the same score: by their paths, then by their numbers. -/
def pageLe (a b : Text × Numeral × Text) : Bool :=
  if a.1 == b.1 then a.2.1.value ≤ b.2.1.value else a.1 < b.1

theorem pageLe_eq : pageLe = lexLe (fun a b => textLe a.1 b.1)
    fun a b => decide (a.2.1.value ≤ b.2.1.value) := by
  funext a b
  simp only [pageLe, lexLe, textLe, beq_iff_eq]
  by_cases hsame : a.1 = b.1
  · simp [hsame]
  · by_cases hlt : a.1 < b.1
    · simp [hsame, hlt, List.lt_asymm hlt]
    · have hgt : b.1 < a.1 := by
        by_contra hnot
        exact hsame (List.le_antisymm (List.not_lt.mp hnot) (List.not_lt.mp hlt))
      simp [hsame, hlt, hgt]

theorem ranks_pageLe : Ranks pageLe := by
  rw [pageLe_eq]
  exact (ranks_textLe _).lexLe (ranks_page _)

namespace Loaded

variable {loaded : Loaded} {request : Request} { recursive : Bool}

theorem mem_directoryResults : x ∈ loaded.directoryResults request recursive ↔
      ∃ r vector path page, (r, vector) ∈ loaded.records.zip loaded.vectors ∧
        r.path? = some path ∧ r.page? = some page ∧
        isInFolder recursive loaded.position.folder path = true ∧
        x = ⟨dot (embed request.query) vector, path, page, r.text⟩ := by
  rw [directoryResults, List.mem_filterMap]
  constructor
  · rintro ⟨⟨r, vector⟩, hmem, hx⟩
    obtain ⟨path, hpath, hx⟩ := Option.bind_eq_some_iff.mp hx
    obtain ⟨page, hpage, hx⟩ := Option.bind_eq_some_iff.mp hx
    split at hx
    · exact ⟨r, vector, path, page, hmem, hpath, hpage, ‹_›, (Option.some.inj hx).symm⟩
    · cases hx
  · rintro ⟨r, vector, path, page, hmem, hpath, hpage, hin, rfl⟩
    exact ⟨(r, vector), hmem, by simp [hpath, hpage, hin]⟩

theorem mem_directoryResults_of_record {r : Record} {vector : Embedding} {page : Numeral}
    (hr : (r, vector) ∈ loaded.records.zip loaded.vectors) (hpath : r.path? = some path)
    (hpage : r.page? = some page) (hin : isInFolder recursive loaded.position.folder path = true) :
    Scored.mk (dot (embed request.query) vector) (path, page, r.text) ∈
      loaded.directoryResults request recursive :=
  mem_directoryResults.mpr ⟨r, vector, path, page, hr, hpath, hpage, hin, rfl⟩

theorem length_directoryResults_le :
    (loaded.directoryResults request recursive).length ≤ loaded.records.length := by
  refine (List.length_filterMap_le _ _).trans ?_
  rw [List.length_zip]
  exact min_le_left _ _

/-- With room for all records, the ranking of a directory is the sorted list of all
results. -/
theorem directoryChunks_eq (hscores : Numbered (loaded.directoryResults request recursive))
    (hlimit : loaded.records.length ≤ request.limit) : loaded.directoryChunks request recursive =
      ((loaded.directoryResults request recursive).mergeSort (Scored.order pageLe)).map
        fun x => (documentPath loaded.position.root x.item.1, x.item.2) := by
  have hshort : ((loaded.directoryResults request recursive).mergeSort
      (Scored.order pageLe)).length ≤ request.limit := by
    rw [List.length_mergeSort]
    exact length_directoryResults_le.trans hlimit
  change (best pageLe request.limit _).map _ = _
  rw [best_eq pageLe _ hscores, List.take_of_length_le hshort, List.map_map]
  rfl

theorem path_of_mem_directoryResults (hnamed : Named loaded.records)
    (hx : x ∈ loaded.directoryResults request recursive) : Canonical x.item.1 := by
  obtain ⟨r, vector, path, page, hmem, hpath, -, -, rfl⟩ := mem_directoryResults.mp hx
  exact hnamed r (List.of_mem_zip hmem).1 path hpath

end Loaded

/-! ## One document -/

section Document

variable {root directory file : Path} { recursive : Bool} {vectors : List Embedding}
  {records : List Record}

/-- The result of a search in a directory as one of a search in the document. -/
def ofDocument? (path : Text) (x : Scored (Text × Numeral × Text)) :
    Option (Scored (Numeral × Text)) :=
  if x.item.1 == path then some (x.map Prod.snd) else none

theorem ofDocument?_eq_some_iff
    {y : Scored (Numeral × Text)} : ofDocument? path x = some y ↔ x = ⟨y.score, path, y.item⟩ := by
  rcases x with ⟨score, other, page⟩
  rcases y with ⟨score', page'⟩
  simp only [ofDocument?, Scored.map, Option.ite_none_right_eq_some, Option.some.injEq,
    Scored.mk.injEq, beq_iff_eq, Prod.mk.injEq]
  tauto

theorem filterMap_directoryResults (request : Request)
    (hin : isInFolder recursive (Position.ofRoot root directory).folder (file.inside root) = true) :
    ((Loaded.mk (.ofRoot root directory) vectors records).directoryResults request
        recursive).filterMap (ofDocument? (file.inside root)) =
      (Loaded.mk (.ofRoot root file) vectors records).fileResults request := by
  have hinside : (Position.ofRoot root file).inside = file.inside root := rfl
  rw [Loaded.directoryResults, List.filterMap_filterMap, Loaded.fileResults]
  congr 1
  funext stored
  obtain ⟨r, vector⟩ := stored
  cases hpath : r.path? with
  | none => simp [hpath]
  | some path =>
    cases hpage : r.page? with
    | none => simp [hpath, hpage]
    | some page =>
      by_cases hfile : path = file.inside root
      · subst hfile
        simp [hpath, hpage, hin, hinside, ofDocument?, Scored.map]
      · by_cases hother : isInFolder recursive (Position.ofRoot root directory).folder
            path = true <;> simp [hpath, hpage, hother, hfile, hinside, ofDocument?]

/-- The pages of a document in the ranking of a directory are the ranking of the
document. -/
theorem fileChunks_eq {request wanted : Request} (hquery : request.query = wanted.query)
    (hlimit : records.length ≤ request.limit) (hwanted : records.length ≤ wanted.limit)
    (hnamed : Named records) (hcanonical : Canonical (file.inside root))
    (hfile : documentPath root (file.inside root) = file)
    (hin : isInFolder recursive (Position.ofRoot root directory).folder (file.inside root) = true)
    (hscores : Numbered
      ((Loaded.mk (.ofRoot root directory) vectors records).directoryResults request recursive)) :
    (Loaded.mk (.ofRoot root file) vectors records).fileChunks wanted =
      (((Loaded.mk (.ofRoot root directory) vectors records).directoryChunks request
        recursive).filter (·.1 == file)).map Prod.snd := by
  have hresults : (Loaded.mk (.ofRoot root file) vectors records).fileResults wanted =
      (Loaded.mk (.ofRoot root file) vectors records).fileResults request := by
    rw [Loaded.fileResults, Loaded.fileResults, hquery]
  have hnumbers : Numbered
      ((Loaded.mk (.ofRoot root file) vectors records).fileResults request) := by
    intro y hy
    rw [← filterMap_directoryResults request hin] at hy
    obtain ⟨x, hx, hxy⟩ := List.mem_filterMap.mp hy
    have hscore := hscores x hx
    rwa [ofDocument?_eq_some_iff.mp hxy] at hscore
  -- pages of one document are ordered by their numbers only
  have horder : ∀ a b x y, ofDocument? (file.inside root) a = some x →
      ofDocument? (file.inside root) b = some y → Scored.order pageLe a b =
        Scored.order (fun a b => decide (a.1.value ≤ b.1.value)) x y := by
    intro a b x y hx hy
    rw [ofDocument?_eq_some_iff.mp hx, ofDocument?_eq_some_iff.mp hy]
    simp [Scored.order, lexLe, Scored.above, pageLe]
  have hshort : ((Loaded.mk (.ofRoot root file) vectors records).fileResults
      request).length ≤ wanted.limit := by
    refine ((List.length_filterMap_le _ _).trans ?_).trans hwanted
    exact List.length_zip.trans_le (min_le_left _ _)
  rw [Loaded.directoryChunks_eq hscores hlimit, Loaded.fileChunks, hresults, best_eq _ _ hnumbers,
    List.take_of_length_le (by rwa [List.length_mergeSort]),
    ← filterMap_directoryResults request hin, ← Ranks.filterMap_mergeSort (ranks_order ranks_pageLe)
      (ranks_order (ranks_page Prod.fst)) horder]
  rw [List.filter_map, List.map_map, List.map_filterMap, ← List.filterMap_eq_map,
    ← List.filterMap_eq_filter, List.filterMap_filterMap]
  refine List.filterMap_congr fun x hx => ?_
  have hpath := Loaded.path_of_mem_directoryResults hnamed (List.mem_mergeSort.mp hx)
  have hsame : documentPath root x.item.1 = file ↔ x.item.1 = file.inside root := by
    constructor
    · intro hdocument
      exact hpath.documentPath_inj hcanonical (hdocument.trans hfile.symm)
    · intro hinside
      rw [hinside, hfile]
  have hroot : (Position.ofRoot root directory).root = root := rfl
  by_cases hinside : x.item.1 = file.inside root
  · simp [ofDocument?, hinside, hfile, hroot, Scored.map, Option.guard]
  · simp [ofDocument?, hinside, hsame, hroot, Option.guard]

end Document

/-! ## The documents by their best pages -/

theorem bestScore?_append_singleton (query vector : Embedding) (vectors : List Embedding) :
    bestScore? query (vectors ++ [vector]) = match bestScore? query vectors with
      | some other => some (if dot query vector > other then dot query vector else other)
      | none => some (dot query vector) := by
  unfold bestScore?
  rw [List.foldl_append]
  rfl

theorem bestScore?_eq_none_iff {query : Embedding} {vectors : List Embedding} :
    bestScore? query vectors = none ↔ vectors = [] := by
  induction vectors using List.reverseRecOn with
  | nil => simp [bestScore?]
  | append_singleton vectors vector ih =>
    rw [bestScore?_append_singleton]
    cases bestScore? query vectors <;> simp

theorem bestScore?_spec {query : Embedding} {vectors : List Embedding} {score : Float}
    (hscores : ∀ vector ∈ vectors, (dot query vector).isNaN = false)
    (hbest : bestScore? query vectors = some score) :
    (∃ vector ∈ vectors, dot query vector = score) ∧
      ∀ vector ∈ vectors, Decimal.rank (dot query vector) ≤ Decimal.rank score := by
  induction vectors using List.reverseRecOn generalizing score with
  | nil => cases hbest
  | append_singleton vectors vector ih =>
    have hvector := hscores vector (by simp)
    rw [bestScore?_append_singleton] at hbest
    cases hrest : bestScore? query vectors with
    | none =>
      rw [hrest] at hbest
      obtain rfl := bestScore?_eq_none_iff.mp hrest
      obtain rfl := Option.some.inj hbest
      simp
    | some other =>
      rw [hrest] at hbest
      obtain rfl := Option.some.inj hbest
      obtain ⟨⟨before, hbefore, rfl⟩, hgreatest⟩ := ih (fun v hv => hscores v (by simp [hv])) hrest
      have hother := hscores before (by simp [hbefore])
      simp only [gt_iff_lt, Decimal.lt_iff_rank_lt hother hvector]
      split
      · rename_i hlt
        refine ⟨⟨vector, by simp, rfl⟩, fun v hv => ?_⟩
        rcases List.mem_append.mp hv with hv | hv
        · exact (hgreatest v hv).trans hlt.le
        · rw [List.mem_singleton.mp hv]
      · rename_i hge
        refine ⟨⟨before, by simp [hbefore], rfl⟩, fun v hv => ?_⟩
        rcases List.mem_append.mp hv with hv | hv
        · exact hgreatest v hv
        · rw [List.mem_singleton.mp hv]
          exact not_lt.mp hge

section Catalogue

variable {α : Type}

theorem keys_addTo (groups : List (Text × List α)) (key : Text) (item : α) :
    (addTo groups key item).map Prod.fst = if key ∈ groups.map Prod.fst then groups.map Prod.fst
      else groups.map Prod.fst ++ [key] := by
  have hany : groups.any (·.1 == key) = true ↔ key ∈ groups.map Prod.fst := by
    simp [List.any_eq_true]
  unfold addTo
  by_cases hkey : key ∈ groups.map Prod.fst
  · rw [if_pos (hany.mpr hkey), if_pos hkey, List.map_map]
    refine List.map_congr_left fun group _ => ?_
    rcases group with ⟨k, items⟩
    by_cases hk : k = key <;> simp [hk]
  · rw [if_neg (hany.not.mpr hkey), if_neg hkey, List.map_append]
    rfl

theorem nodup_keys_collect (pairs : List (Text × α)) : ((collect pairs).map Prod.fst).Nodup := by
  induction pairs using List.reverseRecOn with
  | nil => exact List.nodup_nil
  | append_singleton pairs pair ih =>
    obtain ⟨key, item⟩ := pair
    rw [collect_append_singleton, keys_addTo]
    split
    · exact ih
    · rename_i hkey
      rw [← List.concat_eq_append]
      exact ih.concat hkey

theorem nodup_keys_positionsByPath (records : List Record) :
    ((positionsByPath records).map Prod.fst).Nodup := by
  rw [positionsByPath, List.map_map]
  exact nodup_keys_collect _

theorem positions_of_mem {records : List Record}
    (hmem : (path, positions) ∈ positionsByPath records) :
    positions = (positionsOf records path).mergeSort fun a b => a.2.value ≤ b.2.value := by
  rw [← lookup_positionsByPath, FileTree.lookup_of_mem (nodup_keys_positionsByPath records) hmem]
  rfl

theorem exists_mem_positionsByPath {records : List Record} (hsome : positionsOf records path ≠ []) :
    ∃ positions, (path, positions) ∈ positionsByPath records := by
  cases hlookup : (positionsByPath records).lookup path with
  | none =>
    have hempty := lookup_positionsByPath records path
    rw [hlookup, Option.getD_none] at hempty
    have hlength := congrArg List.length hempty
    rw [List.length_mergeSort, List.length_nil] at hlength
    exact absurd (List.length_eq_zero_iff.mp hlength.symm) hsome
  | some positions =>
    obtain ⟨before, after, hgroups, -⟩ := List.lookup_eq_some_iff.mp hlookup
    exact ⟨positions, by simp [hgroups]⟩

end Catalogue

namespace Loaded

variable {loaded : Loaded} {request : Request} { recursive : Bool}

theorem mem_filterMap_positions_iff
    (hmem : (path, positions) ∈ positionsByPath loaded.records) {vector : Embedding} :
    vector ∈ positions.filterMap (fun (i, _) => loaded.vectors[i]?) ↔
      ∃ r page, (r, vector) ∈ loaded.records.zip loaded.vectors ∧ r.path? = some path ∧
        r.page? = some page := by
  have hsame := filterMap_positionsOf loaded.records loaded.vectors path fun _ v => v
  simp only [Option.map_id_fun', id_eq] at hsame
  have hsorted : vector ∈ positions.filterMap (fun (i, _) => loaded.vectors[i]?) ↔
      vector ∈ (positionsOf loaded.records path).filterMap fun (i, _) => loaded.vectors[i]? := by
    rw [positions_of_mem hmem]
    simp only [List.mem_filterMap, List.mem_mergeSort]
  rw [hsorted, hsame, List.mem_filterMap]
  simp only [Prod.exists, Option.ite_none_right_eq_some, beq_iff_eq, Option.map_eq_some_iff]
  constructor
  · rintro ⟨r, v, hmem, hpath, page, hpage, rfl⟩
    exact ⟨r, page, hmem, hpath, hpage⟩
  · rintro ⟨r, page, hmem, hpath, hpage⟩
    exact ⟨r, vector, hmem, hpath, page, hpage, rfl⟩

theorem fileResult?_spec (hscores : Numbered (loaded.directoryResults request recursive))
    (hmem : (path, positions) ∈ positionsByPath loaded.records) {y : Scored Path}
    (hy : loaded.fileResult? request recursive (path, positions) = some y) :
    y.item = documentPath loaded.position.root path ∧
      (∃ x ∈ loaded.directoryResults request recursive, x.item.1 = path ∧ x.score = y.score) ∧
      ∀ x ∈ loaded.directoryResults request recursive, x.item.1 = path →
        Decimal.rank x.score ≤ Decimal.rank y.score := by
  obtain ⟨hin, hy⟩ := Option.ite_none_right_eq_some.mp hy
  obtain ⟨score, hbest, rfl⟩ := Option.map_eq_some_iff.mp hy
  have hnumbers : ∀ vector ∈ positions.filterMap (fun (i, _) => loaded.vectors[i]?),
      (dot (embed request.query) vector).isNaN = false := by
    intro vector hvector
    obtain ⟨r, page, hr, hpath, hpage⟩ := (mem_filterMap_positions_iff hmem).mp hvector
    have hscore := hscores _ (mem_directoryResults_of_record hr hpath hpage hin)
    exact hscore
  obtain ⟨⟨vector, hvector, rfl⟩, hgreatest⟩ := bestScore?_spec hnumbers hbest
  refine ⟨rfl, ?_, ?_⟩
  · obtain ⟨r, page, hr, hpath, hpage⟩ := (mem_filterMap_positions_iff hmem).mp hvector
    exact ⟨_, mem_directoryResults_of_record hr hpath hpage hin, rfl, rfl⟩
  · rintro x hx rfl
    obtain ⟨r, vector', path', page, hr, hpath, hpage, -, rfl⟩ := mem_directoryResults.mp hx
    exact hgreatest vector' ((mem_filterMap_positions_iff hmem).mpr ⟨r, page, hr, hpath, hpage⟩)

theorem exists_documentResult (hx : x ∈ loaded.directoryResults request recursive) :
    ∃ y ∈ loaded.documentResults request recursive,
      y.item = documentPath loaded.position.root x.item.1 := by
  obtain ⟨r, vector, path, page, hr, hpath, hpage, hin, rfl⟩ := mem_directoryResults.mp hx
  have hvectors := filterMap_positionsOf loaded.records loaded.vectors path fun _ v => v
  have hsome : positionsOf loaded.records path ≠ [] := by
    intro hnone
    rw [hnone, List.filterMap_nil] at hvectors
    have hlost := List.filterMap_eq_nil_iff.mp hvectors.symm (r, vector) hr
    simp [hpath, hpage] at hlost
  obtain ⟨positions, hmem⟩ := exists_mem_positionsByPath hsome
  cases hbest : bestScore? (embed request.query)
      (positions.filterMap fun (i, _) => loaded.vectors[i]?) with
  | none =>
    have hvector := (mem_filterMap_positions_iff hmem).mpr ⟨r, page, hr, hpath, hpage⟩
    rw [bestScore?_eq_none_iff.mp hbest] at hvector
    cases hvector
  | some score =>
    refine ⟨⟨score, documentPath loaded.position.root path⟩,
      List.mem_filterMap.mpr ⟨(path, positions), hmem, ?_⟩, rfl⟩
    rw [fileResult?, if_pos hin, hbest]
    rfl

theorem nodup_documentResults (hnamed : Named loaded.records)
    (hscores : Numbered (loaded.directoryResults request recursive)) :
    ((loaded.documentResults request recursive).map (·.item)).Nodup := by
  have hkeys := nodup_keys_positionsByPath loaded.records
  rw [List.Nodup, List.pairwise_map] at hkeys
  rw [List.Nodup, List.pairwise_map, documentResults, List.pairwise_filterMap]
  refine hkeys.imp_of_mem ?_
  rintro ⟨path, positions⟩ ⟨other, positions'⟩ hmem hmem' hne y hy y' hy' hsame
  obtain ⟨hitem, ⟨x, hx, rfl, -⟩, -⟩ := fileResult?_spec hscores hmem hy
  obtain ⟨hitem', ⟨x', hx', rfl, -⟩, -⟩ := fileResult?_spec hscores hmem' hy'
  rw [hitem, hitem'] at hsame
  exact hne ((path_of_mem_directoryResults hnamed hx).documentPath_inj
    (path_of_mem_directoryResults hnamed hx') hsame)

/-- Two documents of a directory by their best pages: by the score, then by the path. -/
def Ahead (loaded : Loaded) (request : Request) ( recursive : Bool) (p q : Path) : Prop :=
  ∃ a ∈ loaded.directoryResults request recursive,
    documentPath loaded.position.root a.item.1 = p ∧
      ∀ b ∈ loaded.directoryResults request recursive,
        documentPath loaded.position.root b.item.1 = q →
          lexLe Scored.above (fun a b => textLe a.item.1 b.item.1) a b = true

theorem pairwise_chunks :
    (((loaded.directoryResults request recursive).mergeSort (Scored.order pageLe)).map
      fun x => documentPath loaded.position.root x.item.1).eraseDups.Pairwise
        (loaded.Ahead request recursive) := by
  have horder := ranks_order ranks_pageLe
  refine (pairwise_eraseDups_map _ (List.pairwise_mergeSort horder.trans horder.total _)).imp ?_
  rintro p q ⟨a, ha, hp, hfirst⟩
  refine ⟨a, List.mem_mergeSort.mp ha, hp, fun b hb hq => ?_⟩
  have hab := hfirst b (List.mem_mergeSort.mpr hb) hq
  rw [Scored.order, pageLe_eq] at hab
  simp only [lexLe, Bool.and_eq_true, Bool.or_eq_true] at hab ⊢
  exact ⟨hab.1, hab.2.imp id And.left⟩

theorem pairwise_documents (hnamed : Named loaded.records)
    (hscores : Numbered (loaded.directoryResults request recursive)) :
    (((loaded.documentResults request recursive).mergeSort (Scored.order Path.le)).map
      (·.item)).Pairwise (loaded.Ahead request recursive) := by
  have horder : Ranks (Scored.order Path.le) := ranks_order (ranks_textLe Path.text)
  rw [List.pairwise_map]
  refine (List.pairwise_mergeSort horder.trans horder.total _).imp_of_mem ?_
  intro y y' hy hy' hle
  obtain ⟨⟨path, positions⟩, hmem, hy⟩ := List.mem_filterMap.mp (List.mem_mergeSort.mp hy)
  obtain ⟨⟨other, positions'⟩, hmem', hy'⟩ := List.mem_filterMap.mp (List.mem_mergeSort.mp hy')
  obtain ⟨hitem, ⟨a, ha, rfl, hscore⟩, -⟩ := fileResult?_spec hscores hmem hy
  obtain ⟨hitem', ⟨a', ha', rfl, -⟩, hgreatest⟩ := fileResult?_spec hscores hmem' hy'
  have hpath := path_of_mem_directoryResults hnamed ha
  have hpath' := path_of_mem_directoryResults hnamed ha'
  refine ⟨a, ha, hitem.symm, fun b hb hbitem => ?_⟩
  have hb' : b.item.1 = a'.item.1 :=
    (path_of_mem_directoryResults hnamed hb).documentPath_inj hpath' (hbitem.trans hitem')
  have hlow := hgreatest b hb hb'
  simp only [Scored.order, lexLe, hitem, hitem', hpath.le_documentPath hpath', Scored.above,
    Bool.and_eq_true, Bool.or_eq_true, Bool.not_eq_true', decide_eq_true_eq,
    decide_eq_false_iff_not] at hle ⊢
  rw [hscore, hb']
  exact ⟨hlow.trans hle.1, hle.2.imp (fun hlt hge => hlt (hge.trans hlow)) id⟩

theorem ahead_antisymm {p q : Path} (hpq : loaded.Ahead request recursive p q)
    (hqp : loaded.Ahead request recursive q p) : p = q := by
  obtain ⟨a, ha, rfl, hfirst⟩ := hpq
  obtain ⟨b, hb, rfl, hsecond⟩ := hqp
  have hab := hfirst b hb rfl
  have hba := hsecond a ha rfl
  simp only [lexLe, Bool.and_eq_true, Bool.or_eq_true, Bool.not_eq_true', textLe,
    decide_eq_false_iff_not, List.not_lt] at hab hba
  rw [List.le_antisymm (hab.2.resolve_left (by simp [hba.1]))
    (hba.2.resolve_left (by simp [hab.1]))]

/-- The first appearances of the documents in the ranking of a directory are the
ranking of the documents. -/
theorem directoryFiles_eq {wanted : Request} (hquery : wanted.query = request.query)
    (hlimit : loaded.records.length ≤ request.limit) (hnamed : Named loaded.records)
    (hscores : Numbered (loaded.directoryResults request recursive)) :
    loaded.directoryFiles wanted recursive =
      (((loaded.directoryChunks request recursive).map Prod.fst).eraseDups).take wanted.limit := by
  have hresults : loaded.documentResults wanted recursive =
      loaded.documentResults request recursive := by
    have hsame : loaded.fileResult? wanted recursive = loaded.fileResult? request recursive := by
      funext entry
      rw [fileResult?, fileResult?, hquery]
    rw [documentResults, documentResults, hsame]
  have hnumbers : Numbered (loaded.documentResults request recursive) := by
    intro y hy
    obtain ⟨⟨path, positions⟩, hmem, hy⟩ := List.mem_filterMap.mp hy
    obtain ⟨-, ⟨x, hx, -, hscore⟩, -⟩ := fileResult?_spec hscores hmem hy
    rw [← hscore]
    exact hscores x hx
  rw [directoryFiles, hresults, best_eq _ _ hnumbers, directoryChunks_eq hscores hlimit,
    List.map_take, List.map_map]
  congr 1
  refine List.Perm.eq_of_pairwise (fun p q _ _ => ahead_antisymm)
    (pairwise_documents hnamed hscores) pairwise_chunks ?_
  refine (List.perm_ext_iff_of_nodup ?_ (nodup_eraseDups _)).mpr fun p => ?_
  · refine ((List.mergeSort_perm _ _).map _).nodup_iff.mpr (nodup_documentResults hnamed hscores)
  · simp only [List.mem_eraseDups, List.mem_map, List.mem_mergeSort]
    constructor
    · rintro ⟨y, hy, rfl⟩
      obtain ⟨⟨path, positions⟩, hmem, hy⟩ := List.mem_filterMap.mp hy
      obtain ⟨hitem, ⟨x, hx, rfl, -⟩, -⟩ := fileResult?_spec hscores hmem hy
      exact ⟨x, hx, hitem.symm⟩
    · rintro ⟨x, hx, rfl⟩
      exact exists_documentResult hx

end Loaded

end Folio.Index
