import Folio.Proofs.PreparedIndex
import Folio.Proofs.StableOrder

/-!
# What searches rank

Every search loads the vectors and the records of the index that covers its path
and then ranks what it has loaded, without another look at the files.  So two
searches of one path end alike, and it is enough to compare their rankings.

The pages of a document are ranked in two ways: by a catalogue that has its pages
in order, sorted by the scores alone, or by going through all records, sorted by
scores and pages.  Both give the same pages.
-/

namespace Folio

open Action

section Endings

variable {σ ε α β γ : Type}

theorem Ending.andThen_finished (f : α → β) (x : σ × Ending ε α) :
    Ending.andThen (fun s a => (s, .finished (f a))) x = (x.1, x.2.map f) := by
  rcases x with ⟨s, a | e | ⟨phase, count⟩ | _⟩ <;> rfl

theorem Ending.andThen_assoc (f : σ → α → σ × Ending ε β) (g : σ → β → σ × Ending ε γ)
    (x : σ × Ending ε α) : Ending.andThen g (Ending.andThen f x) =
      Ending.andThen (fun s a => Ending.andThen g (f s a)) x := by
  rcases x with ⟨s, a | e | ⟨phase, count⟩ | _⟩ <;> rfl

theorem Ending.map_map (f : α → β) (g : β → γ) (x : Ending ε α) :
    (x.map f).map g = x.map fun v => g (f v) := by
  cases x <;> rfl

theorem Ending.map_congr {x : Ending ε α} {f g : α → β}
    (hsame : ∀ v, x = .finished v → f v = g v) : x.map f = x.map g := by
  cases x with
  | finished v => exact congrArg Ending.finished (hsame v rfl)
  | _ => rfl

theorem Ending.map_eq_finished_iff {x : Ending ε α} {f : α → β} {w : β} :
    x.map f = .finished w ↔ ∃ v, x = .finished v ∧ f v = w := by
  cases x <;> simp [Ending.map]

end Endings

namespace Index

/-! ## The best results -/

section Best

variable {α β : Type}

def Scored.above (a b : Scored α) : Bool :=
  decide (Decimal.rank b.score ≤ Decimal.rank a.score)

/-- The order of results: by their scores, then by their items. -/
def Scored.order (le : α → α → Bool) : Scored α → Scored α → Bool :=
  lexLe Scored.above fun a b => le a.item b.item

theorem ranks_above : Ranks (Scored.above : Scored α → Scored α → Bool) where
  trans a b c hab hbc := by
    simp only [Scored.above, decide_eq_true_eq] at *
    exact hbc.trans hab
  total a b := by simpa [Scored.above] using le_total (Decimal.rank b.score) (Decimal.rank a.score)

theorem ranks_order {le : α → α → Bool} (hle : Ranks le) : Ranks (Scored.order le) :=
  ranks_above.lexLe ⟨fun a b c => hle.trans a.item b.item c.item,
    fun a b => hle.total a.item b.item⟩

def Numbered (results : List (Scored α)) : Prop :=
  ∀ x ∈ results, x.score.isNaN = false

theorem best_eq (le : α → α → Bool) (limit : Nat) {results : List (Scored α)}
    (hscores : Numbered results) : best le limit results =
      ((results.mergeSort (Scored.order le)).take limit).map (·.item) := by
  have hcompare : ∀ a ∈ results, ∀ b ∈ results, (if a.score > b.score then true
        else if a.score < b.score then false else le a.item b.item) =
        Scored.order le (id a) (id b) := by
    intro a ha b hb
    simp only [gt_iff_lt, Decimal.lt_iff_rank_lt (hscores a ha) (hscores b hb),
      Decimal.lt_iff_rank_lt (hscores b hb) (hscores a ha), Scored.order, lexLe, Scored.above, id]
    rcases lt_trichotomy (Decimal.rank a.score) (Decimal.rank b.score) with h | h | h
    · simp [h, h.not_gt, h.not_ge]
    · simp [h]
    · simp [h, h.le, h.not_ge]
  have hsorted := List.map_mergeSort hcompare
  rw [List.map_id, List.map_id] at hsorted
  rw [best, hsorted]

theorem ranks_page (page : α → Numeral) :
    Ranks fun a b => decide ((page a).value ≤ (page b).value) where
  trans a b c hab hbc := by
    simp only [decide_eq_true_eq] at *
    omega
  total a b := by
    simp only [Bool.or_eq_true, decide_eq_true_eq]
    omega

end Best

/-! ## What a search has loaded -/

/-- A position in an index, and the vectors and records of the index. -/
structure Loaded where
  position : Position
  vectors : List Embedding
  records : List Record

def loadIndex (base path : Path) : TreeAction Loaded := do
  let p ← position base path
  let vectors ← loadVectors p.db
  let records ← loadRecords p.db
  return ⟨p, vectors, records⟩

theorem result_embedQuery (query : Text) (tree : FileTree) :
    (embedQuery query).result tree = (tree, .finished (embed query)) := by
  unfold embedQuery
  rw [result_bind_of_finished (result_embedAll [query] tree)]
  rfl

theorem result_loadCatalogue_eq (db : Path) (tree : FileTree) :
    (loadCatalogue db).result tree = Ending.andThen (fun t records =>
      (t, .finished ⟨pagesByPath records, positionsByPath records⟩))
        ((loadRecords db).result tree) := by
  unfold loadCatalogue
  rw [result_bind]
  congr 1
  funext t records
  rw [result_bind_of_finished (result_checkTimes _ _ _),
    result_bind_of_finished (result_checkTimes _ _ _)]
  rfl

/-- An action that loads an index and then comes to a value without a further look
at the tree ends as the loading does. -/
theorem result_of_loadIndex {α : Type} {base path : Path} {a : TreeAction α}
    {g : Position → List Embedding → TreeAction α} {f : Loaded → α} (ha : a = do
      let p ← position base path
      let vectors ← loadVectors p.db
      g p vectors) (hg : ∀ p vectors tree, (g p vectors).result tree = Ending.andThen
      (fun t records => (t, .finished (f ⟨p, vectors, records⟩))) ((loadRecords p.db).result tree))
        (tree : FileTree) : a.result tree =
      (((loadIndex base path).result tree).1, ((loadIndex base path).result tree).2.map f) := by
  subst ha
  rw [← Ending.andThen_finished, loadIndex]
  simp only [result_bind, Ending.andThen_assoc, hg, result_pure]
  rfl

/-! ## The rankings -/

namespace Loaded

variable (loaded : Loaded) (request : Request) ( recursive : Bool)

/-- The ranking of the pages of a document, by the catalogue. -/
def filePages : List Numeral :=
  best (fun _ _ => true) request.limit
    ((((positionsByPath loaded.records).lookup loaded.position.inside).getD []).filterMap
      fun (i, page) => loaded.vectors[i]?.map fun vector =>
        Scored.mk (dot (embed request.query) vector) page)

/-- The results of a search in a document, in the order of the records. -/
def fileResults : List (Scored (Numeral × Text)) :=
  (loaded.records.zip loaded.vectors).filterMap fun (r, vector) =>
    if r.path? == some loaded.position.inside then
      r.page?.map fun page => Scored.mk (dot (embed request.query) vector) (page, r.text)
    else none

/-- The ranking of the pages of a document with their texts. -/
def fileChunks : List (Numeral × Text) :=
  best (fun a b => a.1.value ≤ b.1.value) request.limit (loaded.fileResults request)

/-- The results of a search in a directory, in the order of the records. -/
def directoryResults : List (Scored (Text × Numeral × Text)) :=
  (loaded.records.zip loaded.vectors).filterMap fun (r, vector) => do
    let path ← r.path?
    let page ← r.page?
    if isInFolder recursive loaded.position.folder path then
      return Scored.mk (dot (embed request.query) vector) (path, page, r.text)
    else none

/-- The ranking of the pages in a directory with their texts. -/
def directoryChunks : List (Path × Numeral × Text) :=
  (best (fun a b => if a.1 == b.1 then a.2.1.value ≤ b.2.1.value else a.1 < b.1)
    request.limit (loaded.directoryResults request recursive)).map
      fun (path, page, text) => (documentPath loaded.position.root path, page, text)

/-- A document of the catalogue as a result of a search in a directory. -/
def fileResult? : Text × List (Nat × Numeral) → Option (Scored Path)
  | (path, positions) =>
    if isInFolder recursive loaded.position.folder path then
      (bestScore? (embed request.query)
        (positions.filterMap fun (i, _) => loaded.vectors[i]?)).map
          fun score => Scored.mk score (documentPath loaded.position.root path)
    else none

/-- The documents in a directory with their best scores, in the order of the
catalogue. -/
def documentResults : List (Scored Path) :=
  (positionsByPath loaded.records).filterMap (loaded.fileResult? request recursive)

/-- The ranking of the documents in a directory, by the catalogue. -/
def directoryFiles : List Path :=
  best Path.le request.limit (loaded.documentResults request recursive)

end Loaded

section Results

variable (base path : Path) (request : Request) ( recursive : Bool) (tree : FileTree)

theorem result_searchFilePages : (searchFilePages base path request).result tree =
      (((loadIndex base path).result tree).1,
        ((loadIndex base path).result tree).2.map (·.filePages request)) := by
  refine result_of_loadIndex rfl (fun p vectors t => ?_) tree
  rw [result_bind, result_loadCatalogue_eq]
  rcases (loadRecords p.db).result t with ⟨u, records | e | ⟨phase, count⟩ | _⟩
  · simp only [Ending.andThen]
    rw [result_bind_of_finished (result_embedQuery _ _),
      result_bind_of_finished (result_checkTimes _ _ _)]
    simp [Loaded.filePages, result_pure]
  all_goals rfl

theorem result_searchFileChunks : (searchFileChunks base path request).result tree =
      (((loadIndex base path).result tree).1,
        ((loadIndex base path).result tree).2.map (·.fileChunks request)) := by
  refine result_of_loadIndex rfl (fun p vectors t => ?_) tree
  rw [result_bind]
  congr 1
  funext u records
  rw [result_bind_of_finished (result_embedQuery _ _),
    result_bind_of_finished (result_checkTimes _ _ _)]
  rfl

theorem result_searchDirectoryChunks :
    (searchDirectoryChunks base path request recursive).result tree =
      (((loadIndex base path).result tree).1, ((loadIndex base path).result tree).2.map
          (·.directoryChunks request recursive)) := by
  refine result_of_loadIndex rfl (fun p vectors t => ?_) tree
  rw [result_bind]
  congr 1
  funext u records
  rw [result_bind_of_finished (result_embedQuery _ _),
    result_bind_of_finished (result_checkTimes _ _ _)]
  rfl

theorem result_searchDirectoryFiles :
    (searchDirectoryFiles base path request recursive).result tree =
      (((loadIndex base path).result tree).1, ((loadIndex base path).result tree).2.map
          (·.directoryFiles request recursive)) := by
  refine result_of_loadIndex rfl (fun p vectors t => ?_) tree
  rw [result_bind, result_loadCatalogue_eq]
  rcases (loadRecords p.db).result t with ⟨u, records | e | ⟨phase, count⟩ | _⟩
  · simp only [Ending.andThen]
    rw [result_bind_of_finished (result_embedQuery _ _),
      result_bind_of_finished (result_mapList_of_eq
        (g := Loaded.fileResult? ⟨p, vectors, records⟩ request recursive) ?_ _), result_pure,
      List.filterMap_map, Function.id_comp, Loaded.directoryFiles, Loaded.documentResults]
    rintro ⟨path, positions⟩
    rw [result_bind_of_finished (result_check _ _)]
    simp only [Loaded.fileResult?]
    split
    · rw [result_bind_of_finished (result_checkTimes _ _ _)]
      simp [result_pure]
    · rfl
  all_goals rfl

end Results

/-! ## The pages of a document -/

/-- Where the numbered pages of a document stand among the records. -/
def positionsOf (records : List Record) (path : Text) : List (Nat × Numeral) :=
  records.zipIdx.filterMap fun (r, i) =>
    if r.path? == some path then r.page?.map (i, ·) else none

theorem lookup_positionsByPath (records : List Record) (path : Text) :
    ((positionsByPath records).lookup path).getD [] =
      (positionsOf records path).mergeSort fun a b => a.2.value ≤ b.2.value := by
  have hpairs : ((records.zipIdx.filterMap fun (r, i) => do
      let path ← r.path?
      let page ← r.page?
      return (path, (i, page))).filter (·.1 == path)).map Prod.snd = positionsOf records path := by
    rw [← List.filterMap_eq_filter, List.filterMap_filterMap, List.map_filterMap, positionsOf]
    congr 1
    funext ⟨r, i⟩
    cases hpath : r.path? with
    | none => simp [hpath]
    | some other =>
      cases hpage : r.page? with
      | none => by_cases h : other = path <;> simp [hpath, hpage, h]
      | some page => by_cases h : other = path <;> simp [Option.guard, hpath, hpage, h]
  rw [positionsByPath, lookup_map_snd fun positions : List (Nat × Numeral) =>
    positions.mergeSort fun a b => a.2.value ≤ b.2.value, lookup_collect, hpairs]
  cases positionsOf records path <;> simp

theorem filterMap_zipIdx {α β γ : Type} (f : α → β → Option γ) (items : List α) (values : List β)
    (k : Nat) : ((items.zipIdx k).filterMap fun (a, i) => values[i]?.bind (f a)) =
      (items.zip (values.drop k)).filterMap fun (a, b) => f a b := by
  induction items generalizing k with
  | nil => simp
  | cons a items ih =>
    rw [List.zipIdx_cons, List.filterMap_cons]
    by_cases hk : k < values.length
    · rw [List.drop_eq_getElem_cons hk, List.zip_cons_cons, List.filterMap_cons, ih (k + 1)]
      simp [hk]
    · have hend := ih (k + 1)
      rw [List.drop_of_length_le (by omega), List.zip_nil_right] at hend
      rw [List.drop_of_length_le (by omega), List.zip_nil_right]
      simpa [List.getElem?_eq_none (Nat.le_of_not_lt hk)] using hend

theorem filterMap_positionsOf {γ : Type} (records : List Record) (vectors : List Embedding)
    (path : Text) (g : Numeral → Embedding → γ) :
    ((positionsOf records path).filterMap fun (i, page) => vectors[i]?.map (g page)) =
      (records.zip vectors).filterMap fun (r, vector) =>
        if r.path? == some path then r.page?.map (g · vector) else none := by
  have hzip := filterMap_zipIdx (fun (r : Record) vector =>
    if r.path? == some path then r.page?.map (g · vector) else none) records vectors 0
  rw [List.drop_zero] at hzip
  rw [positionsOf, List.filterMap_filterMap, ← hzip]
  congr 1
  funext ⟨r, i⟩
  cases hvector : vectors[i]? <;> cases hpage : r.page? <;>
    by_cases hpath : r.path? = some path <;> simp [hvector, hpage, hpath]

def Scored.map {α β : Type} (f : α → β) (x : Scored α) : Scored β :=
  ⟨x.score, f x.item⟩

theorem map_best {α β : Type} (le : β → β → Bool) (f : α → β) (limit : Nat)
    (results : List (Scored α)) : (best (fun a b => le (f a) (f b)) limit results).map f =
      best le limit (results.map (Scored.map f)) := by
  rw [best, best, ← List.map_mergeSort (f := Scored.map f) fun _ _ _ _ => Eq.refl _,
    ← List.map_take, List.map_map, List.map_map]
  rfl

namespace Loaded

variable (loaded : Loaded) (request : Request)

theorem map_fst_fileResults : (loaded.fileResults request).map (Scored.map Prod.fst) =
      (loaded.records.zip loaded.vectors).filterMap fun (r, vector) =>
        if r.path? == some loaded.position.inside then
          r.page?.map (Scored.mk (dot (embed request.query) vector) ·)
        else none := by
  rw [fileResults, List.map_filterMap]
  congr 1
  funext ⟨r, vector⟩
  cases hpage : r.page? <;> by_cases hpath : r.path? = some loaded.position.inside <;>
    simp [hpage, hpath, Scored.map]

theorem filePages_eq (hscores : Numbered (loaded.fileResults request)) :
    loaded.filePages request = (loaded.fileChunks request).map Prod.fst := by
  have hnumbers : Numbered ((loaded.fileResults request).map (Scored.map Prod.fst)) := by
    intro x hx
    obtain ⟨y, hy, rfl⟩ := List.mem_map.mp hx
    exact hscores y hy
  have horder : Scored.order (fun _ _ : Numeral => true) = Scored.above := by
    funext a b
    simp [Scored.order, lexLe]
  rw [fileChunks, map_best (fun a b : Numeral => a.value ≤ b.value) Prod.fst, filePages,
    lookup_positionsByPath, Ranks.filterMap_mergeSort (ranks_page _)
    (ranks_page fun x : Scored Numeral => x.item) ?_,
    filterMap_positionsOf loaded.records loaded.vectors loaded.position.inside fun page vector =>
      Scored.mk (dot (embed request.query) vector) page, ← map_fst_fileResults,
    best_eq _ _ hnumbers, best_eq, horder, ranks_above.mergeSort_mergeSort (ranks_page _)]
  · rfl
  · intro x hx
    exact hnumbers x (List.mem_mergeSort.mp hx)
  · rintro ⟨i, page⟩ ⟨j, other⟩ x y hx hy
    obtain ⟨v, -, rfl⟩ := Option.map_eq_some_iff.mp hx
    obtain ⟨w, -, rfl⟩ := Option.map_eq_some_iff.mp hy
    rfl

end Loaded

end Index

end Folio
