import Folio.Proofs.DirectoryRanking
import Folio.Proofs.GuardedShelf
import Folio.Proofs.InterruptedWriting

/-!
# Searches in an index that was made

The records of an index that was made have the paths of its documents, each in the
one way in which it is written.  This stays so while the index is searched: even
where its files are links to each other, a search that comes to an end has loaded
the records that were written, or none.  So the rankings of pages and documents
agree in every directory of the folder.

A document that is a link is found by a search in its directory, under its own
path.  A search in the document itself follows the link and looks for an index
where the link leads to.
-/

namespace Folio.Index

open Action TreeAction FileTree

variable {t : Text} {root place : Path} {readers : Readers} {later : FileTree}

/-! ## Records that were written -/

/-- A text that is left in the files of an index when it is made or repaired. -/
inductive IndexText (records : List Record) : Text → Prop
  | records : IndexText records (recordsText records)
  | vectors (vectors : List Embedding) : IndexText records (vectorsText vectors)
  | note : IndexText records metaText
  | marker : IndexText records markerText

theorem parse_markerText : ∃ e, Json.parse (Text.unixNewlines markerText) = .error e := by
  have herror : (Json.parse (Text.unixNewlines markerText)).isOk = false := by decide +kernel
  cases hparse : Json.parse (Text.unixNewlines markerText) with
  | error e => exact ⟨e, rfl⟩
  | ok value =>
    rw [hparse] at herror
    cases herror

theorem recordsOf?_of_isCurrent {value : Json} (hcurrent : isCurrent value = true) :
    recordsOf? value = none := by
  cases value with
  | object fields => rfl
  | _ => cases hcurrent

theorem IndexText.records_of_read {records loaded : List Record} (htext : IndexText records t)
    (hstored : ∀ r ∈ records, Json.Stored (.object r.fields)) {tree : FileTree} {path : Path}
    (hread : tree.read path = .ok (.text t)) {value : Json} (hjson : readJson tree path = .ok value)
    (hloaded : recordsOf? value = some loaded) : loaded = records ∨ loaded = [] := by
  cases htext with
  | records =>
    rw [readJson_recordsText hread hstored] at hjson
    obtain rfl := Except.ok.inj hjson
    rw [recordsOf?_map] at hloaded
    exact .inl (Option.some.inj hloaded).symm
  | vectors vectors =>
    rw [readJson_eq_ok hread (Json.parse_rows true vectors)] at hjson
    obtain rfl := Except.ok.inj hjson
    rw [recordsOf?_rows] at hloaded
    exact .inr (Option.some.inj hloaded).symm
  | note =>
    obtain ⟨note, hparse, hcurrent⟩ := exists_parse_metaText
    rw [readJson_eq_ok hread hparse] at hjson
    obtain rfl := Except.ok.inj hjson
    rw [recordsOf?_of_isCurrent hcurrent] at hloaded
    cases hloaded
  | marker =>
    obtain ⟨e, hparse⟩ := parse_markerText
    simp only [readJson, hread, Content.strictText, hparse] at hjson
    cases hjson

/-- The file of the records holds a text of the index. -/
structure HoldsText (db : Path) (records : List Record) (tree : FileTree) : Prop where
  rooted : tree.Rooted
  read : ∃ t, tree.read (recordsFile db) = .ok (.text t) ∧ IndexText records t

theorem HoldsText.write {db path : Path} {records : List Record} {tree next : FileTree}
    (hholds : HoldsText db records tree) (htext : IndexText records t)
    (hwrite : tree.write path t = .ok next) : HoldsText db records next := by
  obtain ⟨place, hleads, rfl⟩ := exists_leads_of_write hholds.rooted hwrite
  obtain ⟨old, hread, hold⟩ := hholds.read
  obtain ⟨spot, hspot, hnode⟩ := exists_leads_of_read hread
  have hrooted := hleads.rooted_put hholds.rooted (.text t)
  have hafter := hspot.put hleads.free (.text t)
  refine ⟨hrooted, ?_⟩
  by_cases hsame : spot = place
  · subst hsame
    exact ⟨t, hafter.read_file hrooted (node?_put_self _ _ hleads.free.ne_nil), htext⟩
  · refine ⟨old, hafter.read_file hrooted ?_, hold⟩
    rw [node?_put_of_ne _ _ hsame, hnode]

theorem HoldsText.writes {db : Path} {records : List Record} {files : List (Name × Text)}
    {tree made : FileTree} (hholds : HoldsText db records tree)
    (hfiles : ∀ file ∈ files, IndexText records file.2)
    (hwrites : Writes db files tree made) : HoldsText db records made := by
  induction files generalizing tree with
  | nil => exact hwrites ▸ hholds
  | cons file files ih =>
    obtain ⟨next, hwrite, hrest⟩ := hwrites
    exact ih (hholds.write (hfiles file (by simp)) hwrite)
      (fun other hother => hfiles other (by simp [hother])) hrest

theorem holdsText_of_write {db : Path} {records : List Record} {tree next : FileTree}
    (hrooted : tree.Rooted) (htext : IndexText records t)
    (hwrite : tree.write (recordsFile db) t = .ok next) : HoldsText db records next := by
  obtain ⟨place, hleads, rfl⟩ := exists_leads_of_write hrooted hwrite
  have hnext := hleads.rooted_put hrooted (.text t)
  exact ⟨hnext, t, (hleads.put hleads.free _).read_file hnext
    (node?_put_self _ _ hleads.free.ne_nil), htext⟩

theorem HoldsText.records_of_loads {db : Path} {records loaded : List Record} {tree last : FileTree}
    (hholds : HoldsText db records tree) (hstored : ∀ r ∈ records, Json.Stored (.object r.fields))
    {vectors : List Embedding} (hvectors : (loadVectors db).result tree = (last, .finished vectors))
    (hrecords : (loadRecords db).result last = (last, .finished loaded)) :
    loaded = records ∨ loaded = [] := by
  have hkeeps : (loadVectors db).Keeps (HoldsText db records) 0 fun _ => True :=
    keeps_loadVectors (fun _ _ _ hholds => hholds.write (.vectors _))
      fun _ _ hholds => hholds.write .note
  have hlast := hkeeps.state_run hholds none
  rw [state_run_none, hvectors] at hlast
  obtain ⟨t, hread, htext⟩ := hlast.read
  obtain ⟨-, value, hjson, hloaded⟩ := lists_of_result hrecords
  exact htext.records_of_read hstored hread hjson hloaded

/-! ## The index that was made -/

theorem canonical_of_mem_below {tree : FileTree} (hsound : tree.Sound) {path : Path}
    (hpath : path ∈ tree.below root) : Canonical (path.inside root) := by
  unfold below at hpath
  split at hpath
  · rename_i place hplace
    split at hpath
    · obtain ⟨⟨spot, node⟩, hentry, hspot⟩ := List.mem_filterMap.mp hpath
      simp only [Option.ite_none_right_eq_some, Bool.and_eq_true, bne_iff_ne,
        List.isPrefixOf_iff_prefix, Option.some.injEq] at hspot
      obtain ⟨⟨⟨rest, rfl⟩, hne⟩, rfl⟩ := hspot
      refine ⟨rest, ?_, ?_, ?_⟩
      · rintro rfl
        simp at hne
      · intro name hname
        exact (hsound.named _ hentry name (by simp [hname])).toPlain
      · simp [Path.inside]
    · cases hpath
  · cases hpath

theorem canonical_inside {path : Path} (hpath : root.parts <+: path.parts)
    (hne : root.parts ≠ path.parts) (hplain : ∀ name ∈ path.parts, Name.Plain name) :
    Canonical (path.inside root) := by
  obtain ⟨rest, hrest⟩ := hpath
  refine ⟨rest, ?_, fun name hname => hplain name (by simp [← hrest, hname]), ?_⟩
  · rintro rfl
    exact hne (by simpa using hrest)
  · simp [Path.inside, ← hrest]

theorem InDirectory.ne_of_isPrefix {directory path : Path} { recursive : Bool}
    (hin : InDirectory recursive directory path)
    (hroot : root.parts <+: directory.parts) : root.parts ≠ path.parts := by
  intro hsame
  have hback : directory.parts = path.parts :=
    hin.isPrefix.eq_of_length_le (hsame ▸ hroot.length_le)
  unfold InDirectory at hin
  split at hin
  · exact hin.2 hback
  · have hlength := congrArg List.length (hin.1.trans hback)
    have hpos := List.length_pos_of_ne_nil hin.2
    rw [List.length_dropLast] at hlength
    omega

/-- An index as a search finds it. -/
structure Searchable (tree : FileTree) (root : Path) (records : List Record) : Prop where
  holds : HoldsText (root.child directoryName) records tree
  stored : ∀ r ∈ records, Json.Stored (.object r.fields)
  named : Named records

theorem Makes.searchable {tree made : FileTree} {found : List (Option (List (Record × Text)))}
    (hmakes : Makes readers root tree made found) (hsound : tree.Sound) (hlater : later.Rooted)
    (hkept : later.read (recordsFile (root.child directoryName)) =
      made.read (recordsFile (root.child directoryName))) :
    Searchable later root (recordsOf found) := by
  obtain ⟨begun, hbegun, hfound, hwrites⟩ := hmakes.exists_begun
  have hbegunSound := sound_makeDirectory hsound proper_directoryName hmakes.isDirectory hbegun
  refine ⟨⟨hlater, ?_⟩, stored_of_found hfound hmakes.short, ?_⟩
  · obtain ⟨next, hwrite, hrest⟩ := hwrites
    rw [hkept]
    refine HoldsText.read (HoldsText.writes
      (holdsText_of_write hbegunSound.rooted .records hwrite) ?_ hrest)
    intro file hfile
    simp only [List.mem_cons, List.not_mem_nil, or_false] at hfile
    rcases hfile with rfl | rfl | rfl
    · exact .vectors _
    · exact .note
    · exact .marker
  · intro r hr t ht
    obtain ⟨path, hpath, -, -, hr⟩ := exists_path_of_record hfound hr
    obtain rfl := Option.some.inj (hr.symm.trans ht)
    exact canonical_of_mem_below hbegunSound (List.mem_mergeSort.mp hpath)

/-! ## The index that is found -/

/-- A folder below another one, on the way down to a path. -/
structure OnTheWay (root path folder : Path) : Prop where
  below : root.parts <+: folder.parts
  ne : folder.parts ≠ root.parts
  above : folder.parts <+: path.parts

theorem OnTheWay.mono {directory folder : Path} (hway : OnTheWay root directory folder)
    (hlower : directory.parts <+: place.parts) :
    OnTheWay root place folder := ⟨hway.below, hway.ne, hway.above.trans hlower⟩

section Found

variable {later : FileTree} {root path place : Path} (base : Path)
  (hresolve : (TreeAction.resolve path).result later = (later, .finished place))

include hresolve

theorem result_position : (position base path).result later =
      (((findRoot base place).result later).1,
        ((findRoot base place).result later).2.map (Position.ofRoot · place)) := by
  unfold position
  rw [result_bind_of_finished hresolve, result_bind, ← Ending.andThen_finished]
  rfl

/-- The index of a folder is found from a path in it if there is no other one on the
way, unless a question on the way is refused. -/
theorem result_position_nearest (hbelow : root.parts <+: place.parts)
    (hnear : ∀ q, OnTheWay root place q → later.isDirectory? (q.child directoryName) ≠ .ok true)
    (hroot : later.isDirectory? (root.child directoryName) = .ok true) :
    (position base path).result later = (later, .finished (Position.ofRoot root place)) ∨
      ∃ q, OnTheWay root place q ∧ ∃ e, later.isDirectory? (q.child directoryName) = .error e ∧
        (position base path).result later = (later, .failed (.failure (.system e))) := by
  obtain ⟨near, far, hsplit, hway, -⟩ := exists_rootCandidates_append hbelow
  have hway : ∀ c ∈ near, OnTheWay root place c := fun c hc =>
    ⟨(hway c hc).1, (hway c hc).2.1, (hway c hc).2.2⟩
  rw [result_position base hresolve]
  unfold findRoot findRoot?
  rw [hsplit]
  rcases result_firstIndexed?_nearest far (fun c hc => hnear c (hway c hc))
    hroot with hfound | ⟨c, hc, e, hasked, hfailed⟩
  · rw [result_bind_of_finished hfound]
    exact .inl rfl
  · rw [result_bind_of_failed hfailed]
    exact .inr ⟨c, hway c hc, e, hasked, rfl⟩

theorem result_position_found (hbelow : root.parts <+: place.parts)
    (hnone : ∀ q, OnTheWay root place q → later.isDirectory? (q.child directoryName) = .ok false)
    (hroot : later.isDirectory? (root.child directoryName) = .ok true) :
    (position base path).result later = (later, .finished (Position.ofRoot root place)) := by
  rcases result_position_nearest base hresolve hbelow (fun q hq => by simp [hnone q hq])
    hroot with hfound | ⟨q, hq, e, hasked, -⟩
  · exact hfound
  · rw [hnone q hq] at hasked
    cases hasked

theorem result_position_refused {e : SystemError}
    (hasked : later.isDirectory? (place.child directoryName) = .error e) :
    (position base path).result later = (later, .failed (.failure (.system e))) := by
  have hfailed : (firstIndexed? (rootCandidates place)).result later =
      (later, .failed (.failure (.system e))) := by
    rw [rootCandidates, result_firstIndexed?_cons, hasked]
  rw [result_position base hresolve]
  unfold findRoot findRoot?
  rw [result_bind_of_failed hfailed]
  rfl

end Found

def loadParts (db : Path) : TreeAction (List Embedding × List Record) := do
  let vectors ← loadVectors db
  let records ← loadRecords db
  return (vectors, records)

theorem result_loadIndex {base path : Path} (hposition : (position base path).result later =
      (later, .finished (Position.ofRoot root place))) : (loadIndex base path).result later =
      (((loadParts (root.child directoryName)).result later).1,
        ((loadParts (root.child directoryName)).result later).2.map
          fun parts => ⟨.ofRoot root place, parts.1, parts.2⟩) := by
  unfold loadIndex loadParts
  rw [result_bind_of_finished hposition, ← Ending.andThen_finished]
  simp only [result_bind, Ending.andThen_assoc, result_pure]
  rfl

namespace Searchable

variable {later : FileTree} {root : Path} {records : List Record}

theorem isDirectory?_db (hsearchable : Searchable later root records) :
    later.isDirectory? (root.child directoryName) = .ok true := by
  obtain ⟨t, hread, -⟩ := hsearchable.holds.read
  exact isDirectory?_of_read_child hread

theorem of_loadParts (hsearchable : Searchable later root records)
    {parts : List Embedding × List Record}
    (hparts : ((loadParts (root.child directoryName)).result later).2 = .finished parts) :
    Named parts.2 ∧ parts.2.length ≤ records.length := by
  have hresult : (loadParts (root.child directoryName)).result later =
      (((loadParts (root.child directoryName)).result later).1, .finished parts) :=
    Prod.ext rfl hparts
  obtain ⟨s, vectors, hvectors, hrest⟩ := result_bind_eq_finished_iff.mp hresult
  obtain ⟨t, loaded, hrecords, hdone⟩ := result_bind_eq_finished_iff.mp hrest
  obtain ⟨rfl, -⟩ := lists_of_result hrecords
  rw [result_pure] at hdone
  obtain rfl := Ending.finished.inj (Prod.mk.inj hdone).2
  rcases hsearchable.holds.records_of_loads hsearchable.stored hvectors hrecords with
    rfl | rfl
  · exact ⟨hsearchable.named, le_rfl⟩
  · exact ⟨fun _ hr => absurd hr List.not_mem_nil, Nat.zero_le _⟩

end Searchable

theorem Holds.result_loadIndex {base path : Path} {p : Position} {records : List Record}
    (hholds : Holds later p.db records)
    (hposition : (position base path).result later = (later, .finished p)) :
    ∃ last, (loadIndex base path).result later =
      (last, .finished ⟨p, vectorsFor records, records⟩) := by
  obtain ⟨last, hvectors, hrecords⟩ := hholds.loads
  refine ⟨last, ?_⟩
  unfold loadIndex
  rw [result_bind_of_finished hposition, result_bind_of_finished hvectors,
    result_bind_of_finished hrecords, result_pure]

/-! ## Rankings that agree -/

theorem result_resolve_of_ending {path : Path}
    (hresolve : ((TreeAction.resolve path).run none later).ending = .finished place) :
    (TreeAction.resolve path).result later = (later, .finished place) := by
  have hresult := result_of_run hresolve
  obtain ⟨hstate, -⟩ := resolve_eq_finished_iff.mp hresult
  rwa [hstate] at hresult

/-! ## Records in any order -/

namespace Jumbled

def folder : Path := ⟨["docs"]⟩

def path : Path := ⟨["docs", "note.txt"]⟩

def db : Path := folder.child directoryName

/-- The record of a page of the note, where the page may be anything. -/
def record (page : List (Text × Json)) (t : String) : Record :=
  ⟨("relative_path".toList, .string "note.txt".toList) ::
    page ++ [("text".toList, .string t.toList)]⟩

def records : List Record :=
  [record [("page".toList, .int 2)] "two", record [("page".toList, .bool true)] "flag",
    record [] "none", record [("page".toList, .int 1)] "one",
    record [("page".toList, .int 2)] "again"]

def vectors : List Embedding :=
  records.map fun _ => []

def tree : FileTree :=
  ⟨[(folder.parts, .directory), (db.parts, .directory),
    ((recordsFile db).parts, .file (.text (recordsText records))),
    ((vectorsFile db).parts, .file (.text (vectorsText vectors))),
    ((metaFile db).parts, .file (.text metaText))]⟩

theorem stored : ∀ r ∈ records, Json.Stored (.object r.fields) := by
  have hone : (Text.ofNat 1).length ≤ Decimal.maxDigits := by decide
  have htwo : (Text.ofNat 2).length ≤ Decimal.maxDigits := by decide
  simp [records, record, Json.Stored, Json.StoredFields, hone, htwo]

theorem result_loadIndex : (loadIndex ⟨[]⟩ path).result tree =
      (tree, .finished ⟨Position.ofRoot folder path, vectors, records⟩) := by
  have hrecords : tree.read (recordsFile db) = .ok (.text (recordsText records)) := rfl
  have hvectors : tree.read (vectorsFile db) = .ok (.text (vectorsText vectors)) := rfl
  have hposition : (position ⟨[]⟩ path).result tree =
      (tree, .finished (Position.ofRoot folder path)) := by
    refine result_position_found ⟨[]⟩ (resolve_eq_finished_iff.mpr ⟨rfl, rfl, rfl⟩)
      ⟨["note.txt"], rfl⟩ (fun q hq => ?_) rfl
    have hpath : q = path := by
      have hlonger : 1 < q.parts.length := lt_of_le_of_ne hq.below.length_le
        fun hsame => hq.ne (hq.below.eq_of_length hsame).symm
      exact congrArg Path.mk (hq.above.eq_of_length_le hlonger)
    rw [hpath]
    rfl
  have hnote : tree.read (metaFile db) = .ok (.text metaText) := rfl
  have hcount : vectors.length = records.length := List.length_map _
  have hsteady : Steady tree (Position.ofRoot folder path).db records vectors :=
    steady_of_read hvectors stored hrecords hnote hcount
  unfold loadIndex
  rw [result_bind_of_finished hposition, result_bind_of_finished hsteady.result_loadVectors,
    result_bind_of_finished hsteady.lists.result_loadRecords, result_pure]

theorem numbered (request : Request) : Numbered (Loaded.fileResults
    ⟨Position.ofRoot folder path, vectors, records⟩ request) := by
  intro x hx
  obtain ⟨⟨r, vector⟩, hr, hx⟩ := List.mem_filterMap.mp hx
  obtain ⟨-, hx⟩ := Option.ite_none_right_eq_some.mp hx
  obtain ⟨page, -, rfl⟩ := Option.map_eq_some_iff.mp hx
  obtain ⟨_, -, rfl⟩ := List.mem_map.mp (List.of_mem_zip hr).2
  dsimp only [dot]
  rw [List.zipWith_nil_right, List.foldl_nil]
  decide +kernel

end Jumbled

/-! ## Searches in a document -/

/-- The pages that a search in a document gives are those of the search that also
gives their texts, whatever the files of the index hold. -/
theorem document_searches_agree (base path : Path) (request : Request) (tree : FileTree)
    (hscores : ∀ loaded, ((loadIndex base path).run none tree).ending =
      .finished loaded → Numbered (loaded.fileResults request)) :
    ((searchFilePages base path request).run none tree).ending =
      ((searchFileChunks base path request).run none tree).ending.map
        (List.map Prod.fst) := by
  simp only [Action.ending_run_none] at hscores ⊢
  rw [result_searchFilePages, result_searchFileChunks, Ending.map_map]
  exact Ending.map_congr fun loaded hloaded =>
    loaded.filePages_eq request (hscores loaded hloaded)

/-- The pages of the note are the same in both searches, in whatever order and form its
records have them. -/
theorem jumbled_searches_agree :
    ∃ chunks, ((searchFileChunks ⟨[]⟩ Jumbled.path ⟨"b".toList, 3⟩).run none
        Jumbled.tree).ending = .finished chunks ∧
      ((searchFilePages ⟨[]⟩ Jumbled.path ⟨"b".toList, 3⟩).run none
        Jumbled.tree).ending = .finished (chunks.map Prod.fst) := by
  have hscores : ∀ loaded, ((loadIndex ⟨[]⟩ Jumbled.path).run none Jumbled.tree).ending =
      .finished loaded → Numbered (loaded.fileResults ⟨"b".toList, 3⟩) := by
    intro loaded hloaded
    rw [Action.ending_run_none, Jumbled.result_loadIndex] at hloaded
    obtain rfl := Ending.finished.inj hloaded
    exact Jumbled.numbered _
  have hagree := document_searches_agree ⟨[]⟩ Jumbled.path ⟨"b".toList, 3⟩ Jumbled.tree
    hscores
  simp only [Action.ending_run_none, result_searchFileChunks, Jumbled.result_loadIndex]
    at hagree ⊢
  exact ⟨_, rfl, hagree⟩

/-! ## A folder with a link -/

namespace Linked

def folder : Path := ⟨["docs"]⟩

/-- A document that is a link to a file outside the folder. -/
def link : Path := ⟨["docs", "a.txt"]⟩

def page : Path := ⟨["docs", "sub", "b.txt"]⟩

def tree : FileTree :=
  ⟨[(["out.txt"], .file (.text "b sub".toList)), (folder.parts, .directory),
    (link.parts, .link "../out.txt".toList), (["docs", "sub"], .directory),
    (page.parts, .file (.text "a".toList))]⟩

def found : List (Option (List (Record × Text))) :=
  [none, some (pageRecords folder link ["b sub".toList]), none,
    some (pageRecords folder page ["a".toList])]

def files : List (Name × Text) :=
  indexFiles ((found.filterMap id).flatten.map Prod.fst)
    ((found.filterMap id).flatten.map Prod.snd)

def made : FileTree :=
  indexed tree folder files

theorem sound_tree : tree.Sound := by decide

theorem below_tree :
    Path.sort ((tree.put (folder.parts ++ [directoryName]) .directory).below folder) =
      [folder.child directoryName, link, ⟨["docs", "sub"]⟩, page] := by
  have hbelow : (tree.put (folder.parts ++ [directoryName]) .directory).below folder =
      [link, ⟨["docs", "sub"]⟩, page, folder.child directoryName] := rfl
  have hle : Path.le link ⟨["docs", "sub"]⟩ = true ∧ Path.le ⟨["docs", "sub"]⟩ page = true ∧
      Path.le link page = true ∧ Path.le link (folder.child directoryName) = false ∧
      Path.le page (folder.child directoryName) = false := by decide
  rw [hbelow, Path.sort]
  simp [List.mergeSort, hle]

theorem makes (readers : Readers) : Makes readers folder tree made found := by
  have hextract : ∀ path t, path.kind? = none →
      (tree.put (folder.parts ++ [directoryName]) .directory).read path = .ok (.text t) →
      pagesOfText linesPerPage (Text.unixNewlines t) = .ok [t] → (extract readers path).result
        (tree.put (folder.parts ++ [directoryName]) .directory) =
        (tree.put (folder.parts ++ [directoryName]) .directory, .finished [t]) :=
    fun path t => result_extract_text readers
  have hfits : ∀ name ∈ fileNames,
      ((folder.child directoryName).child name).fits = true := by decide
  refine (makes_iff sound_tree rfl rfl).mpr
    ⟨by decide, by decide, fun file hfile => hfits file.1 (List.mem_map_of_mem hfile), ?_, ?_, rfl⟩
  · change ((Record.ofPage _ _ 1 _).isTooLong || ((Record.ofPage _ _ 1 _).isTooLong || false)) = false
    rw [Bool.or_false, Record.isTooLong_ofPage, Record.isTooLong_ofPage, Bool.or_self]
    exact isTooLong_one
  · rw [below_tree]
    exact .cons (.other rfl) (.cons (.document rfl rfl (hextract _ _ (by decide) rfl rfl))
      (.cons (.other rfl) (.cons (.document rfl rfl (hextract _ _ (by decide) rfl rfl)) .nil)))

theorem receives : Receives (tree.put (folder.parts ++ [directoryName]) .directory)
    (folder.parts ++ [directoryName]) files := receives_index sound_tree rfl rfl _ _

theorem sound_made : made.Sound := receives.sound_putFiles

theorem leads {name : Name} (hname : name ∈ fileNames) :
    made.Leads ((folder.child directoryName).child name)
      ((folder.child directoryName).child name).parts := by
  have hfits : ∀ name ∈ fileNames,
      ((folder.child directoryName).child name).fits = true := by decide
  obtain ⟨⟨_, t⟩, hfile, rfl⟩ := List.mem_map.mp (show name ∈ files.map Prod.fst from hname)
  exact leads_child sound_made rfl (proper_of_mem_fileNames hname) (hfits _ hname)
    (.inr ⟨_, node?_putFiles_of_mem (distinct_indexFiles _ _) hfile _⟩)

theorem apart : Apart made (filePaths (folder.child directoryName)) :=
  apart_children (by decide) fun _ => leads

theorem result_prepare (readers : Readers) : (prepare readers folder).result tree =
      (made, .finished ⟨folder, folder.child directoryName, 2, 2⟩) :=
  prepare_eq_finished_iff.mpr ⟨folder, found, rfl, sound_tree.resolve_entry rfl rfl, rfl,
    makes readers, rfl⟩

theorem holds : Holds made (folder.child directoryName) (recordsOf found) :=
  (makes ⟨false, false, false⟩).holds sound_tree.rooted apart

theorem recordsOf_found : recordsOf found = [.ofPage "a.txt".toList "a.txt".toList 1 "b sub".toList,
      .ofPage "sub/b.txt".toList "b.txt".toList 1 "a".toList] := rfl

set_option maxRecDepth 20000 in
theorem scores {r : Record} (hr : r ∈ recordsOf found) :
    (dot (embed "b".toList) (embed r.searchText)).isNaN = false := by
  have hlink : (dot (embed "b".toList) (embed (Record.searchText
      (.ofPage "a.txt".toList "a.txt".toList 1 "b sub".toList)))).isNaN = false := by
    decide +kernel
  have hsame : embed (Record.searchText (.ofPage "sub/b.txt".toList "b.txt".toList 1 "a".toList)) =
      embed (Record.searchText (.ofPage "a.txt".toList "a.txt".toList 1 "b sub".toList)) :=
    embed_eq_of_perm (by decide +kernel)
  rw [recordsOf_found, List.mem_cons, List.mem_singleton] at hr
  rcases hr with rfl | rfl
  · exact hlink
  · rw [hsame]
    exact hlink

theorem ending_resolve {path : Path} {node : Node} (hnode : made.node? path.parts = some node)
    (hlink : node.isLink = false)
    (hnull : (path.parts.any fun part => part.toList.contains '\x00') = false) :
    ((TreeAction.resolve path).run none made).ending = .finished path := by
  rw [ending_run_none, resolve_eq_finished_iff.mpr
    ⟨rfl, hnull, sound_made.resolve_entry hnode hlink⟩]

theorem ending_prepare : ((prepare ⟨false, false, false⟩ folder).run none tree).ending =
      .finished ⟨folder, folder.child directoryName, 2, 2⟩ :=
  (ending_run_none _ _).trans (congrArg Prod.snd (result_prepare _))

theorem state_prepare : ((prepare ⟨false, false, false⟩ folder).run none tree).state = made :=
  (state_run_none _ _).trans (congrArg Prod.fst (result_prepare _))

theorem position_folder :
    (position ⟨[]⟩ folder).result made = (made, .finished (Position.ofRoot folder folder)) := by
  refine result_position_found ⟨[]⟩ (result_resolve_of_ending (ending_resolve rfl rfl rfl))
    (List.prefix_refl _) (fun q hq => ?_) rfl
  exact absurd (hq.above.eq_of_length_le hq.below.length_le) hq.ne

theorem exists_loaded : ∃ last, (loadIndex ⟨[]⟩ folder).result made =
    (last, .finished ⟨Position.ofRoot folder folder, vectorsFor (recordsOf found),
      recordsOf found⟩) := Holds.result_loadIndex holds position_folder

theorem numbered {loaded : Loaded} (n : Nat)
    (hloaded : ((loadIndex ⟨[]⟩ folder).run none made).ending = .finished loaded) :
    Numbered (loaded.directoryResults ⟨"b".toList, n⟩ true) := by
  obtain ⟨last, hresult⟩ := exists_loaded
  rw [ending_run_none, hresult] at hloaded
  obtain rfl := Ending.finished.inj hloaded
  intro x hx
  obtain ⟨r, vector, path, page, hr, -, -, -, rfl⟩ := Loaded.mem_directoryResults.mp hx
  have hvector := (List.of_mem_zip hr).2
  simp only [vectorsFor, List.map_map, List.mem_map, Function.comp_apply] at hvector
  obtain ⟨record, hrecord, rfl⟩ := hvector
  dsimp only
  rw [scores hrecord]

theorem position_link : (position ⟨[]⟩ link).result made =
      (made, .failed (Complaint.noIndex "out.txt".toList).fault) := by
  have hresolve : (TreeAction.resolve link).result made = (made, .finished ⟨["out.txt"]⟩) :=
    resolve_eq_finished_iff.mpr ⟨rfl, rfl, rfl⟩
  have hshown : (TreeAction.shown ⟨[]⟩ ⟨["out.txt"]⟩).result made =
      (made, .finished "out.txt".toList) := by
    unfold TreeAction.shown
    rw [result_bind_of_finished (resolve_eq_finished_iff.mpr
      ⟨rfl, rfl, (rfl : made.resolve ⟨["out.txt"]⟩ = .path ⟨["out.txt"]⟩)⟩),
      result_bind_of_finished (resolve_eq_finished_iff.mpr
      ⟨rfl, rfl, (rfl : made.resolve ⟨[]⟩ = .path ⟨[]⟩)⟩)]
    rfl
  have hnone : (findRoot? ⟨["out.txt"]⟩).result made = (made, .finished none) := by
    have hcandidates : rootCandidates ⟨["out.txt"]⟩ = [⟨["out.txt"]⟩, ⟨[]⟩, ⟨[]⟩] := rfl
    have hout : made.isDirectory? (Path.child ⟨["out.txt"]⟩ directoryName) = .ok false := rfl
    have htop : made.isDirectory? (Path.child ⟨[]⟩ directoryName) = .ok false := rfl
    rw [findRoot?, hcandidates]
    simp only [result_firstIndexed?_cons, hout, htop]
    rfl
  rw [result_position ⟨[]⟩ hresolve]
  unfold findRoot
  rw [result_bind_of_finished hnone]
  dsimp only
  rw [result_bind_of_finished hshown]
  rfl

end Linked

/-! ## Searches in a directory -/

section Prepared

variable {tree made later : FileTree} (hsound : tree.Sound) {readers : Readers}
  {folder : Path} {allowance : Allowance} {summary : Summary}
  (hending : ((prepare readers folder).run allowance tree).ending = .finished summary)
  (hstate : ((prepare readers folder).run allowance tree).state = made) (hlater : later.Rooted)
  (hkept : ∀ path ∈ filePaths summary.db, later.read path = made.read path)

include hsound hending hstate hlater hkept

theorem exists_searchable :
    ∃ records, records.length = summary.pages ∧ Searchable later summary.folder records ∧
      (Apart made (filePaths summary.db) →
        Holds later (summary.folder.child directoryName) records) := by
  obtain ⟨root, found, -, -, -, hmakes, rfl⟩ := prepare_eq_finished_iff.mp (result_of_run hending)
  rw [hstate] at hmakes
  have hreads : ∀ file ∈ filePaths (root.child directoryName),
      later.read file = made.read file := hkept
  refine ⟨recordsOf found, ?_, ?_, fun hapart => ?_⟩
  · exact List.length_map _
  · exact hmakes.searchable hsound hlater (hreads _ (by simp [filePaths]))
  · have hholds := hmakes.holds hsound.rooted hapart
    refine ⟨hlater, hholds.stored, ?_, ?_, ?_⟩
    · rw [hreads _ (by simp [filePaths]), hholds.readRecords]
    · rw [hreads _ (by simp [filePaths]), hholds.readVectors]
    · rw [hreads _ (by simp [filePaths]), hholds.readNote]

end Prepared

/-- The documents that a search in a directory gives are the first ones to appear among
the pages of all documents in it. -/
theorem directory_files_by_first_page {tree made later : FileTree} (hsound : tree.Sound)
    {readers : Readers} {folder : Path} {allowance : Allowance} {summary : Summary}
    (hending : ((prepare readers folder).run allowance tree).ending = .finished summary)
    (hstate : ((prepare readers folder).run allowance tree).state = made)
    (hlater : later.Rooted)
    (hkept : ∀ file ∈ filePaths summary.db, later.read file = made.read file)
    {base path directory : Path}
    (hresolve : ((TreeAction.resolve path).run none later).ending = .finished directory)
    (hbelow : summary.folder.parts <+: directory.parts)
    (hnearest : ∀ q, OnTheWay summary.folder directory q →
      later.isDirectory? (q.child directoryName) ≠ .ok true)
    (request : Request) ( recursive : Bool) {n : Nat} (hn : summary.pages ≤ n)
    (hscores : ∀ loaded, ((loadIndex base path).run none later).ending =
      .finished loaded → Numbered (loaded.directoryResults request recursive)) :
    ((searchDirectoryFiles base path request recursive).run none later).ending =
        ((searchDirectoryChunks base path ⟨request.query, n⟩ recursive).run none
          later).ending.map
            (fun chunks => ((chunks.map Prod.fst).eraseDups).take request.limit) ∧
      (Apart made (filePaths summary.db) →
        (∀ q, OnTheWay summary.folder directory q →
          later.isDirectory? (q.child directoryName) = .ok false) →
        ∃ files, ((searchDirectoryFiles base path request recursive).run none
          later).ending = .finished files) := by
  obtain ⟨records, hpages, hsearchable, hholds⟩ :=
    exists_searchable hsound hending hstate hlater hkept
  have hplace := result_resolve_of_ending hresolve
  simp only [Action.ending_run_none] at hscores ⊢
  rw [result_searchDirectoryFiles, result_searchDirectoryChunks, Ending.map_map]
  constructor
  · generalize hloads : ((loadIndex base path).result later).2 = loads at hscores ⊢
    refine Ending.map_congr fun loaded hloaded => ?_
    have hnumbered := hscores loaded hloaded
    rw [← hloads] at hloaded
    rcases result_position_nearest base hplace hbelow hnearest
      hsearchable.isDirectory?_db with hposition | ⟨q, -, e, -, hposition⟩
    · rw [result_loadIndex hposition] at hloaded
      generalize hparts : ((loadParts (summary.folder.child directoryName)).result
        later).2 = found at hloaded
      obtain ⟨parts, rfl, rfl⟩ := Ending.map_eq_finished_iff.mp hloaded
      obtain ⟨hnamed, hlength⟩ := hsearchable.of_loadParts hparts
      exact Loaded.directoryFiles_eq rfl (hlength.trans (hpages.trans_le hn)) hnamed hnumbered
    · unfold loadIndex at hloaded
      rw [Action.result_bind_of_failed hposition] at hloaded
      cases hloaded
  · intro hapart hanswered
    obtain ⟨last, hloaded⟩ := Holds.result_loadIndex (hholds hapart)
      (result_position_found base hplace hbelow hanswered hsearchable.isDirectory?_db)
    rw [hloaded]
    exact ⟨_, rfl⟩

/-- In a folder with a link the documents are ranked by their pages. -/
theorem linked_files_by_first_page :
    ((prepare ⟨false, false, false⟩ Linked.folder).run none Linked.tree).ending =
        .finished ⟨Linked.folder, Linked.folder.child directoryName, 2, 2⟩ ∧
      ((searchDirectoryFiles ⟨[]⟩ Linked.folder ⟨"b".toList, 1⟩ true).run none
        Linked.made).ending =
        ((searchDirectoryChunks ⟨[]⟩ Linked.folder ⟨"b".toList, 2⟩ true).run none
          Linked.made).ending.map
            (fun chunks => ((chunks.map Prod.fst).eraseDups).take 1) ∧
      ∃ files, ((searchDirectoryFiles ⟨[]⟩ Linked.folder ⟨"b".toList, 1⟩ true).run none
        Linked.made).ending = .finished files := by
  have hway : ∀ q, ¬ OnTheWay Linked.folder Linked.folder q := fun q hq =>
    hq.ne (hq.above.eq_of_length_le hq.below.length_le)
  obtain ⟨hsame, hfinished⟩ := directory_files_by_first_page Linked.sound_tree
    Linked.ending_prepare Linked.state_prepare
    Linked.sound_made.rooted (fun _ _ => rfl) (Linked.ending_resolve rfl rfl rfl)
    (List.prefix_refl _) (fun q hq => absurd hq (hway q)) ⟨"b".toList, 1⟩ true le_rfl
    fun _ => Linked.numbered 1
  exact ⟨Linked.ending_prepare, hsame, hfinished Linked.apart fun q hq => absurd hq (hway q)⟩

/-- The pages of a document among the pages of a directory are ranked as in a search in
the document alone, where the index is found from the place of the document. -/
theorem document_ranked_as_in_directory {tree made later : FileTree} (hsound : tree.Sound)
    {readers : Readers} {folder : Path} {allowance : Allowance} {summary : Summary}
    (hending : ((prepare readers folder).run allowance tree).ending = .finished summary)
    (hstate : ((prepare readers folder).run allowance tree).state = made)
    (hlater : later.Rooted)
    (hkept : ∀ file ∈ filePaths summary.db, later.read file = made.read file)
    {base path file directory place : Path}
    (hdirectory : ((TreeAction.resolve path).run none later).ending = .finished directory)
    (hfile : ((TreeAction.resolve file).run none later).ending = .finished place)
    (hbelow : summary.folder.parts <+: directory.parts) { recursive : Bool}
    (hin : InDirectory recursive directory place)
    (hplain : ∀ name ∈ place.parts, Name.Plain name)
    (query : Text) {n m : Nat} (hn : summary.pages ≤ n) (hm : summary.pages ≤ m)
    (hscores : ∀ loaded, ((loadIndex base path).run none later).ending =
      .finished loaded → Numbered (loaded.directoryResults ⟨query, n⟩ recursive)) :
    ((∀ q, OnTheWay summary.folder place q →
        later.isDirectory? (q.child directoryName) = .ok false) →
      ((searchFileChunks base file ⟨query, m⟩).run none later).ending =
          ((searchDirectoryChunks base path ⟨query, n⟩ recursive).run none
            later).ending.map
              (fun chunks => (chunks.filter (·.1 == place)).map Prod.snd) ∧
        (Apart made (filePaths summary.db) →
          ∃ chunks, ((searchFileChunks base file ⟨query, m⟩).run none later).ending =
            .finished chunks)) ∧
      ∀ e, later.isDirectory? (place.child directoryName) = .error e →
        ((searchFileChunks base file ⟨query, m⟩).run none later).ending =
          .failed (.failure (.system e)) := by
  obtain ⟨records, hpages, hsearchable, hholds⟩ :=
    exists_searchable hsound hending hstate hlater hkept
  have hplace := result_resolve_of_ending hfile
  have hinFolder := hbelow.trans hin.isPrefix
  have hne := hin.ne_of_isPrefix hbelow
  have hinside := (isInFolder_inside_iff recursive hbelow hinFolder hne
    (fun name hname => hplain name (hin.isPrefix.subset hname)) hplain).mpr hin
  simp only [Action.ending_run_none] at hscores ⊢
  rw [result_searchFileChunks, result_searchDirectoryChunks]
  constructor
  · intro hanswered
    have hfound := result_position_found base hplace hinFolder hanswered
      hsearchable.isDirectory?_db
    have hfoundDirectory := result_position_found base
      (result_resolve_of_ending hdirectory) hbelow
      (fun q hq => hanswered q (hq.mono hin.isPrefix)) hsearchable.isDirectory?_db
    constructor
    · -- both searches load the same vectors and records
      rw [result_loadIndex hfoundDirectory] at hscores ⊢
      rw [result_loadIndex hfound, Ending.map_map, Ending.map_map, Ending.map_map]
      generalize hloads : ((loadParts (summary.folder.child directoryName)).result
        later).2 = loads at hscores ⊢
      refine Ending.map_congr fun parts hparts => ?_
      obtain ⟨hnamed, hlength⟩ := hsearchable.of_loadParts (hloads.trans hparts)
      have hnumbered := hscores ⟨.ofRoot summary.folder directory, parts.1, parts.2⟩
        (by rw [hparts]; rfl)
      exact fileChunks_eq rfl (hlength.trans (hpages.trans_le hn))
        (hlength.trans (hpages.trans_le hm)) hnamed (canonical_inside hinFolder hne hplain)
        (documentPath_inside hinFolder hplain) hinside hnumbered
    · intro hapart
      obtain ⟨last, hloaded⟩ := Holds.result_loadIndex (hholds hapart) hfound
      rw [hloaded]
      exact ⟨_, rfl⟩
  · intro e hasked
    unfold loadIndex
    rw [Action.result_bind_of_failed (result_position_refused base hplace hasked)]
    rfl

/-- The page of a document below a folder with a link is ranked as among all pages. -/
theorem linked_page_ranked_as_in_folder :
    InDirectory true Linked.folder Linked.page ∧
      ((searchFileChunks ⟨[]⟩ Linked.page ⟨"b".toList, 2⟩).run none
        Linked.made).ending =
        ((searchDirectoryChunks ⟨[]⟩ Linked.folder ⟨"b".toList, 2⟩ true).run none
          Linked.made).ending.map
            (fun chunks => (chunks.filter (·.1 == Linked.page)).map Prod.snd) ∧
      ∃ chunks, ((searchFileChunks ⟨[]⟩ Linked.page ⟨"b".toList, 2⟩).run none
        Linked.made).ending = .finished chunks := by
  have hin : InDirectory true Linked.folder Linked.page :=
    ⟨⟨["sub", "b.txt"], rfl⟩, by decide⟩
  have hnode : Linked.made.node? Linked.page.parts = some (.file (.text "a".toList)) :=
    rfl
  have hplain : ∀ name ∈ Linked.page.parts, Name.Plain name := fun name hname =>
    (Linked.sound_made.named_of_node? hnode name hname).toPlain
  have hanswered : ∀ q, OnTheWay Linked.folder Linked.page q →
      Linked.made.isDirectory? (q.child directoryName) = .ok false := by
    rintro ⟨parts⟩ hq
    have hlower : parts <+: ["docs", "sub", "b.txt"] := hq.above
    have hne : parts ≠ ["docs"] := hq.ne
    have hlong : 1 ≤ parts.length := hq.below.length_le
    simp only [List.prefix_cons_iff, List.prefix_nil] at hlower
    rcases hlower with rfl | ⟨_, rfl, rfl | ⟨_, rfl, rfl | ⟨_, rfl, rfl⟩⟩⟩
    · simp at hlong
    · exact absurd rfl hne
    · rfl
    · rfl
  obtain ⟨hranked, -⟩ := document_ranked_as_in_directory Linked.sound_tree
    Linked.ending_prepare Linked.state_prepare
    Linked.sound_made.rooted (fun _ _ => rfl) (Linked.ending_resolve rfl rfl rfl)
    (Linked.ending_resolve hnode rfl rfl) (List.prefix_refl _) hin
    hplain "b".toList le_rfl le_rfl fun _ => Linked.numbered 2
  obtain ⟨hsame, hfinished⟩ := hranked hanswered
  exact ⟨hin, hsame, hfinished Linked.apart⟩

/-- A document that is a link is found in its directory and not by itself. -/
theorem linked_document_not_found :
    ((prepare ⟨false, false, false⟩ Linked.folder).run none Linked.tree).ending =
        .finished ⟨Linked.folder, Linked.folder.child directoryName, 2, 2⟩ ∧
      ((prepare ⟨false, false, false⟩ Linked.folder).run none Linked.tree).state =
        Linked.made ∧
      InDirectory true Linked.folder Linked.link ∧
      (∃ chunks page, ((searchDirectoryChunks ⟨[]⟩ Linked.folder ⟨"b".toList, 2⟩
          true).run none Linked.made).ending = .finished chunks ∧
        (Linked.link, page, "b sub".toList) ∈ chunks) ∧
      ((searchFileChunks ⟨[]⟩ Linked.link ⟨"b".toList, 2⟩).run none Linked.made).ending =
        .failed (Complaint.noIndex "out.txt".toList).fault := by
  refine ⟨Linked.ending_prepare, Linked.state_prepare, ⟨⟨["a.txt"], rfl⟩, by decide⟩,
    ?_, ?_⟩
  · obtain ⟨last, hloaded⟩ := Linked.exists_loaded
    have hnumbered := Linked.numbered 2
      ((Action.ending_run_none _ _).trans (congrArg Prod.snd hloaded))
    have hrecord : (Record.ofPage "a.txt".toList "a.txt".toList 1 "b sub".toList,
        embed (Record.searchText
          (.ofPage "a.txt".toList "a.txt".toList 1 "b sub".toList))) ∈
        (recordsOf Linked.found).zip (vectorsFor (recordsOf Linked.found)) := by
      rw [Linked.recordsOf_found]
      exact List.mem_cons_self
    have hmem : Scored.mk _ ("a.txt".toList, .number 1, "b sub".toList) ∈
        Loaded.directoryResults ⟨.ofRoot Linked.folder Linked.folder,
          vectorsFor (recordsOf Linked.found), recordsOf Linked.found⟩
          ⟨"b".toList, 2⟩ true :=
      Loaded.mem_directoryResults_of_record hrecord (Record.path?_ofPage _ _ _ _)
        (Record.page?_ofPage _ _ _ _) rfl
    rw [Action.ending_run_none, result_searchDirectoryChunks, hloaded]
    refine ⟨_, .number 1, rfl, ?_⟩
    dsimp only
    rw [Loaded.directoryChunks_eq hnumbered le_rfl]
    exact List.mem_map.mpr ⟨_, List.mem_mergeSort.mpr hmem, rfl⟩
  · rw [Action.ending_run_none, result_searchFileChunks]
    unfold loadIndex
    rw [Action.result_bind_of_failed Linked.position_link]
    rfl

end Folio.Index
