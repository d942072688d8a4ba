import Folio.Proofs.DecimalReading
import Folio.Proofs.TreePlaces

/-!
# Vectors made again

The vectors of an index are made again from its records if they are missing, if
they cannot be read, if they are not as many as the records or if their note is
not the one of today.  What is written then is what was written when the index
was made, since a record stands for its page in a search with the text that the
page itself stood with.

The files of an index may be links, but no two of them may lead to one place.
-/

namespace Folio.Index

open Action TreeAction FileTree

variable {value : Json} {path : Path} {begun : FileTree} {name : Name}

variable {records : List Record} {place spot : List Name} {root : Path} {readers : Readers}

section

variable {tree : FileTree} {db : Path}

/-! ## Vectors that fit -/

def arrays (items : List Json) : List (List Json) :=
  items.filterMap fun
    | .array row => some row
    | _ => none

/-- The vectors of an index fit: its note is the one of today, and there is an
array of numbers for each record. -/
structure Fit (tree : FileTree) (db : Path) (count : Nat) : Prop where
  note : ∃ value, readJson tree (metaFile db) = .ok value ∧
    value.field? "embedding_version" = some (.string method) ∧
    value.field? "embedding_dim" = some (.int dimension)
  vectors : ∃ items, readJson tree (vectorsFile db) = .ok (.array items) ∧
    (∀ row ∈ arrays items, ∀ value ∈ row, ∃ x, numberOf value = .ok x) ∧
    (arrays items).length = count

theorem isCurrent_iff : isCurrent value = true ↔
      value.field? "embedding_version" = some (.string method) ∧
        value.field? "embedding_dim" = some (.int dimension) := by
  cases value with
  | object fields =>
    simp only [isCurrent, Json.field?, Bool.and_eq_true]
    refine and_congr ?_ ?_
    · cases fields.lookup "embedding_version".toList with
      | none => simp
      | some value => cases value <;> simp
    · cases fields.lookup "embedding_dim".toList with
      | none => simp
      | some value => cases value <;> simp
  | _ => simp [isCurrent, Json.field?]

theorem exists_mapM_iff {α β ε : Type} {f : α → Except ε β} {items : List α} :
    (∃ values, items.mapM f = .ok values) ↔ ∀ item ∈ items, ∃ value, f item = .ok value := by
  induction items with
  | nil => exact ⟨fun _ => by simp, fun _ => ⟨[], rfl⟩⟩
  | cons item items ih =>
    rw [List.mapM_cons, List.forall_mem_cons, ← ih]
    cases f item with
    | error e => simp [bind, Except.bind]
    | ok value =>
      cases items.mapM f with
      | error e => simp [bind, Except.bind]
      | ok values => simp [bind, Except.bind, pure, Except.pure]

theorem length_of_mapM {α β ε : Type} {f : α → Except ε β} {items : List α} {values : List β}
    (hvalues : items.mapM f = .ok values) : values.length = items.length := by
  induction items generalizing values with
  | nil =>
    cases hvalues
    rfl
  | cons item items ih =>
    rw [List.mapM_cons] at hvalues
    cases hitem : f item with
    | error e =>
      rw [hitem] at hvalues
      cases hvalues
    | ok value =>
      cases hitems : items.mapM f with
      | error e =>
        rw [hitem, hitems] at hvalues
        cases hvalues
      | ok rest =>
        rw [hitem, hitems] at hvalues
        cases hvalues
        rw [List.length_cons, List.length_cons, ih hitems]

theorem vectorsOf_eq (items : List Json) :
    vectorsOf items = (arrays items).mapM fun row => row.mapM numberOf := by
  induction items with
  | nil => rfl
  | cons item rest ih =>
    cases item with
    | array row =>
      have harrays : arrays (.array row :: rest) = row :: arrays rest := rfl
      rw [vectorsOf, harrays, List.mapM_cons, ih]
    | _ => exact ih

theorem exists_readVectors_iff {count : Nat} :
    (∃ vectors, readVectors tree db = .ok vectors ∧ vectors.length = count) ↔
      ∃ items, readJson tree (vectorsFile db) = .ok (.array items) ∧
        (∀ row ∈ arrays items, ∀ value ∈ row, ∃ x, numberOf value = .ok x) ∧
        (arrays items).length = count := by
  have hnumeric : ∀ items, (∃ vectors, vectorsOf items = .ok vectors) ↔
      ∀ row ∈ arrays items, ∀ value ∈ row, ∃ x, numberOf value = .ok x := by
    intro items
    simp only [vectorsOf_eq, exists_mapM_iff]
  constructor
  · rintro ⟨vectors, hread, hlength⟩
    unfold readVectors at hread
    split at hread
    · cases hread
    · rename_i items hjson
      split at hread
      · rename_i values hvalues
        cases hread
        refine ⟨items, hjson, (hnumeric items).mp ⟨vectors, hvalues⟩, ?_⟩
        rw [vectorsOf_eq] at hvalues
        rw [← length_of_mapM hvalues, hlength]
      · cases hread
    · cases hread
  · rintro ⟨items, hjson, hrows, hlength⟩
    obtain ⟨vectors, hvectors⟩ := (hnumeric items).mpr hrows
    refine ⟨vectors, ?_, ?_⟩
    · simp only [readVectors, hjson, hvectors]
    · rw [vectorsOf_eq] at hvectors
      rw [length_of_mapM hvectors, hlength]

/-! ## Looking at the files -/

theorem exists_read_of_readJson (hjson : readJson tree path = .ok value) :
    ∃ content, tree.read path = .ok content := by
  unfold readJson at hjson
  cases hread : tree.read path with
  | error e =>
    rw [hread] at hjson
    cases hjson
  | ok content => exact ⟨content, rfl⟩

theorem isFile?_of_readJson (hjson : readJson tree path = .ok value) :
    tree.isFile? path = .ok true :=
  isFile?_of_read (exists_read_of_readJson hjson).choose_spec

/-- The records of an index, as far as its file is a list. -/
def Lists (tree : FileTree) (db : Path) (records : List Record) : Prop :=
  ∃ value, readJson tree (recordsFile db) = .ok value ∧ recordsOf? value = some records

theorem Lists.loadRecords (hlists : Lists tree db records) :
    loadRecords db tree = .done tree records := by
  obtain ⟨value, hjson, hrecords⟩ := hlists
  unfold Index.loadRecords
  refine (bind_of_done (ask_of_ok (isFile?_of_readJson hjson))).trans ?_
  refine (get_bind _ tree).trans ?_
  rw [hjson]
  refine (bind_of_done (t := tree) (v := value) rfl).trans ?_
  rw [hrecords]
  rfl

theorem Lists.result_loadRecords (hlists : Lists tree db records) :
    (Index.loadRecords db).result tree = (tree, .finished records) :=
  congrArg Course.last hlists.loadRecords

theorem lists_of_result {last : FileTree}
    (hresult : (loadRecords db).result tree = (last, .finished records)) :
    last = tree ∧ Lists tree db records := by
  obtain ⟨s, found, hasked, hresult⟩ := result_bind_eq_finished_iff.mp hresult
  obtain ⟨rfl, -⟩ := ask_eq_finished_iff.mp hasked
  cases found with
  | false => cases hresult
  | true =>
    obtain ⟨t, value, hvalue, hresult⟩ := result_bind_eq_finished_iff.mp
      (show Action.result (TreeAction.ofFailure (readJson s (recordsFile db)) >>= _) s =
        _ from hresult)
    cases hjson : readJson s (recordsFile db) with
    | error e =>
      rw [hjson] at hvalue
      cases hvalue
    | ok read =>
      rw [hjson] at hvalue
      cases hvalue
      cases hrecords : recordsOf? value with
      | none =>
        rw [hrecords] at hresult
        cases hresult
      | some records =>
        rw [hrecords] at hresult
        cases hresult
        exact ⟨rfl, value, hjson, hrecords⟩

theorem result_isFile? {found : Bool} (hfile : tree.isFile? path = .ok found) :
    (TreeAction.ask (·.isFile? path)).result tree = (tree, .finished found) :=
  ask_eq_finished_iff.mpr ⟨rfl, hfile⟩

def vectorsFor (records : List Record) : List Embedding :=
  (records.map Record.searchText).map embed

theorem result_write (hleads : tree.Leads path place) (t : Text) :
    (TreeAction.write path t).result tree =
      (tree.put place (.file (.text t)), .finished ()) := write_eq_finished_iff.mpr (hleads.write t)

/-! ## Indexes with nothing to repair -/

/-- Vectors, after the checkpoints at which they are handed over. -/
def deliver (vectors : List Embedding) : TreeAction (List Embedding) := do
  Action.checkTimes "semantic.load_vectors" (checksFor vectors.length)
  return vectors

theorem result_deliver (vectors : List Embedding) (tree : FileTree) :
    (deliver vectors).result tree = (tree, .finished vectors) :=
  result_bind_of_finished (result_checkTimes _ _ tree)

def readBack (db : Path) : TreeAction (List Embedding) := do
  if !(← ask (·.isFile? (vectorsFile db))) then complain .noCollection
  let vectors ← Action.ofExcept (readVectors (← get) db)
  deliver vectors

theorem loadVectors_eq (db : Path) : loadVectors db = repairVectors db >>= fun _ => readBack db :=
  rfl

theorem readBack_eq {vectors : List Embedding} (hfile : tree.isFile? (vectorsFile db) = .ok true)
    (hread : readVectors tree db = .ok vectors) : readBack db tree = deliver vectors tree := by
  unfold readBack
  refine (bind_of_done (ask_of_ok hfile)).trans ?_
  refine (get_bind _ tree).trans ?_
  rw [hread]
  rfl

/-- The vectors of an index fit its records. -/
structure Steady (tree : FileTree) (db : Path) (records : List Record)
    (vectors : List Embedding) : Prop where
  lists : Lists tree db records
  current : hasCurrentMeta db tree = .done tree true
  isFile : tree.isFile? (vectorsFile db) = .ok true
  read : readVectors tree db = .ok vectors
  count : vectors.length = records.length

theorem Steady.loadVectors {vectors : List Embedding}
    (hsteady : Steady tree db records vectors) : loadVectors db tree = deliver vectors tree := by
  obtain ⟨value, hjson, -⟩ := hsteady.lists
  have hrepair : repairVectors db tree = .done tree () := by
    unfold repairVectors
    refine (bind_of_done (ask_of_ok (isFile?_of_readJson hjson))).trans ?_
    refine (bind_of_done (ask_of_ok hsteady.isFile)).trans ?_
    refine (bind_of_done hsteady.current).trans ?_
    refine (get_bind _ tree).trans ?_
    rw [hsteady.read]
    refine (bind_of_done hsteady.lists.loadRecords).trans ?_
    simp only [hsteady.count, bne_self_eq_false, Bool.false_eq_true, if_false]
    rfl
  rw [loadVectors_eq, bind_of_done hrepair, readBack_eq hsteady.isFile hsteady.read]

theorem Steady.result_loadVectors {vectors : List Embedding}
    (hsteady : Steady tree db records vectors) :
    (Index.loadVectors db).result tree = (tree, .finished vectors) :=
  (congrArg Course.last hsteady.loadVectors).trans (result_deliver vectors tree)

theorem hasCurrentMeta_eq (hjson : readJson tree (metaFile db) = .ok value) :
    hasCurrentMeta db tree = .done tree (isCurrent value) := by
  unfold hasCurrentMeta
  refine (bind_of_done (ask_of_ok (isFile?_of_readJson hjson))).trans ?_
  refine (get_bind _ tree).trans ?_
  rw [hjson]
  rfl

theorem hasCurrentMeta_cases (db : Path) (tree : FileTree) :
    (∃ e, tree.isFile? (metaFile db) = .error e ∧
        ∃ fault, hasCurrentMeta db tree = .failed tree fault) ∨
      hasCurrentMeta db tree = .done tree false ∨
      ∃ value, readJson tree (metaFile db) = .ok value ∧ isCurrent value = true := by
  rcases ask_cases (·.isFile? (metaFile db)) tree with
    ⟨e, herror, fault, hfailed⟩ | ⟨found, -, hask⟩
  · exact .inl ⟨e, herror, fault, bind_of_failed hfailed⟩
  cases found with
  | false => exact .inr (.inl (bind_of_done hask))
  | true =>
    cases hjson : readJson tree (metaFile db) with
    | error e =>
      refine .inr (.inl ((bind_of_done hask).trans ((get_bind _ tree).trans ?_)))
      rw [hjson]
      rfl
    | ok value =>
      cases hcurrent : isCurrent value with
      | false => exact .inr (.inl ((hasCurrentMeta_eq hjson).trans (by rw [hcurrent])))
      | true => exact .inr (.inr ⟨value, rfl, hcurrent⟩)

theorem Fit.exists_steady (hlists : Lists tree db records) (hfit : Fit tree db records.length) :
    ∃ vectors, Steady tree db records vectors := by
  obtain ⟨value, hnote, hcurrent⟩ := hfit.note
  obtain ⟨items, hitems, -⟩ := hfit.vectors
  obtain ⟨vectors, hread, hcount⟩ := exists_readVectors_iff.mpr hfit.vectors
  refine ⟨vectors, hlists, ?_, isFile?_of_readJson hitems, hread, hcount⟩
  rw [hasCurrentMeta_eq hnote, isCurrent_iff.mpr hcurrent]

/-- Vectors that do not fit are made again, unless nothing can be found out about a file. -/
theorem repairVectors_of_unfit (hlists : Lists tree db records)
    (hunfit : ¬ Fit tree db records.length) : repairVectors db tree = rebuildVectors db tree ∨
      ∃ path ∈ [vectorsFile db, metaFile db], ∃ e, tree.isFile? path = .error e ∧
        ∃ fault, repairVectors db tree = .failed tree fault := by
  obtain ⟨value, hjson, -⟩ := id hlists
  unfold repairVectors
  rw [bind_of_done (ask_of_ok (isFile?_of_readJson hjson))]
  simp only [Bool.not_true, Bool.false_eq_true, if_false]
  rcases ask_cases (·.isFile? (vectorsFile db)) tree with
    ⟨e, herror, fault, hfailed⟩ | ⟨found, -, hask⟩
  · exact .inr ⟨_, .head _, e, herror, fault, bind_of_failed hfailed⟩
  rw [bind_of_done hask]
  cases found with
  | false => exact .inl rfl
  | true =>
    simp only [Bool.not_true, Bool.false_eq_true, if_false]
    rcases hasCurrentMeta_cases db tree with
      ⟨e, herror, fault, hfailed⟩ | hold | ⟨value, hnote, hcurrent⟩
    · exact .inr ⟨_, .tail _ (.head _), e, herror, fault, bind_of_failed hfailed⟩
    · rw [bind_of_done hold]
      exact .inl rfl
    rw [bind_of_done (hasCurrentMeta_eq hnote), hcurrent]
    simp only [Bool.not_true, Bool.false_eq_true, if_false]
    rw [get_bind]
    cases hread : readVectors tree db with
    | error e => exact .inl rfl
    | ok vectors =>
      simp only []
      rw [bind_of_done hlists.loadRecords]
      by_cases hcount : vectors.length = records.length
      · exact absurd ⟨⟨value, hnote, isCurrent_iff.mp hcurrent⟩,
          exists_readVectors_iff.mp ⟨vectors, hread, hcount⟩⟩ hunfit
      · rw [if_pos (bne_iff_ne.mpr hcount)]
        exact .inl rfl

/-! ## The files as they were written -/

/-- The files of an index hold what is written for records. -/
structure Holds (tree : FileTree) (db : Path) (records : List Record) : Prop where
  rooted : tree.Rooted
  stored : ∀ r ∈ records, Json.Stored (.object r.fields)
  readRecords : tree.read (recordsFile db) = .ok (.text (recordsText records))
  readVectors : tree.read (vectorsFile db) = .ok (.text (vectorsText (vectorsFor records)))
  readNote : tree.read (metaFile db) = .ok (.text metaText)

theorem readJson_eq_ok {t : Text} (hread : tree.read path = .ok (.text t))
    (hparse : Json.parse (Text.unixNewlines t) = .ok value) : readJson tree path = .ok value := by
  unfold readJson
  rw [hread]
  simp only [Content.strictText, hparse]

theorem exists_parse_metaText : ∃ value, Json.parse (Text.unixNewlines metaText) = .ok value ∧
      isCurrent value = true := by
  have hcurrent : (Json.parse (Text.unixNewlines metaText)).toOption.map isCurrent = some true := by
    decide +kernel
  cases hparse : Json.parse (Text.unixNewlines metaText) with
  | error e =>
    rw [hparse] at hcurrent
    cases hcurrent
  | ok value =>
    rw [hparse] at hcurrent
    exact ⟨value, rfl, Option.some.inj hcurrent⟩

theorem vectorsOf_rows (vectors : List Embedding) :
    vectorsOf (vectors.map fun v => .array (v.map .float)) = .ok vectors := by
  have hrow : ∀ v : Embedding, (v.map Json.float).mapM numberOf = .ok v := by
    intro v
    induction v with
    | nil => rfl
    | cons x v ih =>
      rw [List.map_cons, List.mapM_cons, ih]
      rfl
  induction vectors with
  | nil => rfl
  | cons v vectors ih =>
    rw [List.map_cons, vectorsOf, hrow, ih]
    rfl

theorem hasCurrentMeta_of_read (hread : tree.read (metaFile db) = .ok (.text metaText)) :
    hasCurrentMeta db tree = .done tree true := by
  obtain ⟨note, hparse, hcurrent⟩ := exists_parse_metaText
  rw [hasCurrentMeta_eq (readJson_eq_ok hread hparse), hcurrent]

section Reading

variable {vectors : List Embedding}
  (hvectors : tree.read (vectorsFile db) = .ok (.text (vectorsText vectors)))
include hvectors

theorem readVectors_eq : readVectors tree db = .ok vectors := by
  have hjson := readJson_eq_ok hvectors (Json.parse_rows true vectors)
  rw [Json.rows] at hjson
  simp only [readVectors, hjson, vectorsOf_rows]

theorem steady_of_read (hstored : ∀ r ∈ records, Json.Stored (.object r.fields))
    (hrecords : tree.read (recordsFile db) = .ok (.text (recordsText records)))
    (hnote : tree.read (metaFile db) = .ok (.text metaText))
    (hcount : vectors.length = records.length) : Steady tree db records vectors :=
  ⟨⟨_, readJson_recordsText hrecords hstored, recordsOf?_map records⟩,
    hasCurrentMeta_of_read hnote, isFile?_of_read hvectors, readVectors_eq hvectors, hcount⟩

end Reading

theorem result_rebuildVectors (hlists : Lists tree db records)
    (hvectors : tree.Leads (vectorsFile db) spot) (hnote : tree.Leads (metaFile db) place) :
    (rebuildVectors db).result tree =
      ((tree.put spot (.file (.text (vectorsText (vectorsFor records))))).put
        place (.file (.text metaText)), .finished ()) := by
  have hnext := hnote.put hvectors.free (.text (vectorsText (vectorsFor records)))
  unfold rebuildVectors
  rw [result_bind_of_finished hlists.result_loadRecords,
    result_bind_of_finished (result_checkTimes _ _ tree),
    result_bind_of_finished (result_embedAll _ tree),
    result_bind_of_finished (result_write hvectors _)]
  exact result_write hnext _

theorem result_loadVectors_of_unfit (hrooted : tree.Rooted) (hlists : Lists tree db records)
    (hvectors : tree.Leads (vectorsFile db) spot) (hnote : tree.Leads (metaFile db) place)
    (hunfit : ¬ Fit tree db records.length) {last : FileTree}
    (hlast : (tree.put spot (.file (.text (vectorsText (vectorsFor records))))).put
      place (.file (.text metaText)) = last)
    (hread : last.read (vectorsFile db) = .ok (.text (vectorsText (vectorsFor records)))) :
    (loadVectors db).result tree = (last, .finished (vectorsFor records)) := by
  have hrepair : (repairVectors db).result tree = (last, .finished ()) := by
    rw [← hlast, ← result_rebuildVectors hlists hvectors hnote]
    rcases repairVectors_of_unfit hlists hunfit with hrebuild | ⟨path, hpath, e, herror, -⟩
    · exact congrArg Course.last hrebuild
    · rcases List.mem_pair.mp hpath with rfl | rfl
      · cases (hvectors.isFile? hrooted).symm.trans herror
      · cases (hnote.isFile? hrooted).symm.trans herror
  rw [loadVectors_eq, result_bind_of_finished hrepair]
  exact (congrArg Course.last (readBack_eq (isFile?_of_read hread) (readVectors_eq hread))).trans
    (result_deliver _ last)

namespace Holds

variable (hholds : Holds tree db records)
include hholds

theorem steady : Steady tree db records (vectorsFor records) :=
  steady_of_read hholds.readVectors hholds.stored hholds.readRecords hholds.readNote
    (by simp [vectorsFor])

/-- The vectors of an index that holds what was written are those of its records. -/
theorem result_loadVectors :
    (loadVectors db).result tree = (tree, .finished (vectorsFor records)) :=
  hholds.steady.result_loadVectors

theorem result_loadRecords : (loadRecords db).result tree = (tree, .finished records) :=
  hholds.steady.lists.result_loadRecords

end Holds

/-! ## Files written one after the other -/

def filePaths (db : Path) : List Path :=
  [recordsFile db, vectorsFile db, metaFile db, markerFile db]

def Apart (tree : FileTree) (paths : List Path) : Prop :=
  paths.Pairwise fun p q => tree.destination p ≠ tree.destination q

namespace Writes

variable {directory : Path} {files : List (Name × Text)} {tree tree' : FileTree}

theorem rooted (hwrites : Writes directory files tree tree') (hrooted : tree.Rooted) :
    tree'.Rooted := by
  induction files generalizing tree with
  | nil =>
    cases hwrites
    exact hrooted
  | cons file files ih =>
    obtain ⟨next, hwrite, hwrites⟩ := hwrites
    obtain ⟨place, hleads, rfl⟩ := exists_leads_of_write hrooted hwrite
    exact ih hwrites (hleads.rooted_put hrooted _)

theorem leads (hwrites : Writes directory files tree tree') (hrooted : tree.Rooted)
    (hleads : tree.Leads path place) : tree'.Leads path place := by
  induction files generalizing tree with
  | nil =>
    cases hwrites
    exact hleads
  | cons file files ih =>
    obtain ⟨next, hwrite, hwrites⟩ := hwrites
    obtain ⟨spot, hspot, rfl⟩ := exists_leads_of_write hrooted hwrite
    exact ih hwrites (hspot.rooted_put hrooted _) (hleads.put hspot.free _)

theorem kept (hwrites : Writes directory files tree tree') (hrooted : tree.Rooted)
    (hother : ∀ file ∈ files, tree'.destination (directory.child file.1) ≠ .ok place) :
    tree'.node? place = tree.node? place := by
  induction files generalizing tree with
  | nil =>
    cases hwrites
    rfl
  | cons file files ih =>
    obtain ⟨hfirst, hrest⟩ := List.forall_mem_cons.mp hother
    obtain ⟨next, hwrite, hwrites⟩ := hwrites
    obtain ⟨spot, hspot, rfl⟩ := exists_leads_of_write hrooted hwrite
    have hrooted' := hspot.rooted_put hrooted (.text file.2)
    have hspot' := hwrites.leads hrooted' (hspot.put hspot.free _)
    have hne : place ≠ spot := by
      rintro rfl
      exact hfirst hspot'.destination
    rw [ih hwrites hrooted' hrest, node?_put_of_ne tree _ hne]

theorem read (hwrites : Writes directory files tree tree') (hrooted : tree.Rooted)
    (hapart : Apart tree' (files.map fun file => directory.child file.1)) :
    ∀ file ∈ files, tree'.read (directory.child file.1) = .ok (.text file.2) := by
  induction files generalizing tree with
  | nil => simp
  | cons file files ih =>
    obtain ⟨hfirst, hrest⟩ := List.pairwise_cons.mp hapart
    have hrooted'' := hwrites.rooted hrooted
    obtain ⟨next, hwrite, hwrites⟩ := hwrites
    obtain ⟨spot, hspot, rfl⟩ := exists_leads_of_write hrooted hwrite
    have hrooted' := hspot.rooted_put hrooted (.text file.2)
    have hspot' := hwrites.leads hrooted' (hspot.put hspot.free _)
    refine List.forall_mem_cons.mpr ⟨?_, ih hwrites hrooted' hrest⟩
    apply hspot'.read_file hrooted''
    rw [hwrites.kept hrooted', node?_put_self _ _ hspot.free.ne_nil]
    intro other hother
    rw [← hspot'.destination]
    exact (hfirst _ (List.mem_map_of_mem hother)).symm

end Writes

/-! ## The index when it is made -/

theorem exists_place_of_isDirectory? (hdirectory : tree.isDirectory? path = .ok true) :
    ∃ place, tree.locate path = .ok place ∧
      tree.node? place = some .directory := by
  unfold isDirectory? test follow at hdirectory
  cases hplace : tree.locate path with
  | error reason =>
    rw [hplace] at hdirectory
    cases reason <;> cases hdirectory
  | ok place =>
    rw [hplace] at hdirectory
    simp only [bind, Except.bind] at hdirectory
    refine ⟨place, rfl, ?_⟩
    cases hnode : tree.node? place with
    | none =>
      rw [hnode] at hdirectory
      cases hdirectory
    | some node =>
      rw [hnode] at hdirectory
      cases node with
      | directory => rfl
      | file content => cases hdirectory
      | link target => cases hdirectory

theorem makeDirectory_cases (hbegun : tree.makeDirectory (root.child name) = .ok begun) :
    begun = tree ∨
      tree.isDirectory? (root.child name) = .ok false ∧
        ∃ place, tree.locate root = .ok place ∧ tree.node? (place ++ [name]) = none ∧
          begun = tree.put (place ++ [name]) .directory := by
  have hparent : (root.child name).parent = root := by simp [Path.child, Path.parent]
  have hname : (root.child name).name = name := by simp [Path.child, Path.name]
  unfold makeDirectory at hbegun
  rw [hparent, hname] at hbegun
  cases hlocate : tree.locate (root.child name) with
  | ok place =>
    rw [hlocate] at hbegun
    simp only at hbegun
    split at hbegun
    · exact .inl (Except.ok.inj hbegun).symm
    · cases hbegun
  | error reason =>
    rw [hlocate] at hbegun
    simp only at hbegun
    split at hbegun
    · rename_i place hplace
      split at hbegun
      · rename_i hnone
        have hmissing : tree.isDirectory? (root.child name) = .ok false := by
          unfold isDirectory? test follow
          rw [hlocate]
          rfl
        exact .inr ⟨hmissing, place, hplace, hnone, (Except.ok.inj hbegun).symm⟩
      · cases hbegun
      · cases hbegun
    · cases hbegun

theorem rooted_makeDirectory (hrooted : tree.Rooted) (hroot : tree.isDirectory? root = .ok true)
    (hbegun : tree.makeDirectory (root.child name) = .ok begun) : begun.Rooted := by
  obtain ⟨place, hplace, hdirectory⟩ := exists_place_of_isDirectory? hroot
  obtain rfl | ⟨-, spot, hspot, hnone, rfl⟩ := makeDirectory_cases hbegun
  · exact hrooted
  · obtain rfl := Except.ok.inj (hplace.symm.trans hspot)
    apply hrooted.put
    · rw [List.dropLast_concat, hdirectory]
    · simp [hnone]

theorem sound_makeDirectory (hsound : tree.Sound) (hname : Name.Proper name)
    (hroot : tree.isDirectory? root = .ok true)
    (hbegun : tree.makeDirectory (root.child name) = .ok begun) : begun.Sound := by
  obtain ⟨place, hplace, hdirectory⟩ := exists_place_of_isDirectory? hroot
  obtain rfl | ⟨-, spot, hspot, -, rfl⟩ := makeDirectory_cases hbegun
  · exact hsound
  · obtain rfl := Except.ok.inj (hplace.symm.trans hspot)
    exact hsound.put hname hdirectory (.inl rfl)

theorem searchText_of_found {paths : List Path} {found : List (Option (List (Record × Text)))}
    (hfound : List.Forall₂ (Finds readers root db tree) paths found) :
    (found.filterMap id).flatten.map Prod.snd = (recordsOf found).map Record.searchText := by
  have hpages : ∀ path pages, (pageRecords root path pages).map Prod.snd =
      ((pageRecords root path pages).map Prod.fst).map Record.searchText := by
    intro path pages
    simp only [pageRecords, List.map_map]
    rfl
  unfold recordsOf
  induction hfound with
  | nil => rfl
  | @cons first records paths found hfinds hfound ih =>
    rw [flatten_filterMap_cons, List.map_append, List.map_append, List.map_append, ih]
    congr 1
    cases hfinds with
    | other => rfl
    | ownFile => rfl
    | document => exact hpages _ _

theorem Makes.holds {tree made : FileTree} {found : List (Option (List (Record × Text)))}
    (hmakes : Makes readers root tree made found) (hrooted : tree.Rooted)
    (hapart : Apart made (filePaths (root.child directoryName))) :
    Holds made (root.child directoryName) (recordsOf found) := by
  obtain ⟨begun, hbegun, hfound, hwrites⟩ := hmakes.exists_begun
  have hbegunRooted := rooted_makeDirectory hrooted hmakes.isDirectory hbegun
  have hread := hwrites.read hbegunRooted hapart
  rw [searchText_of_found hfound] at hread
  exact ⟨hwrites.rooted hbegunRooted, stored_of_found hfound hmakes.short,
    hread ("records.json", _) (.head _), hread ("vectors.json", _) (.tail _ (.head _)),
    hread ("meta.json", _) (.tail _ (.tail _ (.head _)))⟩

/-! ## The index when it is repaired -/

/-- An index whose records can be read, and whose vectors and note can be
written. -/
structure Repairable (tree : FileTree) (db : Path) (records : List Record) : Prop where
  rooted : tree.Rooted
  stored : ∀ r ∈ records, Json.Stored (.object r.fields)
  readRecords : tree.read (recordsFile db) = .ok (.text (recordsText records))
  vectors : ∃ place, tree.Leads (vectorsFile db) place
  note : ∃ place, tree.Leads (metaFile db) place
  apart : Apart tree [recordsFile db, vectorsFile db, metaFile db]

theorem Holds.repairable {made damaged : FileTree} (hmade : Holds made db records)
    (hapart : Apart made (filePaths db))
    (hreplaced : Replaced [vectorsFile db, metaFile db] made damaged) :
    Repairable damaged db records := by
  have hfiles : ∀ path ∈ [vectorsFile db, metaFile db], ∃ content,
      made.read path = .ok content := by
    simp only [List.forall_mem_cons]
    exact ⟨⟨_, hmade.readVectors⟩, ⟨_, hmade.readNote⟩, by simp⟩
  have halters := hreplaced.alters hmade.rooted hfiles
  have hleads : ∀ path ∈ [vectorsFile db, metaFile db], ∃ place, damaged.Leads path place := by
    intro path hpath
    obtain ⟨content, hread⟩ := hfiles path hpath
    obtain ⟨place, hplace, hfile⟩ := exists_place_of_read hread
    obtain ⟨spot, hspot, -⟩ := halters.exists_leads hplace hfile
    exact ⟨spot, hspot⟩
  have hthree : Apart made [recordsFile db, vectorsFile db, metaFile db] :=
    hapart.sublist (List.sublist_append_left _ [markerFile db])
  have hrecords : damaged.read (recordsFile db) = .ok (.text (recordsText records)) :=
    hreplaced.read_eq hmade.rooted hfiles hmade.readRecords (List.pairwise_cons.mp hthree).1
  have hall : ∀ path ∈ [recordsFile db, vectorsFile db, metaFile db], ∃ content,
      made.read path = .ok content := List.forall_mem_cons.mpr ⟨⟨_, hmade.readRecords⟩, hfiles⟩
  refine ⟨hreplaced.sound.rooted, hmade.stored, hrecords, hleads _ (by simp), hleads _ (by simp),
    hthree.imp_of_mem ?_⟩
  intro p q hp hq hne
  obtain ⟨content, hread⟩ := hall p hp
  obtain ⟨stored, hother⟩ := hall q hq
  exact halters.destination_ne hread hother hne

theorem place_ne_of_destination {p q : Path}
    (hne : tree.destination p ≠ tree.destination q) (hp : tree.Leads p place)
    (hq : tree.Leads q spot) : place ≠ spot := by
  rintro rfl
  exact hne (hp.destination.trans hq.destination.symm)

theorem holds_of_put (hrepairable : Repairable tree db records)
    (hvectors : tree.Leads (vectorsFile db) spot) (hnote : tree.Leads (metaFile db) place) :
    Holds ((tree.put spot (.file (.text (vectorsText (vectorsFor records))))).put
      place (.file (.text metaText))) db records := by
  obtain ⟨home, hrecords, hnode⟩ := exists_leads_of_read hrepairable.readRecords
  obtain ⟨hfirst, hrest⟩ := List.pairwise_cons.mp hrepairable.apart
  obtain ⟨hsecond, -⟩ := List.pairwise_cons.mp hrest
  have hspot : home ≠ spot := place_ne_of_destination (hfirst _ (by simp)) hrecords hvectors
  have hplace : home ≠ place := place_ne_of_destination (hfirst _ (by simp)) hrecords hnote
  have hother : spot ≠ place := place_ne_of_destination (hsecond _ (by simp)) hvectors hnote
  have hnextRooted := hvectors.rooted_put hrepairable.rooted
    (.text (vectorsText (vectorsFor records)))
  have hnext := hnote.put hvectors.free (.text (vectorsText (vectorsFor records)))
  have hlastRooted := hnext.rooted_put hnextRooted (.text metaText)
  refine ⟨hlastRooted, hrepairable.stored, ?_, ?_, ?_⟩
  · apply ((hrecords.put hvectors.free _).put hnext.free _).read_file hlastRooted
    rw [node?_put_of_ne _ _ hplace, node?_put_of_ne _ _ hspot, hnode]
  · apply ((hvectors.put hvectors.free _).put hnext.free _).read_file hlastRooted
    rw [node?_put_of_ne _ _ hother, node?_put_self _ _ hvectors.free.ne_nil]
  · apply (hnext.put hnext.free _).read_file hlastRooted
    rw [node?_put_self _ _ hnote.free.ne_nil]

theorem Repairable.exists_repaired
    (hrepairable : Repairable tree db records) (hunfit : ¬ Fit tree db records.length) :
    ∃ repaired, (loadVectors db).result tree = (repaired, .finished (vectorsFor records)) ∧
      Holds repaired db records := by
  obtain ⟨spot, hvectors⟩ := hrepairable.vectors
  obtain ⟨place, hnote⟩ := hrepairable.note
  have hholds := holds_of_put hrepairable hvectors hnote
  have hlists : Lists tree db records :=
    ⟨_, readJson_recordsText hrepairable.readRecords hrepairable.stored, recordsOf?_map records⟩
  exact ⟨_, result_loadVectors_of_unfit hrepairable.rooted hlists hvectors hnote hunfit rfl
    hholds.readVectors, hholds⟩

/-! ## Indexes without links -/

theorem proper_of_mem_fileNames (hname : name ∈ fileNames) : Name.Proper name := by
  have hnamed : name ∈ (indexFiles [] []).map Prod.fst := hname
  obtain ⟨file, hfile, rfl⟩ := List.mem_map.mp hnamed
  exact proper_indexFiles [] [] file hfile

theorem sound_put_child (hsound : tree.Sound) (db : Path)
    (hname : Name.Proper name) (node : Node) (hdb : tree.node? db.parts = some .directory)
    (hnot : tree.node? (db.child name).parts ≠ some .directory) :
    (tree.put (db.child name).parts node).Sound := hsound.put hname hdb (.inr hnot)

theorem leads_child (hsound : tree.Sound)
    (hdb : tree.node? db.parts = some .directory) (hname : Name.Proper name)
    (hfits : (db.child name).fits = true) (hfree : tree.Free (db.child name).parts) :
    tree.Leads (db.child name) (db.child name).parts := by
  refine ⟨?_, hfree⟩
  rcases hfree with hnone | ⟨content, hfile⟩
  · exact (hsound.walkPath_missing hdb hname hnone).trans (if_pos hfits)
  · exact (hsound.walkPath_entry hfile rfl).trans (if_pos hfits)

theorem apart_children {names : List Name} (hdistinct : names.Nodup)
    (hleads : ∀ name ∈ names, tree.Leads (db.child name) (db.child name).parts) :
    Apart tree (names.map db.child) := by
  refine List.pairwise_map.mpr (hdistinct.imp_of_mem ?_)
  intro name other hname hother hne hsame
  rw [(hleads name hname).destination, (hleads other hother).destination] at hsame
  have hparts : db.parts ++ [name] = db.parts ++ [other] := Except.ok.inj hsame
  exact hne (by simpa using hparts)

namespace Stored

variable {readers : Readers} {root : Path} {tree made : FileTree}
  {found : List (Option (List (Record × Text)))}

theorem exists_file (hstored : Stored readers root tree made found) (hname : name ∈ fileNames) :
    ∃ t, made.node? ((root.child directoryName).child name).parts = some (.file (.text t)) := by
  have hnamed : name ∈ (filesOf found).map Prod.fst := hname
  obtain ⟨⟨_, t⟩, hfile, rfl⟩ := List.mem_map.mp hnamed
  refine ⟨t, ?_⟩
  rw [hstored.result]
  exact node?_putFiles_of_mem (distinct_indexFiles _ _) hfile _

theorem fits (hstored : Stored readers root tree made found) {name : Name}
    (hname : name ∈ fileNames) : ((root.child directoryName).child name).fits = true := by
  have hnamed : name ∈ (filesOf found).map Prod.fst := hname
  obtain ⟨file, hfile, rfl⟩ := List.mem_map.mp hnamed
  exact hstored.filesFit file hfile

theorem leads (hstored : Stored readers root tree made found) (hname : name ∈ fileNames) :
    made.Leads ((root.child directoryName).child name)
      ((root.child directoryName).child name).parts := by
  obtain ⟨t, hfile⟩ := hstored.exists_file hname
  exact leads_child hstored.sound_result hstored.node?_db
    (proper_of_mem_fileNames hname) (hstored.fits hname) (.inr ⟨_, hfile⟩)

theorem apart (hstored : Stored readers root tree made found) :
    Apart made (filePaths (root.child directoryName)) := by
  have hdistinct : fileNames.Nodup := by decide
  exact apart_children hdistinct fun name hname => hstored.leads hname

theorem sound_put (hstored : Stored readers root tree made found) (hname : name ∈ fileNames)
    (content : Content) :
    (made.put ((root.child directoryName).child name).parts (.file content)).Sound := by
  obtain ⟨t, hfile⟩ := hstored.exists_file hname
  apply sound_put_child hstored.sound_result (root.child directoryName)
    (proper_of_mem_fileNames hname) _ hstored.node?_db
  rw [hfile]
  simp

end Stored

end

/-! ## Records that are a link to the vectors -/

namespace Aliased

def folder : Path := ⟨["docs"]⟩

def db : Path := folder.child directoryName

def tree : FileTree :=
  ⟨[(folder.parts, .directory), (db.parts, .directory),
    ((recordsFile db).parts, .link "vectors.json".toList)]⟩

def made : FileTree :=
  ⟨tree.entries ++ [((vectorsFile db).parts, .file (.text (vectorsText []))),
    ((metaFile db).parts, .file (.text metaText)),
    ((markerFile db).parts, .file (.text markerText))]⟩

def damaged : FileTree :=
  made.remove (vectorsFile db).parts

theorem sound_tree : tree.Sound := by decide

theorem sound_made : made.Sound := by decide

theorem makes (readers : Readers) : Makes readers folder tree made [none, none] := by
  refine ⟨rfl, ⟨tree, rfl, ?_, ?_⟩, rfl⟩
  · have hbelow : tree.below folder = [db, recordsFile db] := rfl
    have hle : Path.le db (recordsFile db) = true := by decide
    have hsort : Path.sort (tree.below folder) = [db, recordsFile db] := by
      rw [hbelow, Path.sort]
      simp [List.mergeSort, hle]
    rw [hsort]
    exact .cons (.other rfl) (.cons (.other rfl) .nil)
  · exact ⟨tree.put (vectorsFile db).parts (.file (.text (recordsText []))), rfl,
      tree.put (vectorsFile db).parts (.file (.text (vectorsText []))), rfl,
      (tree.put (vectorsFile db).parts (.file (.text (vectorsText [])))).put
        (metaFile db).parts (.file (.text metaText)), rfl, made, rfl, rfl⟩

theorem holds : Holds made db [] where
  rooted := sound_made.rooted
  stored := by simp
  readRecords := rfl
  readVectors := rfl
  readNote := rfl

theorem replaced : Replaced [vectorsFile db, metaFile db] made damaged :=
  replaced_remove sound_made (.head _) ⟨rfl, .inr ⟨_, rfl⟩⟩

end Aliased

/-! ## Vectors as they were -/

/-- Vectors that do not fit are made again as they were when the index was made,
and they are read as those were, as long as no two files of the index are at one
place. -/
theorem vectors_made_again {tree made : FileTree} (hsound : tree.Sound)
    {readers : Readers} {folder : Path} {allowance : Allowance}
    {summary : Summary}
    (hending : ((prepare readers folder).run allowance tree).ending =
      .finished summary)
    (hstate : ((prepare readers folder).run allowance tree).state = made)
    (hapart : Apart made (filePaths summary.db)) {damaged : FileTree}
    (hreplaced : Replaced [vectorsFile summary.db, metaFile summary.db]
      made damaged)
    (hunfit : ¬ Fit damaged summary.db summary.pages) :
    ∃ vectors,
      ((loadVectors summary.db).run none made).ending = .finished vectors ∧
      ((loadVectors summary.db).run none damaged).ending = .finished vectors ∧
      ∀ path ∈ [recordsFile summary.db, vectorsFile summary.db,
          metaFile summary.db],
        ∃ t, made.read path = .ok (.text t) ∧
          ((loadVectors summary.db).run none damaged).state.read path =
            .ok (.text t) := by
  have hresult := Action.result_of_run hending
  rw [hstate] at hresult
  obtain ⟨root, found, -, -, -, hmakes, rfl⟩ := prepare_eq_finished_iff.mp hresult
  have hholds := hmakes.holds hsound.rooted hapart
  have hcount : (found.filterMap id).flatten.length =
      (recordsOf found).length := by
    rw [recordsOf, List.length_map]
  rw [hcount] at hunfit
  obtain ⟨repaired, hload, hrepaired⟩ :=
    (hholds.repairable hapart hreplaced).exists_repaired hunfit
  refine ⟨vectorsFor (recordsOf found), ?_, ?_, ?_⟩
  · rw [Action.ending_run_none, hholds.result_loadVectors]
  · rw [Action.ending_run_none, hload]
  · rw [Action.state_run_none, hload]
    simp only [List.forall_mem_cons]
    exact ⟨⟨_, hholds.readRecords, hrepaired.readRecords⟩,
      ⟨_, hholds.readVectors, hrepaired.readVectors⟩,
      ⟨_, hholds.readNote, hrepaired.readNote⟩, by simp⟩

/-- The vectors of a note are made again after they were cut off. -/
theorem cut_vectors_made_again :
    ∃ made summary damaged vectors,
      ((prepare Note.setting.readers Note.folder).run none
        (Note.treeOf ['b'])).ending = .finished summary ∧
      ((prepare Note.setting.readers Note.folder).run none
        (Note.treeOf ['b'])).state = made ∧
      Apart made (filePaths summary.db) ∧
      Replaced [vectorsFile summary.db, metaFile summary.db] made damaged ∧
      damaged.read (vectorsFile summary.db) = .ok (.text ['[']) ∧
      ¬ Fit damaged summary.db summary.pages ∧
      ((loadVectors summary.db).run none made).ending = .finished vectors ∧
      ((loadVectors summary.db).run none damaged).ending = .finished vectors := by
  have hpages : pagesOfText linesPerPage (Text.unixNewlines ['b']) =
      .ok [['b']] := rfl
  obtain ⟨made, found, hmakes⟩ := Note.exists_makes Note.setting.readers hpages
  have hsound := Note.sound_treeOf ['b']
  have hfolder : (Note.treeOf ['b']).node? Note.folder.parts =
    some .directory := rfl
  obtain ⟨summary, hdb, hresult⟩ : ∃ summary : Summary,
      summary.db = Note.folder.child directoryName ∧
      (prepare Note.setting.readers Note.folder).result (Note.treeOf ['b']) =
        (made, .finished summary) :=
    ⟨_, rfl, prepare_eq_finished_iff.mpr ⟨Note.folder, found, rfl,
      hsound.resolve_entry hfolder rfl, rfl, hmakes, rfl⟩⟩
  have hending : ((prepare Note.setting.readers Note.folder).run none
      (Note.treeOf ['b'])).ending = .finished summary := by
    rw [Action.ending_run_none, hresult]
  have hstate : ((prepare Note.setting.readers Note.folder).run none
      (Note.treeOf ['b'])).state = made := by
    rw [Action.state_run_none, hresult]
  have hstored := hmakes.stored hsound hfolder (clear_treeOf ['b']).linkFree
  have hname : "vectors.json" ∈ fileNames := .tail _ (.head _)
  have hapart := hstored.apart
  have hleads : made.Leads (vectorsFile (Note.folder.child directoryName))
      (vectorsFile (Note.folder.child directoryName)).parts :=
    hstored.leads hname
  have hreplaced : Replaced [vectorsFile (Note.folder.child directoryName),
        metaFile (Note.folder.child directoryName)] made
      (made.put (vectorsFile (Note.folder.child directoryName)).parts
        (.file (.text ['[']))) :=
    replaced_put (hstored.sound_put hname _) (.head _) hleads
  have hread := (hleads.put hleads.free (.text ['['])).read_file
    hreplaced.sound.rooted (node?_put_self made _ hleads.free.ne_nil)
  rw [← hdb] at hapart hreplaced hread
  have hunfit : ∀ count, ¬ Fit (made.put (vectorsFile summary.db).parts
      (.file (.text ['[']))) summary.db count := by
    rintro count ⟨-, items, hjson, -⟩
    rw [readJson, hread] at hjson
    cases hjson
  obtain ⟨vectors, hbefore, hafter, -⟩ :=
    vectors_made_again hsound hending hstate hapart hreplaced (hunfit _)
  exact ⟨made, summary, _, vectors, hending, hstate, hapart, hreplaced, hread,
    hunfit _, hbefore, hafter⟩

/-- Records that are a link to the vectors are lost with them. -/
theorem linked_records_lost :
    Aliased.tree.Sound ∧
      ((prepare Note.setting.readers Aliased.folder).run none
        Aliased.tree).ending = .finished ⟨Aliased.folder, Aliased.db, 0, 0⟩ ∧
      ((prepare Note.setting.readers Aliased.folder).run none
        Aliased.tree).state = Aliased.made ∧
      Replaced [vectorsFile Aliased.db, metaFile Aliased.db] Aliased.made
        Aliased.damaged ∧
      ¬ Fit Aliased.damaged Aliased.db 0 ∧
      ((loadVectors Aliased.db).run none Aliased.made).ending = .finished [] ∧
      ((loadVectors Aliased.db).run none Aliased.damaged).ending =
        .failed Complaint.noCollection.fault := by
  have hresult : (prepare Note.setting.readers Aliased.folder).result
      Aliased.tree =
        (Aliased.made, .finished ⟨Aliased.folder, Aliased.db, 0, 0⟩) :=
    prepare_eq_finished_iff.mpr ⟨Aliased.folder, [none, none], rfl,
      Aliased.sound_tree.resolve_entry rfl rfl, rfl,
      Aliased.makes Note.setting.readers, rfl⟩
  refine ⟨Aliased.sound_tree, ?_, ?_, Aliased.replaced, ?_, ?_, rfl⟩
  · rw [Action.ending_run_none, hresult]
  · rw [Action.state_run_none, hresult]
  · rintro ⟨-, items, hjson, -⟩
    cases hjson
  · rw [Action.ending_run_none, Aliased.holds.result_loadVectors]
    rfl

end Folio.Index
