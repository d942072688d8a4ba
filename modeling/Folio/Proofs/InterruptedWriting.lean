import Folio.Proofs.FailedPreparation

/-!
# Indexes that were written in part

The files of an index are written one after the other: the records, their
vectors, the note on the vectors and the marker.  Writing over an earlier index
may stop after any of them.  The first files are then new and the others are
still the old ones.

Vectors do not say which records they belong to.  They are made again if they are
not as many as the records, so of all the ways to stop only one is taken for a
whole index: new records beside as many old vectors.
-/

namespace Folio

variable {tree : FileTree} {db : Path} {records : List Record} {name : Name} {t : Text} {k : Nat}

theorem Course.exists_follow_bind {σ ε α β : Type} {allowance : Allowance} {c : Course σ ε α}
    {f : σ → α → Course σ ε β} {count : Nat} {pieces : List Text} {v : α}
    (hends : (c.follow allowance count pieces).ending = .finished v) :
    ∃ passed printed, (c.bind f).follow allowance count pieces =
      (f (c.follow allowance count pieces).state v).follow allowance passed printed := by
  induction c generalizing count pieces with
  | done s a =>
    cases hends
    exact ⟨count, pieces, rfl⟩
  | failed s e => cases hends
  | lost s => cases hends
  | checkpoint phase s next ih =>
    simp only [Course.bind, Course.follow] at hends ⊢
    split at hends
    · rename_i hadmitted
      simp only [if_pos hadmitted]
      exact ih () hends
    · cases hends
  | print text next ih => exact ih () hends

theorem Action.exists_run_bind {σ ε α β : Type} {allowance : Allowance} {a : Action σ ε α}
    {f : α → Action σ ε β} {s : σ} {v : α} (hends : (a.run allowance s).ending = .finished v) :
    ∃ passed printed, (a >>= f).run allowance s =
      (f v (a.run allowance s).state).follow allowance passed printed :=
  Course.exists_follow_bind hends

namespace Index

open FileTree

/-! ## Writing that stops -/

def writeEach (directory : Path) : List (Name × Text) → TreeAction Unit
  | [] => return ()
  | (name, t) :: rest => do
    TreeAction.write (directory.child name) t
    writeEach directory rest

theorem writeFiles_eq (db : Path) (records : List Record) (texts : List Text) :
    writeFiles db records texts = (do
      let vectors ← embedAll texts
      if records.any Record.isTooLong then throw (.failure .numberTooLong)
      writeEach db [("records.json", recordsText records),
        ("vectors.json", vectorsText vectors), ("meta.json", metaText),
        ("pages.faiss", markerText)]) := by
  simp only [writeFiles, writeEach, bind_pure_unit]
  rfl

theorem write_cases (path : Path) (t : Text) (tree : FileTree) :
    (∃ e, TreeAction.write path t tree = .failed tree e) ∨ ∃ next, tree.write path t = .ok next ∧
        TreeAction.write path t tree = .done next () := by
  unfold TreeAction.write
  rcases TreeAction.ask_cases (·.write path t) tree with ⟨-, -, e, hask⟩ | ⟨next, hnext, hask⟩
  · exact .inl ⟨e, Action.bind_of_failed hask⟩
  · exact .inr ⟨next, hnext, Action.bind_of_done hask⟩

theorem exists_writes_follow (directory : Path) (files : List (Name × Text)) (allowance : Allowance)
    (count : Nat) (pieces : List Text) (tree : FileTree) : ∃ k, Writes directory (files.take k) tree
      ((writeEach directory files tree).follow allowance count pieces).state := by
  induction files generalizing tree with
  | nil => exact ⟨0, rfl⟩
  | cons file files ih =>
    unfold writeEach
    rcases write_cases (directory.child file.1) file.2 tree with
      ⟨e, hwrite⟩ | ⟨next, hnext, hwrite⟩
    · rw [Action.bind_of_failed hwrite]
      exact ⟨0, rfl⟩
    · rw [Action.bind_of_done hwrite]
      obtain ⟨k, hwrites⟩ := ih next
      exact ⟨k + 1, next, hnext, hwrites⟩

theorem exists_writes_run (db : Path) (records : List Record) (texts : List Text)
    (allowance : Allowance) (tree : FileTree) :
    ∃ k, Writes db ((indexFiles records texts).take k) tree
      ((writeFiles db records texts).run allowance tree).state := by
  rw [writeFiles_eq]
  have hcalm : ((embedAll texts : TreeAction _).run allowance tree).state = tree :=
    (calm_embedAll texts).state_run tree allowance
  by_cases hends : ∃ vectors,
      ((embedAll texts : TreeAction _).run allowance tree).ending = .finished vectors
  · obtain ⟨vectors, hends⟩ := hends
    have hresult := Action.result_of_run hends
    rw [result_embedAll, Prod.mk.injEq, Ending.finished.injEq] at hresult
    obtain ⟨passed, printed, hrun⟩ := Action.exists_run_bind hends
    rw [hrun, hcalm, ← hresult.2]
    split
    · exact ⟨0, rfl⟩
    · exact exists_writes_follow db (indexFiles records texts) _ _ _ tree
  · rw [not_exists] at hends
    rw [(Action.run_bind_of_not_finished hends).1, hcalm]
    exact ⟨0, rfl⟩

/-! ## Vectors that are read -/

theorem recordsOf?_rows (vectors : List Embedding) : recordsOf? (Json.rows vectors) = some [] := by
  simp [recordsOf?, Json.rows, List.filterMap_map]

theorem length_eq_of_fit {vectors : List Embedding}
    (hread : tree.read (vectorsFile db) = .ok (.text (vectorsText vectors))) {count : Nat}
    (hfit : Fit tree db count) : vectors.length = count := by
  obtain ⟨others, hothers, hlength⟩ := exists_readVectors_iff.mpr hfit.vectors
  rw [readVectors_eq hread] at hothers
  cases hothers
  exact hlength

theorem length_vectorsFor (records : List Record) :
    (vectorsFor records).length = records.length := by
  simp [vectorsFor]

/-- First the vectors of an index are loaded and then its records. -/
def Loads (tree : FileTree) (db : Path) (vectors : List Embedding)
    (records : List Record) : Prop :=
  ∃ last, (loadVectors db).result tree = (last, .finished vectors) ∧
    (loadRecords db).result last = (last, .finished records)

theorem Holds.loads (hholds : Holds tree db records) : Loads tree db (vectorsFor records) records :=
  ⟨tree, hholds.result_loadVectors, hholds.result_loadRecords⟩

theorem Repairable.loads (hrepairable : Repairable tree db records)
    (hunfit : ¬ Fit tree db records.length) :
    Loads tree db (vectorsFor records) records := by
  obtain ⟨repaired, hload, hholds⟩ := hrepairable.exists_repaired hunfit
  exact ⟨repaired, hload, hholds.result_loadRecords⟩

/-! ## Files that are not written over -/

namespace Writes

variable {directory : Path} {files : List (Name × Text)} {tree stopped : FileTree}
  (hwrites : Writes directory files tree stopped) (hrooted : tree.Rooted)
include hwrites hrooted

theorem destination_eq {path : Path} {place : List Name} (hleads : tree.Leads path place) :
    stopped.destination path = tree.destination path :=
  (hwrites.leads hrooted hleads).destination.trans hleads.destination.symm

theorem apart {paths : List Path} (hleads : ∀ path ∈ paths, ∃ place, tree.Leads path place)
    (hapart : Apart tree paths) : Apart stopped paths := by
  refine hapart.imp_of_mem fun {p q} hp hq hne => ?_
  obtain ⟨place, hplace⟩ := hleads p hp
  obtain ⟨spot, hspot⟩ := hleads q hq
  rwa [hwrites.destination_eq hrooted hplace, hwrites.destination_eq hrooted hspot]

theorem read_other (hleads : ∀ file ∈ files, ∃ place, tree.Leads (directory.child file.1) place)
    {path : Path} {content : Content} (hread : tree.read path = .ok content)
    (hother : ∀ file ∈ files, tree.destination (directory.child file.1) ≠ tree.destination path) :
    stopped.read path = .ok content := by
  obtain ⟨place, hplace, hnode⟩ := exists_leads_of_read hread
  apply (hwrites.leads hrooted hplace).read_file (hwrites.rooted hrooted)
  rw [hwrites.kept hrooted, hnode]
  intro file hfile
  obtain ⟨spot, hspot⟩ := hleads file hfile
  rw [hwrites.destination_eq hrooted hspot, ← hplace.destination]
  exact hother file hfile

omit hwrites in
theorem exists_writes
    (hleads : ∀ file ∈ files, ∃ place, tree.Leads (directory.child file.1) place) :
    ∃ stopped, Writes directory files tree stopped := by
  induction files generalizing tree with
  | nil => exact ⟨tree, rfl⟩
  | cons file files ih =>
    obtain ⟨⟨place, hplace⟩, hrest⟩ := List.forall_mem_cons.mp hleads
    have hfirst := hplace.write file.2
    obtain ⟨stopped, hwrites⟩ := ih (hplace.rooted_put hrooted (.text file.2))
      fun other hother => by
        obtain ⟨spot, hspot⟩ := hrest other hother
        exact ⟨spot, hspot.put hplace.free _⟩
    exact ⟨stopped, _, hfirst, hwrites⟩

end Writes

/-! ## An index that is written over -/

/-- All files of an index were written, and they are at different places. -/
structure Whole (tree : FileTree) (db : Path) (records : List Record) : Prop where
  holds : Holds tree db records
  readMarker : tree.read (markerFile db) = .ok (.text markerText)
  apart : Apart tree (filePaths db)

theorem Makes.whole {readers : Readers} {root : Path} {made : FileTree}
    {found : List (Option (List (Record × Text)))} (hmakes : Makes readers root tree made found)
    (hrooted : tree.Rooted) (hapart : Apart made (filePaths (root.child directoryName))) :
    Whole made (root.child directoryName) (recordsOf found) := by
  obtain ⟨begun, hbegun, -, hwrites⟩ := hmakes.exists_begun
  have hread := hwrites.read (rooted_makeDirectory hrooted hmakes.isDirectory hbegun) hapart
  exact ⟨hmakes.holds hrooted hapart,
    hread ("pages.faiss", markerText) (List.mem_of_getLast? rfl), hapart⟩

def filesFor (records : List Record) : List (Name × Text) :=
  indexFiles records (records.map Record.searchText)

theorem records_mem_take (records : List Record) (k : Nat) :
    ("records.json", recordsText records) ∈ (filesFor records).take (k + 1) := by
  simp [filesFor, indexFiles]

theorem vectors_mem_take (records : List Record) (k : Nat) :
    ("vectors.json", vectorsText (vectorsFor records)) ∈ (filesFor records).take (k + 2) := by
  simp [filesFor, indexFiles, vectorsFor]

theorem vectors_mem_drop (records : List Record) :
    ("vectors.json", vectorsText (vectorsFor records)) ∈ (filesFor records).drop 1 := by
  simp [filesFor, indexFiles, vectorsFor]

theorem note_mem (records : List Record) : ("meta.json", metaText) ∈ filesFor records := by
  simp [filesFor, indexFiles]

theorem map_filesFor (db : Path) (records : List Record) :
    ((filesFor records).map fun file => db.child file.1) = filePaths db := rfl

theorem mem_filePaths {file : Name × Text}
    (hfile : file ∈ filesFor records) : db.child file.1 ∈ filePaths db := by
  rw [← map_filesFor db records]
  exact List.mem_map_of_mem hfile

namespace Whole

variable {tree stopped : FileTree} {db : Path} {old records : List Record} {k : Nat}
  (hwhole : Whole tree db old) (hwrites : Writes db ((filesFor records).take k) tree stopped)
include hwhole

theorem exists_leads (path : Path) (hpath : path ∈ filePaths db) :
    ∃ place, tree.Leads path place := by
  have hreads : ∀ path ∈ filePaths db, ∃ content, tree.read path = .ok content := by
    simp only [filePaths, List.forall_mem_cons]
    exact ⟨⟨_, hwhole.holds.readRecords⟩, ⟨_, hwhole.holds.readVectors⟩, ⟨_, hwhole.holds.readNote⟩,
      ⟨_, hwhole.readMarker⟩, by simp⟩
  obtain ⟨content, hread⟩ := hreads path hpath
  obtain ⟨place, hplace, -⟩ := exists_leads_of_read hread
  exact ⟨place, hplace⟩

theorem exists_writes (records : List Record) (k : Nat) :
    ∃ stopped, Writes db ((filesFor records).take k) tree stopped := by
  refine Writes.exists_writes hwhole.holds.rooted fun file hfile => ?_
  exact hwhole.exists_leads _ (mem_filePaths (List.mem_of_mem_take hfile))

include hwrites

theorem apart_stopped : Apart stopped (filePaths db) :=
  hwrites.apart hwhole.holds.rooted hwhole.exists_leads hwhole.apart

theorem read_written (hfile : (name, t) ∈ (filesFor records).take k) :
    stopped.read (db.child name) = .ok (.text t) := by
  have hapart := hwhole.apart_stopped hwrites
  rw [← map_filesFor db records] at hapart
  exact hwrites.read hwhole.holds.rooted
    (hapart.sublist ((List.take_sublist k _).map _)) (name, t) hfile

theorem read_unwritten (hfile : (name, t) ∈ (filesFor records).drop k) {content : Content}
    (hread : tree.read (db.child name) = .ok content) :
    stopped.read (db.child name) = .ok content := by
  have hapart := hwhole.apart
  rw [← map_filesFor db records, ← List.take_append_drop k (filesFor records),
    List.map_append] at hapart
  obtain ⟨-, -, hacross⟩ := List.pairwise_append.mp hapart
  refine hwrites.read_other hwhole.holds.rooted ?_ hread ?_
  · intro written hwritten
    exact hwhole.exists_leads _ (mem_filePaths (List.mem_of_mem_take hwritten))
  · intro written hwritten
    exact hacross _ (List.mem_map_of_mem hwritten) _ (List.mem_map_of_mem hfile)

/-- A file that is written as it was does not change, whether writing comes to it
or not. -/
theorem read_same (hfile : (name, t) ∈ filesFor records)
    (hread : tree.read (db.child name) = .ok (.text t)) :
    stopped.read (db.child name) = .ok (.text t) := by
  rw [← List.take_append_drop k (filesFor records), List.mem_append] at hfile
  rcases hfile with hwritten | hunwritten
  · exact hwhole.read_written hwrites hwritten
  · exact hwhole.read_unwritten hwrites hunwritten hread

theorem read_note : stopped.read (metaFile db) = .ok (.text metaText) :=
  hwhole.read_same hwrites (note_mem records) hwhole.holds.readNote

end Whole

section Stopped

variable {tree stopped : FileTree} {db : Path} {old records : List Record}
  (hwhole : Whole tree db old) (hstored : ∀ r ∈ records, Json.Stored (.object r.fields))
include hwhole hstored

theorem Whole.loads_of_first (hwrites : Writes db ((filesFor records).take 1) tree stopped) :
    Loads stopped db (vectorsFor (if records.length = old.length then old else records))
      records := by
  have hrooted := hwrites.rooted hwhole.holds.rooted
  have hrecords : stopped.read (recordsFile db) = .ok (.text (recordsText records)) :=
    hwhole.read_written hwrites (records_mem_take records 0)
  have hvectors : stopped.read (vectorsFile db) = .ok (.text (vectorsText (vectorsFor old))) :=
    hwhole.read_unwritten hwrites (vectors_mem_drop records) hwhole.holds.readVectors
  have hnote := hwhole.read_note hwrites
  split
  · rename_i hcount
    have hsteady := steady_of_read hvectors hstored hrecords hnote
      ((length_vectorsFor old).trans hcount.symm)
    exact ⟨stopped, hsteady.result_loadVectors, hsteady.lists.result_loadRecords⟩
  · rename_i hcount
    obtain ⟨spot, hspot, -⟩ := exists_leads_of_read hvectors
    obtain ⟨place, hplace, -⟩ := exists_leads_of_read hnote
    have hrepairable : Repairable stopped db records :=
      ⟨hrooted, hstored, hrecords, ⟨spot, hspot⟩, ⟨place, hplace⟩,
        (hwhole.apart_stopped hwrites).sublist (List.sublist_append_left _ [markerFile db])⟩
    refine hrepairable.loads fun hfit => hcount ?_
    rw [← length_eq_of_fit hvectors hfit, length_vectorsFor]

theorem Whole.loads_of_second (hwrites : Writes db ((filesFor records).take (k + 2)) tree stopped) :
    Loads stopped db (vectorsFor records) records := by
  have hholds : Holds stopped db records := ⟨hwrites.rooted hwhole.holds.rooted, hstored,
      hwhole.read_written hwrites (records_mem_take records (k + 1)),
      hwhole.read_written hwrites (vectors_mem_take records k), hwhole.read_note hwrites⟩
  exact hholds.loads

/-- Whatever was written, only new records beside as many old vectors are loaded
with vectors of other records. -/
theorem Whole.loads_of_writes
    (hwrites : Writes db ((filesFor records).take k) tree stopped) : Loads stopped db
      (vectorsFor (if k = 1 ∧ records.length = old.length then old
        else if k = 0 then old else records)) (if k = 0 then old else records) := by
  match k with
  | 0 =>
    cases hwrites
    simpa using hwhole.holds.loads
  | 1 => simpa using hwhole.loads_of_first hstored hwrites
  | k + 2 => simpa using hwhole.loads_of_second hstored hwrites

end Stopped

/-! ## A note whose word is doubled -/

namespace Doubled

def before : Record := .ofPage "note.txt".toList "note.txt".toList 1 "b".toList

def after : Record := .ofPage "note.txt".toList "note.txt".toList 1 "b b".toList

theorem stored_after : ∀ r ∈ [after], Json.Stored (.object r.fields) := by
  rw [List.forall_mem_singleton]
  exact Record.stored_ofPage _ _ _ _ ((Record.isTooLong_ofPage _ _ _ _).trans isTooLong_one)

set_option maxRecDepth 20000 in
theorem embed_ne : embed before.searchText ≠ embed after.searchText := by
  -- No other word falls into the bucket of the word that is doubled.
  have hbefore : (tokens before.searchText).map bucket = [246, 159, 226, 117] := by decide +kernel
  have hafter : tokens after.searchText =
      tokens before.searchText ++ (tokens before.searchText).drop 3 := by
    decide +kernel
  have hmoved : (scaled (histogram [246, 159, 226, 117]))[117]? ≠
      (scaled (histogram [246, 159, 226, 117, 117]))[117]? := by
    decide +kernel
  intro hsame
  rw [embed, embed, hafter, List.map_append, List.map_drop, hbefore] at hsame
  exact hmoved (congrArg (·[117]?) hsame)

theorem exists_whole : ∃ made summary,
    (prepare Note.setting.readers Note.folder).result (Note.treeOf ['b']) =
      (made, .finished summary) ∧ Whole made summary.db [before] := by
  have hpages : pagesOfText linesPerPage (Text.unixNewlines ['b']) = .ok [['b']] := rfl
  obtain ⟨made, found, hmakes⟩ := Note.exists_makes Note.setting.readers hpages
  have hsound := Note.sound_treeOf ['b']
  have hfolder : (Note.treeOf ['b']).node? Note.folder.parts = some .directory := rfl
  have hstored := hmakes.stored hsound hfolder (clear_treeOf ['b']).linkFree
  have hdocument : DocumentAt (Note.treeOf ['b']) Note.folder Note.path :=
    ⟨by decide, by decide, _, rfl⟩
  have hextract : (extract Note.setting.readers Note.path).result (Note.treeOf ['b']) =
      (Note.treeOf ['b'], .finished [['b']]) :=
    result_extract_text _ (by decide) rfl hpages
  obtain ⟨pages, hread, -, hrecords⟩ := hstored.records_of_document hdocument
  rw [hextract] at hread
  cases hread
  have hone : recordsOf found = [before] := by
    rw [List.filter_eq_self.mpr fun r hr => ?_] at hrecords
    · exact hrecords
    · obtain ⟨path, ⟨-, -, content, hfile⟩, hpath⟩ := hstored.document_of_record hr
      have hmem := mem_entries_of_node? hfile fun hnil => by
        rw [hnil] at hfile
        cases hfile
      simp only [Note.treeOf, List.mem_cons, Prod.mk.injEq, reduceCtorEq, and_false, false_or,
        List.not_mem_nil, or_false] at hmem
      obtain rfl : path = Note.path := congrArg Path.mk hmem.1
      rw [hpath]
      exact beq_self_eq_true _
  exact ⟨made, _, prepare_eq_finished_iff.mpr ⟨Note.folder, _, rfl,
    hsound.resolve_entry hfolder rfl, rfl, hmakes, rfl⟩,
    hone ▸ hmakes.whole hsound.rooted hstored.apart⟩

end Doubled

/-! ## Loading what was written in part -/

/-- However the writing of new records over an index ends, the first of its files
were written.  Vectors and records can be loaded after that, and the vectors are
those of the records, unless only the records were written and they are as many
as the old ones.  Then the vectors are those of the old records. -/
theorem interrupted_writing_loads {tree made : FileTree} (hsound : tree.Sound)
    {readers : Readers} {folder : Path} {allowance : Allowance}
    {summary : Summary}
    (hending : ((prepare readers folder).run allowance tree).ending =
      .finished summary)
    (hstate : ((prepare readers folder).run allowance tree).state = made)
    (hapart : Apart made (filePaths summary.db)) {records : List Record}
    (hstored : ∀ r ∈ records, Json.Stored (.object r.fields)) :
    (∀ limit, ∃ k, Writes summary.db ((filesFor records).take k) made
      ((writeFiles summary.db records (records.map Record.searchText)).run limit
        made).state) ∧
    ∃ old, ((loadRecords summary.db).run none made).ending = .finished old ∧
      ∀ k stopped, Writes summary.db ((filesFor records).take k) made stopped →
        ∃ read, read = (if k = 0 then old else records) ∧
          ((loadVectors summary.db).run none stopped).ending = .finished
            (vectorsFor (if k = 1 ∧ records.length = old.length then old else read)) ∧
          ((loadRecords summary.db).run none
            ((loadVectors summary.db).run none stopped).state).ending =
              .finished read := by
  have hresult := Action.result_of_run hending
  rw [hstate] at hresult
  obtain ⟨root, found, -, -, -, hmakes, rfl⟩ := prepare_eq_finished_iff.mp hresult
  have hwhole := hmakes.whole hsound.rooted hapart
  refine ⟨fun limit => exists_writes_run _ _ _ limit made, recordsOf found, ?_, ?_⟩
  · rw [Action.ending_run_none, hwhole.holds.result_loadRecords]
  · intro k stopped hwrites
    obtain ⟨last, hvectors, hrecords⟩ := hwhole.loads_of_writes hstored hwrites
    refine ⟨_, rfl, ?_, ?_⟩
    · rw [Action.ending_run_none, hvectors]
    · rw [Action.ending_run_none, Action.state_run_none, hvectors, hrecords]

/-- Writing that stops after the vectors of a note leaves an index of it. -/
theorem second_stop_loads_new :
    ∃ made summary stopped,
      ((prepare Note.setting.readers Note.folder).run none
        (Note.treeOf ['b'])).ending = .finished summary ∧
      ((prepare Note.setting.readers Note.folder).run none
        (Note.treeOf ['b'])).state = made ∧
      Apart made (filePaths summary.db) ∧
      Writes summary.db ((filesFor [Doubled.after]).take 2) made stopped ∧
      ((loadVectors summary.db).run none stopped).ending =
        .finished (vectorsFor [Doubled.after]) ∧
      ((loadRecords summary.db).run none
        ((loadVectors summary.db).run none stopped).state).ending =
          .finished [Doubled.after] := by
  obtain ⟨made, summary, hresult, hwhole⟩ := Doubled.exists_whole
  obtain ⟨stopped, hwrites⟩ := hwhole.exists_writes [Doubled.after] 2
  have hending : ((prepare Note.setting.readers Note.folder).run none
      (Note.treeOf ['b'])).ending = .finished summary := by
    rw [Action.ending_run_none, hresult]
  have hstate : ((prepare Note.setting.readers Note.folder).run none
      (Note.treeOf ['b'])).state = made := by
    rw [Action.state_run_none, hresult]
  obtain ⟨-, old, -, hloads⟩ := interrupted_writing_loads (Note.sound_treeOf ['b'])
    hending hstate hwhole.apart Doubled.stored_after
  obtain ⟨read, rfl, hvectors, hrecords⟩ := hloads 2 stopped hwrites
  exact ⟨made, summary, stopped, hending, hstate, hwhole.apart, hwrites,
    hvectors, hrecords⟩

/-- Writing that stops after the record of a note leaves the vector that the note
had before. -/
theorem first_stop_keeps_old_vectors :
    ∃ made summary stopped vectors,
      ((prepare Note.setting.readers Note.folder).run none
        (Note.treeOf ['b'])).ending = .finished summary ∧
      ((prepare Note.setting.readers Note.folder).run none
        (Note.treeOf ['b'])).state = made ∧
      Apart made (filePaths summary.db) ∧
      Writes summary.db ((filesFor [Doubled.after]).take 1) made stopped ∧
      ((loadVectors summary.db).run none stopped).ending = .finished vectors ∧
      ((loadRecords summary.db).run none
        ((loadVectors summary.db).run none stopped).state).ending =
          .finished [Doubled.after] ∧
      vectors ≠ vectorsFor [Doubled.after] := by
  obtain ⟨made, summary, hresult, hwhole⟩ := Doubled.exists_whole
  obtain ⟨stopped, hwrites⟩ := hwhole.exists_writes [Doubled.after] 1
  obtain ⟨last, hvectors, hrecords⟩ :=
    hwhole.loads_of_first Doubled.stored_after hwrites
  refine ⟨made, summary, stopped, vectorsFor [Doubled.before], ?_, ?_,
    hwhole.apart, hwrites, ?_, ?_, ?_⟩
  · rw [Action.ending_run_none, hresult]
  · rw [Action.state_run_none, hresult]
  · rw [Action.ending_run_none, hvectors]
    rfl
  · rw [Action.ending_run_none, Action.state_run_none, hvectors, hrecords]
  · intro hsame
    exact Doubled.embed_ne (List.head_eq_of_cons_eq hsame)

end Index

end Folio
