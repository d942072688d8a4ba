import Folio.Proofs.InterruptedWriting

/-!
# Vectors that stay as they were loaded

Vectors are loaded in two steps.  They are made again from the records unless they
fit them, and then their file is read.  Making them ends with two writes between
which there is no checkpoint, so a run that is stopped has done both or none.

What is loaded fits the records: there are as many vectors as records, and the note
beside them is current.  Loading again then finds nothing to repair.  All this rests
on the records staying as they are, so neither the vectors nor the note may be
written to the place of the records.
-/

namespace Folio

variable {vectors : List Embedding} {records : List Record}

namespace Index

open Folio.Action FileTree TreeAction

/-! ## What is read again -/

theorem calm_deliver (vectors : List Embedding) : (deliver vectors).Calm :=
  (calm_checkTimes _ _).bind fun _ => calm_pure _

theorem readBack_cases (db : Path) (tree : FileTree) : (∃ e, readBack db tree = .failed tree e) ∨
      ∃ vectors, readVectors tree db = .ok vectors ∧ readBack db tree = deliver vectors tree := by
  rcases ask_cases (·.isFile? (vectorsFile db)) tree with
    ⟨-, -, e, hfailed⟩ | ⟨found, hfound, hask⟩
  · exact .inl ⟨e, bind_of_failed hfailed⟩
  · cases found with
    | false =>
      refine .inl ⟨Complaint.noCollection.fault, ?_⟩
      unfold readBack
      rw [bind_of_done hask]
      rfl
    | true =>
      cases hread : readVectors tree db with
      | ok vectors => exact .inr ⟨vectors, rfl, readBack_eq hfound hread⟩
      | error e =>
        refine .inl ⟨e, ?_⟩
        unfold readBack
        rw [bind_of_done hask]
        simp only [Bool.not_true, Bool.false_eq_true, if_false]
        rw [get_bind]
        rw [hread]
        rfl

/-! ## Vectors that are made again -/

/-- The vectors of the records, before any of them is written. -/
def encode (db : Path) : TreeAction (List Embedding) := do
  let records ← loadRecords db
  Action.checkTimes "semantic.rebuild_vectors.record" records.length
  embedAll (records.map Record.searchText)

/-- Writes vectors and the note on them, and reads them again. -/
def store (db : Path) (vectors : List Embedding) : TreeAction (List Embedding) := do
  TreeAction.write (vectorsFile db) (vectorsText vectors)
  TreeAction.write (metaFile db) metaText
  readBack db

theorem rebuild_eq (db : Path) :
    (rebuildVectors db >>= fun _ => readBack db) = encode db >>= store db := by
  simp only [rebuildVectors, encode, bind_assoc]
  rfl

theorem calm_encode (db : Path) : (encode db).Calm :=
  (calm_loadRecords db).bind fun _ => (calm_checkTimes _ _).bind fun _ => calm_embedAll _

theorem result_encode {tree : FileTree} {db : Path} (hlists : Lists tree db records) :
    (encode db).result tree = (tree, .finished (vectorsFor records)) := by
  unfold encode
  rw [result_bind_of_finished hlists.result_loadRecords,
    result_bind_of_finished (result_checkTimes _ _ tree)]
  exact result_embedAll _ tree

def Rebuilt (tree : FileTree) (db : Path) (records : List Record) : Prop :=
  tree.read (vectorsFile db) = .ok (.text (vectorsText (vectorsFor records))) ∧
    tree.read (metaFile db) = .ok (.text metaText)

theorem readJson_congr {tree last : FileTree} {path : Path}
    (hread : last.read path = tree.read path) : readJson last path = readJson tree path := by
  unfold readJson
  rw [hread]

theorem readVectors_ne_ok {tree : FileTree} {db : Path}
    (hread : tree.read (vectorsFile db) = .ok (.text metaText)) :
    readVectors tree db ≠ .ok vectors := by
  obtain ⟨note, hparse, hcurrent⟩ := exists_parse_metaText
  unfold readVectors
  rw [readJson_eq_ok hread hparse]
  cases note with
  | object fields => simp
  | _ => cases hcurrent

section Storing

variable {tree : FileTree} {db : Path} {records : List Record} (hrooted : tree.Rooted)
  (hlists : Lists tree db records) (hapart : ∀ path ∈ [vectorsFile db, metaFile db],
    tree.destination path ≠ tree.destination (recordsFile db))
include hrooted hlists hapart

theorem lists_of_puts {spot place : List Name} {content note : Content}
    (hspot : tree.Leads (vectorsFile db) spot)
    (hplace : (tree.put spot (.file content)).Leads (metaFile db) place) :
    Lists ((tree.put spot (.file content)).put place (.file note)) db records := by
  obtain ⟨value, hjson, hrecords⟩ := hlists
  refine ⟨value, ?_, hrecords⟩
  obtain ⟨found, hread⟩ := exists_read_of_readJson hjson
  obtain ⟨home, hhome, hnode⟩ := exists_leads_of_read hread
  have hvectors : home ≠ spot := by
    rintro rfl
    exact hapart _ (by simp) (hspot.destination.trans hhome.destination.symm)
  have hnote : home ≠ place := by
    rintro rfl
    exact hapart _ (by simp) ((hplace.destination_of_put hspot.free).trans hhome.destination.symm)
  rw [← hjson]
  refine readJson_congr (Eq.trans ?_ hread.symm)
  refine ((hhome.put hspot.free content).put hplace.free note).read_file
    (hplace.rooted_put (hspot.rooted_put hrooted content) note) ?_
  rw [node?_put_of_ne _ _ hnote, node?_put_of_ne _ _ hvectors, hnode]

theorem store_cases : (∃ last e, store db (vectorsFor records) tree = .failed last e) ∨
      ∃ last, Steady last db records (vectorsFor records) ∧ Rebuilt last db records ∧
        store db (vectorsFor records) tree = deliver (vectorsFor records) last := by
  unfold store
  rcases write_cases (vectorsFile db) (vectorsText (vectorsFor records)) tree with
    ⟨e, hfailed⟩ | ⟨next, hnext, hdone⟩
  · exact .inl ⟨tree, e, bind_of_failed hfailed⟩
  rw [bind_of_done hdone]
  rcases write_cases (metaFile db) metaText next with ⟨e, hfailed⟩ | ⟨last, hlast, hdone⟩
  · exact .inl ⟨next, e, bind_of_failed hfailed⟩
  rw [bind_of_done hdone]
  rcases readBack_cases db last with ⟨e, hfailed⟩ | ⟨vectors, hvectors, hback⟩
  · exact .inl ⟨last, e, hfailed⟩
  obtain ⟨spot, hspot, rfl⟩ := exists_leads_of_write hrooted hnext
  have hnextRooted := hspot.rooted_put hrooted (.text (vectorsText (vectorsFor records)))
  obtain ⟨place, hplace, rfl⟩ := exists_leads_of_write hnextRooted hlast
  have hlastRooted := hplace.rooted_put hnextRooted (.text metaText)
  have hnote := hplace.put hplace.free (.text metaText)
  have hstored := (hspot.put hspot.free
    (.text (vectorsText (vectorsFor records)))).put hplace.free (.text metaText)
  have hreadNote := hnote.read_file hlastRooted (node?_put_self _ _ hplace.free.ne_nil)
  -- Vectors that lie where the note lies are no longer there.
  have hne : spot ≠ place := by
    rintro rfl
    exact readVectors_ne_ok (hstored.read_file hlastRooted
      (node?_put_self _ _ hplace.free.ne_nil)) hvectors
  have hreadVectors := hstored.read_file hlastRooted ((node?_put_of_ne _ _ hne).trans
    (node?_put_self _ _ hspot.free.ne_nil))
  obtain rfl : vectorsFor records = vectors :=
    Except.ok.inj ((readVectors_eq hreadVectors).symm.trans hvectors)
  exact .inr ⟨_, ⟨lists_of_puts hrooted hlists hapart hspot hplace,
    hasCurrentMeta_of_read hreadNote, isFile?_of_read hreadVectors, hvectors,
    length_vectorsFor records⟩, ⟨hreadVectors, hreadNote⟩, hback⟩

/-- A run that does not fail leaves the tree as it is, or ends by handing over vectors
that fit the records. -/
theorem loadVectors_run (allowance : Allowance) :
    (∃ e, ((loadVectors db).run allowance tree).ending = .failed e) ∨
      (((loadVectors db).run allowance tree).state = tree ∧
        ∀ vectors, ((loadVectors db).run allowance tree).ending ≠ .finished vectors) ∨
      ∃ last vectors passed printed, Steady last db records vectors ∧
        (last = tree ∨ Rebuilt last db records) ∧ (loadVectors db).run allowance tree =
          (deliver vectors last).follow allowance passed printed := by
  by_cases hfit : Fit tree db records.length
  · obtain ⟨vectors, hsteady⟩ := hfit.exists_steady hlists
    refine .inr (.inr ⟨tree, vectors, 0, [], hsteady, .inl rfl, ?_⟩)
    unfold Action.run
    rw [hsteady.loadVectors]
  rcases repairVectors_of_unfit hlists hfit with hrebuild | ⟨-, -, -, -, e, hfailed⟩
  · have hrun : (loadVectors db).run allowance tree =
        (encode db >>= store db).run allowance tree := by
      unfold Action.run
      rw [loadVectors_eq, ← rebuild_eq]
      exact congrArg (fun c : Course FileTree Fault Unit =>
        (c.bind fun s _ => readBack db s).follow allowance 0 []) hrebuild
    rw [hrun]
    have hstate : ((encode db).run allowance tree).state = tree :=
      (calm_encode db).state_run tree allowance
    by_cases hends : ∃ vectors, ((encode db).run allowance tree).ending = .finished vectors
    · obtain ⟨vectors, hvectors⟩ := hends
      have hsame := (result_of_run hvectors).symm.trans (result_encode hlists)
      obtain rfl : vectors = vectorsFor records := by simpa using (Prod.ext_iff.mp hsame).2
      obtain ⟨passed, printed, hfollow⟩ := exists_run_bind (f := store db) hvectors
      rw [hfollow, hstate]
      rcases store_cases hrooted hlists hapart with
        ⟨last, e, hfailed⟩ | ⟨last, hsteady, hrebuilt, hdeliver⟩
      · rw [hfailed]
        exact .inl ⟨e, rfl⟩
      · rw [hdeliver]
        exact .inr (.inr ⟨last, vectorsFor records, passed, printed, hsteady, .inr hrebuilt, rfl⟩)
    · have hnot := not_exists.mp hends
      obtain ⟨hsame, hending⟩ := run_bind_of_not_finished (f := store db) hnot
      refine .inr (.inl ⟨hsame.trans hstate, fun vectors => ?_⟩)
      rw [hending id]
      exact Ending.map_ne_finished hnot id vectors
  · refine .inl ⟨e, ?_⟩
    unfold Action.run
    rw [loadVectors_eq, bind_of_failed hfailed]
    rfl

end Storing

/-! ## An index of one record -/

namespace Lone

def db : Path := ⟨["docs", directoryName]⟩

def tree (vectors : List (List Name × Node)) : FileTree :=
  ⟨[(["docs"], .directory), (db.parts, .directory),
    ((recordsFile db).parts, .file (.text "[\x7b\x7d]".toList))] ++ vectors⟩

def bare : FileTree := tree []

def linked : FileTree :=
  tree [((vectorsFile db).parts, .link "records.json".toList)]

def repaired (tree : FileTree) (spot : List Name) : FileTree :=
  (tree.put spot (.file (.text (vectorsText (vectorsFor [⟨[]⟩]))))).put
    (metaFile db).parts (.file (.text metaText))

theorem not_fit {tree : FileTree} {count : Nat}
    (hnote : tree.isFile? (metaFile db) = .ok false) : ¬ Fit tree db count := by
  rintro ⟨⟨value, hvalue, -⟩, -⟩
  rw [isFile?_of_readJson hvalue] at hnote
  cases hnote

theorem result_bare : (loadVectors db).result bare =
      (repaired bare (vectorsFile db).parts, .finished (vectorsFor [⟨[]⟩])) := by
  have hsound : bare.Sound := by decide
  have hnote : bare.Leads (metaFile db) (metaFile db).parts := ⟨rfl, .inl rfl⟩
  exact result_loadVectors_of_unfit hsound.rooted ⟨_, rfl, rfl⟩ ⟨rfl, .inl rfl⟩ hnote
    (not_fit rfl) rfl rfl

theorem leads_linked : linked.Leads (vectorsFile db) (recordsFile db).parts := ⟨rfl, .inr ⟨_, rfl⟩⟩

theorem leads_note : linked.Leads (metaFile db) (metaFile db).parts := ⟨rfl, .inl rfl⟩

theorem rooted_linked : linked.Rooted := by
  have hsound : linked.Sound := by decide
  exact hsound.rooted

theorem result_linked : (loadVectors db).result linked =
      (repaired linked (recordsFile db).parts, .finished (vectorsFor [⟨[]⟩])) :=
  result_loadVectors_of_unfit rooted_linked ⟨_, rfl, rfl⟩ leads_linked leads_note
    (not_fit rfl) rfl rfl

theorem lists_repaired : Lists (repaired linked (recordsFile db).parts) db [] :=
  ⟨_, readJson_eq_ok rfl (Json.parse_rows true (vectorsFor [⟨[]⟩])), recordsOf?_rows _⟩

theorem result_repaired : ((loadVectors db).result (repaired linked (recordsFile db).parts)).2 =
      .finished (vectorsFor []) := by
  have hspot := leads_linked.free
  have hnote := leads_note.put hspot (.text (vectorsText (vectorsFor [⟨[]⟩])))
  have hrooted := hnote.rooted_put (leads_linked.rooted_put rooted_linked
    (.text (vectorsText (vectorsFor [⟨[]⟩])))) (.text metaText)
  have hvectors := (leads_linked.put hspot
    (.text (vectorsText (vectorsFor [⟨[]⟩])))).put hnote.free (.text metaText)
  refine congrArg Prod.snd (result_loadVectors_of_unfit hrooted lists_repaired hvectors
    (hnote.put hnote.free (.text metaText)) (fun hfit => ?_) rfl rfl)
  have hlength := length_eq_of_fit rfl hfit
  rw [length_vectorsFor] at hlength
  cases hlength

end Lone

/-! ## Vectors as they stay -/

/-- Wherever loading comes to an end, its vectors are as many as the records, and
loading again writes nothing and comes to the same vectors.  Wherever it is stopped,
the vectors and their note are both untouched or both made again. -/
theorem loaded_vectors_stay {tree : FileTree} (hrooted : tree.Rooted) {db : Path}
    {items : List Json} (hrecords : readJson tree (recordsFile db) = .ok (.array items))
    (hapart : ∀ path ∈ [vectorsFile db, metaFile db],
      tree.destination path ≠ tree.destination (recordsFile db)) (allowance : Allowance) :
    ∃ records, loadRecords db tree = .done tree records ∧
      (∀ vectors, ((loadVectors db).run allowance tree).ending = .finished vectors →
        let last := ((loadVectors db).run allowance tree).state
        vectors.length = records.length ∧ loadRecords db last = .done last records ∧
          loadVectors db last = deliver vectors last) ∧
      ∀ phase count, ((loadVectors db).run allowance tree).ending = .stopped phase count →
        let last := ((loadVectors db).run allowance tree).state
        last = tree ∨ Rebuilt last db records := by
  have hlists : Lists tree db _ := ⟨_, hrecords, rfl⟩
  refine ⟨_, hlists.loadRecords, ?_⟩
  rcases loadVectors_run hrooted hlists hapart allowance with
    ⟨e, hfailed⟩ | ⟨hstate, hends⟩ | ⟨last, vectors, passed, printed, hsteady, hlast, hrun⟩
  · rw [hfailed]
    exact ⟨fun _ hfinished => (nomatch hfinished), fun _ _ hstopped => (nomatch hstopped)⟩
  · exact ⟨fun vectors hfinished => absurd hfinished (hends vectors),
      fun _ _ _ => .inl hstate⟩
  · have hstate : ((loadVectors db).run allowance tree).state = last := by
      rw [hrun]
      exact (calm_deliver vectors).state_follow last allowance passed printed
    refine ⟨fun found hfinished => ?_, fun _ _ _ => ?_⟩
    · have hsame := (Course.last_of_follow hrun.symm hfinished).symm.trans
        (result_deliver vectors last)
      obtain rfl : found = vectors := by simpa using (Prod.ext_iff.mp hsame).2
      simp only [hstate]
      exact ⟨hsteady.count, hsteady.lists.loadRecords, hsteady.loadVectors⟩
    · simp only [hstate]
      exact hlast

/-- Missing vectors are made once, and as many as there are records. -/
theorem missing_vectors_stay :
    ∃ records last, loadRecords Lone.db Lone.bare = .done Lone.bare records ∧
      ((loadVectors Lone.db).run none Lone.bare).state = last ∧
      ((loadVectors Lone.db).run none Lone.bare).ending =
        .finished (vectorsFor [⟨[]⟩]) ∧
      (vectorsFor [⟨[]⟩]).length = records.length ∧
      loadVectors Lone.db last = deliver (vectorsFor [⟨[]⟩]) last := by
  have hsound : Lone.bare.Sound := by decide
  have hjson : readJson Lone.bare (recordsFile Lone.db) = .ok (.array [.object []]) := rfl
  have hending : ((loadVectors Lone.db).run none Lone.bare).ending =
      .finished (vectorsFor [⟨[]⟩]) := by
    rw [ending_run_none, Lone.result_bare]
  obtain ⟨records, hrecords, hfinished, -⟩ :=
    loaded_vectors_stay hsound.rooted hjson (by decide) none
  obtain ⟨hcount, -, hagain⟩ := hfinished _ hending
  exact ⟨records, _, hrecords, rfl, hending, hcount, hagain⟩

/-- Vectors that are written over their records are lost with them. -/
theorem linked_vectors_lost :
    readJson Lone.linked (recordsFile Lone.db) = .ok (.array [.object []]) ∧
      ∃ last, ((loadVectors Lone.db).run none Lone.linked).state = last ∧
        ((loadVectors Lone.db).run none Lone.linked).ending =
          .finished (vectorsFor [⟨[]⟩]) ∧
        ((loadRecords Lone.db).run none last).ending = .finished [] ∧
        ((loadVectors Lone.db).run none last).ending = .finished [] := by
  refine ⟨rfl, Lone.repaired Lone.linked (recordsFile Lone.db).parts, ?_⟩
  simp only [state_run_none, ending_run_none, Lone.result_linked, true_and]
  exact ⟨congrArg (fun c : Course FileTree Fault (List Record) => c.last.2)
    Lone.lists_repaired.loadRecords, Lone.result_repaired⟩

end Index

end Folio
