import Folio.Index.Prepare
import Folio.Proofs.CalmActions
import Folio.Proofs.IndexRecords
import Folio.Proofs.SoundTree
import Folio.Proofs.TextLines
import Folio.Proofs.TextVectors

/-!
# Making an index

What has happened when the index of a folder was made: its directory is there,
every document below the folder was read without any change to the tree, and the
four files were written one after the other.

The records of a document are found again among all records by the path that
they carry, since the documents of a sound tree have different paths in writing.
-/

namespace Folio

open Action FileTree TreeAction

variable {found : List (Option (List (Record × Text)))} {readers : Readers} {folder db : Path}
   {paths : List Path} {place : List Name} {files : List (Name × Text)}

variable {path : Path} {tree tree' : FileTree}

theorem Action.Calm.state_result {σ α : Type} {a : Action σ Fault α} (hcalm : a.Calm) (s : σ) :
    (a.result s).1 = s := (state_run_none a s).symm.trans (hcalm.state_run s none)

/-- Names that a path can have in a file system. -/
def Path.NoNull (path : Path) : Prop :=
  ∀ name ∈ path.parts, '\x00' ∉ name.toList

theorem Path.NoNull.any_eq_false {path : Path} (hnull : path.NoNull) :
    (path.parts.any fun part => part.toList.contains '\x00') = false := by
  rw [List.any_eq_false]
  intro name hname
  simpa using hnull name hname

/-! ## Steps on a tree -/

namespace TreeAction

variable {α : Type} {tree tree' : FileTree}

theorem ask_eq_finished_iff {question : FileTree → Except SystemError α} {answer : α} :
    (ask question).result tree = (tree', .finished answer) ↔
      tree' = tree ∧ question tree = .ok answer := by
  unfold ask
  rw [result_bind_of_finished (result_get tree)]
  cases question tree with
  | ok a => simp [eq_comm]
  | error e => simp

theorem ask_apply (question : FileTree → Except SystemError α) (tree : FileTree) :
    ask question tree = match question tree with
      | .ok answer => .done tree answer
      | .error e => .failed tree (.failure (.system e)) := by
  unfold ask
  rw [get_bind]
  cases question tree <;> rfl

theorem ask_of_ok {question : FileTree → Except SystemError α} {answer : α}
    (hanswer : question tree = .ok answer) : ask question tree = .done tree answer := by
  rw [ask_apply, hanswer]

theorem ask_cases (question : FileTree → Except SystemError α) (tree : FileTree) :
    (∃ e, question tree = .error e ∧ ∃ fault, ask question tree = .failed tree fault) ∨
      ∃ answer, question tree = .ok answer ∧ ask question tree = .done tree answer := by
  rw [ask_apply]
  cases question tree with
  | ok answer => exact .inr ⟨answer, rfl, rfl⟩
  | error e => exact .inl ⟨e, rfl, _, rfl⟩

theorem write_eq_finished_iff {t : Text} {u : Unit} :
    (write path t).result tree = (tree', .finished u) ↔ tree.write path t = .ok tree' := by
  unfold write
  rw [result_bind_eq_finished_iff]
  constructor
  · rintro ⟨_, written, hask, hset⟩
    cases hset
    exact (ask_eq_finished_iff.mp hask).2
  · intro hwrite
    exact ⟨tree, tree', ask_eq_finished_iff.mpr ⟨rfl, hwrite⟩, rfl⟩

theorem resolve_eq_finished_iff {found : Path} :
    (resolve path).result tree = (tree', .finished found) ↔ tree' = tree ∧
        (path.parts.any fun part => part.toList.contains '\x00') = false ∧
          tree.resolve path = .path found := by
  unfold resolve
  rw [result_ite_throw_eq_finished_iff, result_bind_of_finished (result_get tree), Bool.not_eq_true]
  cases tree.resolve path with
  | path p =>
    constructor
    · rintro ⟨hnull, hfound⟩
      cases hfound
      exact ⟨rfl, hnull, rfl⟩
    · rintro ⟨rfl, hnull, hfound⟩
      cases hfound
      exact ⟨hnull, rfl⟩
  | circle p =>
    constructor
    · rintro ⟨-, hfound⟩
      cases hfound
    · rintro ⟨-, -, hfound⟩
      cases hfound

end TreeAction

/-! ## Reading documents -/

theorem exists_pagesOfText (t : Text) :
    ∃ pages, pagesOfText linesPerPage t = .ok pages ∧ pages ≠ [] := by
  unfold pagesOfText
  by_cases ht : t = []
  · exact ⟨[[]], by simp [ht], by simp⟩
  · have hlines := splitLines_ne_nil ht
    refine ⟨_, by simp [ht, linesPerPage]; rfl, ?_⟩
    cases hsplit : Text.splitLines t with
    | nil => exact absurd hsplit hlines
    | cons line lines => simp [piecesOf, piecesOf.go]

namespace Index

section Pages

variable {I : FileTree → Prop} {n : Nat}

theorem keeps_textPages (path : Path) : (textPages linesPerPage path).Keeps I n (· ≠ []) := by
  refine (calm_ask _ _ _).bind fun content _ => ?_
  obtain ⟨pages, hpages, hne⟩ := exists_pagesOfText content.plainText
  dsimp only
  rw [hpages]
  refine Keeps.bind (P := (· ≠ [])) (keeps_pure hne) fun pages hne => ?_
  exact (keeps_checkTimes _ _).bind fun _ _ => keeps_pure hne

theorem keeps_pagedPages (path : Path) : (pagedPages path).Keeps I n (· ≠ []) := by
  refine (calm_ask _ _ _).bind fun content _ => (calm_ofFailure _ _ _).bind fun document _ => ?_
  refine (keeps_checkTimes _ _).bind fun _ _ => keeps_pure ?_
  unfold Paged.shownPages
  cases document.pages <;> simp

theorem keeps_wordPages (readers : Readers) (path : Path) :
    (wordPages readers path).Keeps I n (· ≠ []) := by
  refine (calm_ask _ _ _).bind fun content _ => ?_
  split
  · exact (keeps_checkTimes _ _).bind fun _ _ => keeps_pure (by simp)
  · unfold wordMarkupPages
    split
    · exact keeps_textPages path
    · exact (keeps_checkTimes _ _).bind fun _ _ => keeps_pure (by simp)

theorem calm_slideMarkup (slides : List (Option (List Text))) : (slideMarkup slides).Calm := by
  refine Action.Calm.foldList (fun done slide => ?_) _ slides
  split
  · exact calm_pure _
  · refine (calm_check _).bind fun _ => ?_
    split
    · exact calm_pure _
    · exact (calm_checkTimes _ _).bind fun _ => calm_pure _

theorem keeps_slidePages (readers : Readers) (path : Path) :
    (slidePages readers path).Keeps I n (· ≠ []) := by
  have hfilled : ∀ pages : List Text, (if pages.isEmpty then [[]] else pages) ≠ [] := by
    intro pages
    cases pages <;> simp
  refine (calm_ask _ _ _).bind fun content _ => ?_
  split
  · refine (Calm.mapList (fun slide => ?_) _ I n).bind fun pages _ => keeps_pure (hfilled pages)
    refine (calm_check _).bind fun _ => ?_
    exact (calm_checkTimes _ _).bind fun _ => calm_pure _
  · unfold slideMarkupPages
    split
    · exact keeps_textPages path
    · refine (calm_slideMarkup _ _ _).bind fun pages _ => ?_
      split
      · exact keeps_textPages path
      · exact keeps_pure (hfilled _)

/-- A document has a page, and taking its pages changes nothing. -/
theorem keeps_extract (readers : Readers) (path : Path) :
    (extract readers path).Keeps I n (· ≠ []) := by
  unfold extract
  split
  · split
    · exact keeps_pagedPages path
    · exact keeps_textPages path
  · exact keeps_wordPages readers path
  · exact keeps_slidePages readers path
  · exact keeps_textPages path

theorem calm_extract (readers : Readers) (path : Path) : (extract readers path).Calm :=
  fun _ _ => (keeps_extract readers path).imp fun _ _ => trivial

end Pages

theorem calm_recordsAt (readers : Readers) (folder db path : Path) :
    (recordsAt readers folder db path).Calm := by
  refine (calm_check _).bind fun _ => ?_
  have hdocument : (isDocument db path).Calm := by
    refine (calm_ask _).bind fun isFile => ?_
    split <;> exact calm_pure _
  refine hdocument.bind fun found => ?_
  split
  · have hrecords : (documentRecords readers folder path).Calm := by
      refine (calm_check _).bind fun _ => (calm_extract readers path).bind fun pages => ?_
      exact Calm.mapList (fun _ => (calm_check _).bind fun _ => calm_pure _) _
    exact hrecords.bind fun _ => calm_pure _
  · exact calm_pure _

section Documents

variable {tree other : FileTree} {path : Path}

theorem sameFrom_read (hread : tree.read path = other.read path) :
    (TreeAction.read path).SameFrom tree other := by
  unfold TreeAction.read TreeAction.ask Action.SameFrom
  rw [result_bind_of_finished (result_get tree), result_bind_of_finished (result_get other)]
  dsimp only
  rw [hread]
  cases other.read path with
  | ok content => exact ⟨_, rfl, rfl⟩
  | error e => exact ⟨_, rfl, rfl⟩

theorem stateless_ofFailure {α : Type} (value : Except Failure α) :
    (TreeAction.ofFailure value).Stateless := by
  cases value with
  | ok a => exact stateless_pure a
  | error e => exact stateless_throw _

theorem stateless_checked {α : Type} (phase : Phase) (n : Nat) (v : α) :
    (do Action.checkTimes phase n; return v : TreeAction α).Stateless :=
  (stateless_checkTimes _ _).bind fun _ => stateless_pure _

theorem sameFrom_textPages (hread : tree.read path = other.read path)
    (size : Int) : (textPages size path).SameFrom tree other := by
  refine (sameFrom_read hread).bind fun content => ?_
  refine Action.Stateless.sameFrom ?_ _ _
  exact (stateless_ofFailure _).bind fun pages => stateless_checked _ _ _

theorem sameFrom_pagedPages (hread : tree.read path = other.read path) :
    (pagedPages path).SameFrom tree other := by
  refine (sameFrom_read hread).bind fun content => ?_
  refine Action.Stateless.sameFrom ?_ _ _
  exact (stateless_ofFailure _).bind fun document => stateless_checked _ _ _

theorem sameFrom_wordPages (hread : tree.read path = other.read path)
    (readers : Readers) : (wordPages readers path).SameFrom tree other := by
  refine (sameFrom_read hread).bind fun content => ?_
  split
  · exact (stateless_checked _ _ _).sameFrom _ _
  · unfold wordMarkupPages
    split
    · exact sameFrom_textPages hread _
    · exact (stateless_checked _ _ _).sameFrom _ _

theorem stateless_slideMarkup (slides : List (Option (List Text))) :
    (slideMarkup slides).Stateless := by
  refine Action.Stateless.foldList (fun done slide => ?_) _ _
  split
  · exact stateless_pure _
  · refine (stateless_check _).bind fun _ => ?_
    split
    · exact stateless_pure _
    · exact stateless_checked _ _ _

theorem sameFrom_slidePages (hread : tree.read path = other.read path)
    (readers : Readers) : (slidePages readers path).SameFrom tree other := by
  refine (sameFrom_read hread).bind fun content => ?_
  split
  · refine Action.Stateless.sameFrom ?_ _ _
    refine Action.Stateless.bind (Action.Stateless.mapList (fun slide => ?_) _)
      fun pages => stateless_pure _
    exact (stateless_check _).bind fun _ => stateless_checked _ _ _
  · unfold slideMarkupPages
    split
    · exact sameFrom_textPages hread _
    · refine ((stateless_slideMarkup _).sameFrom _ _).bind fun pages => ?_
      split
      · exact sameFrom_textPages hread _
      · exact (stateless_pure _).sameFrom _ _

/-- The pages of a document are those of its content, and reading them changes
nothing. -/
theorem sameFrom_extract (hread : tree.read path = other.read path)
    (readers : Readers) : (extract readers path).SameFrom tree other := by
  unfold extract
  split
  · split
    · exact sameFrom_pagedPages hread
    · exact sameFrom_textPages hread _
  · exact sameFrom_wordPages hread readers
  · exact sameFrom_slidePages hread readers
  · exact sameFrom_textPages hread _

end Documents

/-- The records of a document with their texts, from its pages. -/
def pageRecords (folder path : Path) (pages : List Text) :
    List (Record × Text) :=
  pages.zipIdx.map fun (page, i) =>
    pageRecord (path.inside folder) path.name.toList (i + 1) page

theorem documentRecords_eq_finished_iff {records : List (Record × Text)} :
    (documentRecords readers folder path).result tree = (tree', .finished records) ↔
      tree' = tree ∧ ∃ pages, (extract readers path).result tree = (tree, .finished pages) ∧
          records = pageRecords folder path pages := by
  have hpages : ∀ pages : List Text, (Action.mapList (fun (page, i) => do
      Action.check "semantic.prepare.page"
      return pageRecord (path.inside folder) path.name.toList (i + 1) page)
      pages.zipIdx : TreeAction _).result tree =
        (tree, .finished (pageRecords folder path pages)) :=
    fun pages => result_mapList_of_eq (fun _ => rfl) _
  have hextract := (calm_extract readers path).state_result tree
  unfold documentRecords
  rw [result_bind_of_finished (result_check _ tree), result_bind_eq_finished_iff]
  constructor
  · rintro ⟨s, pages, hread, hrecords⟩
    rw [hread] at hextract
    subst hextract
    rw [hpages] at hrecords
    cases hrecords
    exact ⟨rfl, pages, hread, rfl⟩
  · rintro ⟨rfl, pages, hread, rfl⟩
    exact ⟨_, pages, hread, hpages pages⟩

theorem isDocument_eq_finished_iff {found : Bool} :
    (isDocument db path).result tree = (tree', .finished found) ↔
      tree' = tree ∧ ∃ isFile, tree.isFile? path = .ok isFile ∧
        found = (isFile && !path.isWithin db) := by
  unfold isDocument
  rw [result_bind_eq_finished_iff]
  constructor
  · rintro ⟨s, isFile, hask, hfound⟩
    obtain ⟨rfl, hisFile⟩ := TreeAction.ask_eq_finished_iff.mp hask
    refine ⟨?_, isFile, hisFile, ?_⟩ <;> cases isFile <;> cases hfound <;> rfl
  · rintro ⟨rfl, isFile, hisFile, rfl⟩
    refine ⟨tree', isFile, TreeAction.ask_eq_finished_iff.mpr ⟨rfl, hisFile⟩, ?_⟩
    cases isFile <;> rfl

/-- What is found at a path below the folder of an index. -/
inductive Finds (readers : Readers) (folder db : Path) (tree : FileTree)
    (path : Path) : Option (List (Record × Text)) → Prop
  | other (hfile : tree.isFile? path = .ok false) : Finds readers folder db tree path none
  | ownFile (hfile : tree.isFile? path = .ok true)
      (hdb : path.isWithin db = true) : Finds readers folder db tree path none
  | document {pages : List Text} (hfile : tree.isFile? path = .ok true)
      (hdb : path.isWithin db = false)
      (hpages : (extract readers path).result tree = (tree, .finished pages)) :
      Finds readers folder db tree path (some (pageRecords folder path pages))

theorem recordsAt_eq_finished_iff {found : Option (List (Record × Text))} :
    (recordsAt readers folder db path).result tree = (tree', .finished found) ↔
      tree' = tree ∧ Finds readers folder db tree path found := by
  unfold recordsAt
  rw [result_bind_of_finished (result_check _ tree), result_bind_eq_finished_iff]
  constructor
  · rintro ⟨s, isDoc, hisDoc, hfound⟩
    obtain ⟨rfl, isFile, hfile, rfl⟩ := isDocument_eq_finished_iff.mp hisDoc
    cases isFile with
    | false =>
      cases hfound
      exact ⟨rfl, .other hfile⟩
    | true =>
      cases hdb : path.isWithin db with
      | true =>
        rw [hdb] at hfound
        cases hfound
        exact ⟨rfl, .ownFile hfile hdb⟩
      | false =>
        rw [hdb] at hfound
        obtain ⟨s', records, hrecords, hpure⟩ := result_bind_eq_finished_iff.mp hfound
        obtain ⟨rfl, pages, hpages, rfl⟩ := documentRecords_eq_finished_iff.mp hrecords
        cases hpure
        exact ⟨rfl, .document hfile hdb hpages⟩
  · rintro ⟨rfl, hfinds⟩
    cases hfinds with
    | other hfile =>
      exact ⟨tree', false, isDocument_eq_finished_iff.mpr ⟨rfl, false, hfile, rfl⟩, rfl⟩
    | ownFile hfile hdb =>
      exact ⟨tree', false, isDocument_eq_finished_iff.mpr ⟨rfl, true, hfile, by rw [hdb]; rfl⟩, rfl⟩
    | @document pages hfile hdb hpages =>
      refine ⟨tree', true, isDocument_eq_finished_iff.mpr ⟨rfl, true, hfile, by rw [hdb]; rfl⟩, ?_⟩
      exact result_bind_eq_finished_iff.mpr ⟨tree', _, documentRecords_eq_finished_iff.mpr
          ⟨rfl, pages, hpages, rfl⟩, rfl⟩

theorem mapList_recordsAt_eq_finished_iff :
    (Action.mapList (recordsAt readers folder db) paths).result tree = (tree', .finished found) ↔
      tree' = tree ∧ List.Forall₂ (Finds readers folder db tree) paths found := by
  constructor
  · intro hresult
    obtain ⟨rfl, hfound⟩ := Action.forall₂_of_result_mapList
      (fun path => (calm_recordsAt readers folder db path).state_result) hresult
    exact ⟨rfl, hfound.imp fun path records hrecords =>
      (recordsAt_eq_finished_iff.mp hrecords).2⟩
  · rintro ⟨rfl, hfound⟩
    exact result_mapList_of_forall₂ (hfound.imp fun path records hfinds =>
      recordsAt_eq_finished_iff.mpr ⟨rfl, hfinds⟩)

/-! ## Writing the files -/

/-- Files are written in a directory, one after the other. -/
def Writes (directory : Path) :
    List (Name × Text) → FileTree → FileTree → Prop
  | [], tree, tree' => tree' = tree
  | (name, t) :: rest, tree, tree' =>
    ∃ next, tree.write (directory.child name) t = .ok next ∧
      Writes directory rest next tree'

def indexFiles (records : List Record) (texts : List Text) :
    List (Name × Text) :=
  [("records.json", recordsText records),
    ("vectors.json", vectorsText (texts.map embed)),
    ("meta.json", metaText), ("pages.faiss", markerText)]

theorem writeFiles_eq_finished_iff {records : List Record} {texts : List Text} {u : Unit} :
    (writeFiles db records texts).result tree = (tree', .finished u) ↔
      records.any Record.isTooLong = false ∧ Writes db (indexFiles records texts) tree tree' := by
  unfold writeFiles
  rw [result_bind_of_finished (result_embedAll texts tree), result_ite_throw_eq_finished_iff,
    Bool.not_eq_true]
  simp only [result_bind_eq_finished_iff, TreeAction.write_eq_finished_iff, indexFiles, Writes]
  refine and_congr_right fun _ => ⟨?_, ?_⟩
  · rintro ⟨tree₁, -, hrecords, tree₂, -, hvectors, tree₃, -, hmeta, hmarker⟩
    exact ⟨tree₁, hrecords, tree₂, hvectors, tree₃, hmeta, tree', hmarker, rfl⟩
  · rintro ⟨tree₁, hrecords, tree₂, hvectors, tree₃, hmeta, _, hmarker, rfl⟩
    exact ⟨tree₁, (), hrecords, tree₂, (), hvectors, tree₃, (), hmeta, hmarker⟩

/-! ## What an index is made of -/

/-- The index of a folder was made: the tree had the index directory made, what
was found below the folder was read, and the files were written. -/
structure Makes (readers : Readers) (root : Path) (tree tree' : FileTree)
    (found : List (Option (List (Record × Text)))) : Prop where
  isDirectory : tree.isDirectory? root = .ok true
  exists_begun : ∃ begun, tree.makeDirectory (root.child directoryName) = .ok begun ∧
      List.Forall₂ (Finds readers root (root.child directoryName) begun)
        (Path.sort (begun.below root)) found ∧ Writes (root.child directoryName)
        (indexFiles ((found.filterMap id).flatten.map Prod.fst)
          ((found.filterMap id).flatten.map Prod.snd)) begun tree'
  short : ((found.filterMap id).flatten.map Prod.fst).any Record.isTooLong = false

theorem prepare_eq_finished_iff {summary : Summary} :
    (prepare readers folder).result tree = (tree', .finished summary) ↔ ∃ root found,
        (folder.parts.any fun part => part.toList.contains '\x00') = false ∧
        tree.resolve folder = .path root ∧ tree.exists? root = .ok true ∧
        Makes readers root tree tree' found ∧
        summary = ⟨root, root.child directoryName, (found.filterMap id).length,
          (found.filterMap id).flatten.length⟩ := by
  unfold prepare
  simp only [result_bind_eq_finished_iff, TreeAction.ask_eq_finished_iff,
    TreeAction.resolve_eq_finished_iff, TreeAction.complain, result_ite_throw_eq_finished_iff,
    result_get, result_pure, mapList_recordsAt_eq_finished_iff, writeFiles_eq_finished_iff]
  constructor
  · rintro ⟨_, root, ⟨rfl, hnull, hroot⟩, _, there, ⟨rfl, hexists⟩, hthere, _, isDirectory,
      ⟨rfl, hdirectory⟩, hisDirectory, _, begun, ⟨rfl, hbegun⟩, _, _, hset, _, _, hget, _, found,
      ⟨rfl, hfound⟩, _, _, ⟨hshort, hwritten⟩, hsummary⟩
    cases hset
    cases hget
    cases hsummary
    rw [Bool.not_eq_true, Bool.not_eq_false'] at hthere hisDirectory
    rw [hthere] at hexists
    rw [hisDirectory] at hdirectory
    exact ⟨root, found, hnull, hroot, hexists,
      ⟨hdirectory, ⟨begun, hbegun, hfound, hwritten⟩, hshort⟩, rfl⟩
  · rintro ⟨root, found, hnull, hroot, hexists,
      ⟨hdirectory, ⟨begun, hbegun, hfound, hwritten⟩, hshort⟩, rfl⟩
    exact ⟨tree, root, ⟨rfl, hnull, hroot⟩, tree, true, ⟨rfl, hexists⟩, by simp, tree, true,
      ⟨rfl, hdirectory⟩, by simp, tree, begun, ⟨rfl, hbegun⟩, begun, (), rfl, begun, begun, rfl,
      begun, found, ⟨rfl, hfound⟩, tree', (), ⟨hshort, hwritten⟩, rfl⟩

/-! ## The records of a document -/

theorem filter_pageRecords (folder path : Path) (pages : List Text) (key : Text) :
    ((pageRecords folder path pages).map Prod.fst).filter (·.path? == some key) =
      if path.inside folder = key then
        (pageRecords folder path pages).map Prod.fst
      else [] := by
  have hpath : ∀ r ∈ (pageRecords folder path pages).map Prod.fst,
      r.path? = some (path.inside folder) := by
    intro r hr
    simp only [pageRecords, List.map_map, List.mem_map] at hr
    obtain ⟨page, -, rfl⟩ := hr
    rfl
  split
  · rename_i hkey
    rw [List.filter_eq_self]
    intro r hr
    rw [hpath r hr, hkey, beq_self_eq_true]
  · rename_i hkey
    rw [List.filter_eq_nil_iff]
    intro r hr
    rw [hpath r hr]
    simpa using hkey

theorem Finds.filter_eq_nil {other : Path} {found : Option (List (Record × Text))}
    (hfinds : Finds readers folder db tree other found)
    (hne : other.inside folder ≠ path.inside folder) : ((found.getD []).map Prod.fst).filter
      (·.path? == some (path.inside folder)) = [] := by
  cases hfinds with
  | other => rfl
  | ownFile => rfl
  | document => rw [Option.getD_some, filter_pageRecords, if_neg hne]

theorem flatten_filterMap_cons {α : Type} (found : Option (List α))
    (rest : List (Option (List α))) : ((found :: rest).filterMap id).flatten =
      found.getD [] ++ (rest.filterMap id).flatten := by
  cases found <;> rfl

def recordsOf (found : List (Option (List (Record × Text)))) : List Record :=
  (found.filterMap id).flatten.map Prod.fst

theorem recordsOf_cons (records : Option (List (Record × Text)))
    (found : List (Option (List (Record × Text)))) :
    recordsOf (records :: found) = (records.getD []).map Prod.fst ++ recordsOf found := by
  unfold recordsOf
  rw [flatten_filterMap_cons, List.map_append]

theorem exists_finds
    (hfound : List.Forall₂ (Finds readers folder db tree) paths found) (hmem : path ∈ paths) :
    ∃ records, Finds readers folder db tree path records := by
  induction hfound with
  | nil => simp at hmem
  | cons hfinds hfound ih =>
    rcases List.mem_cons.mp hmem with rfl | hmem
    · exact ⟨_, hfinds⟩
    · exact ih hmem

theorem filter_found_eq_nil (path : Path)
    (hfound : List.Forall₂ (Finds readers folder db tree) paths found)
    (hother : ∀ other ∈ paths, other.inside folder ≠ path.inside folder) :
    ((found.filterMap id).flatten.map Prod.fst).filter
      (·.path? == some (path.inside folder)) = [] := by
  induction hfound with
  | nil => rfl
  | cons hfinds hfound ih =>
    rw [flatten_filterMap_cons, List.map_append, List.filter_append,
      hfinds.filter_eq_nil (hother _ (by simp)), ih fun other h => hother other (by simp [h])]
    rfl

theorem filter_found
    (hfound : List.Forall₂ (Finds readers folder db tree) paths found) (hdistinct : paths.Nodup)
    (hinside : ∀ other ∈ paths, other.inside folder = path.inside folder → other = path)
    (hmem : path ∈ paths) (hfile : tree.isFile? path = .ok true) (hdb : path.isWithin db = false) :
    ∃ pages, (extract readers path).result tree = (tree, .finished pages) ∧
      ((found.filterMap id).flatten.map Prod.fst).filter (·.path? == some (path.inside folder)) =
        (pageRecords folder path pages).map Prod.fst := by
  induction hfound with
  | nil => simp at hmem
  | @cons first found paths rest hfinds hfound ih =>
    rw [flatten_filterMap_cons, List.map_append, List.filter_append]
    rw [List.nodup_cons] at hdistinct
    by_cases hfirst : first = path
    · subst hfirst
      have hnil := filter_found_eq_nil first hfound fun other hother heq => hdistinct.1
          (hinside other (by simp [hother]) heq ▸ hother)
      cases hfinds with
      | other hother =>
        rw [hfile] at hother
        cases hother
      | ownFile _ hown =>
        rw [hdb] at hown
        cases hown
      | @document pages _ _ hpages =>
        refine ⟨pages, hpages, ?_⟩
        rw [hnil, Option.getD_some, filter_pageRecords, if_pos rfl, List.append_nil]
    · have hne : first.inside folder ≠ path.inside folder := fun heq =>
        hfirst (hinside first (by simp) heq)
      rw [hfinds.filter_eq_nil hne, List.nil_append]
      exact ih hdistinct.2 (fun other h => hinside other (by simp [h]))
        ((List.mem_cons.mp hmem).resolve_left (Ne.symm hfirst))

/-! ## The tree with an index -/

def putFiles (tree : FileTree) (place : List Name)
    (files : List (Name × Text)) : FileTree :=
  files.foldl (fun tree (name, t) =>
    tree.put (place ++ [name]) (.file (.text t))) tree

theorem node?_putFiles_of_ne {other : List Name}
    (hother : ∀ file ∈ files, other ≠ place ++ [file.1]) (tree : FileTree) :
    (putFiles tree place files).node? other = tree.node? other := by
  induction files generalizing tree with
  | nil => rfl
  | cons file files ih =>
    unfold putFiles
    rw [List.foldl_cons]
    refine (ih (fun f hf => hother f (by simp [hf])) _).trans ?_
    exact node?_put_of_ne tree _ (hother file (by simp))

theorem node?_putFiles_of_mem (hdistinct : (files.map Prod.fst).Nodup) {name : Name} {t : Text}
    (hmem : (name, t) ∈ files) (tree : FileTree) :
    (putFiles tree place files).node? (place ++ [name]) = some (.file (.text t)) := by
  induction files generalizing tree with
  | nil => simp at hmem
  | cons file files ih =>
    rw [List.map_cons, List.nodup_cons] at hdistinct
    unfold putFiles
    rw [List.foldl_cons]
    rcases List.mem_cons.mp hmem with rfl | hmem
    · refine (node?_putFiles_of_ne (fun f hf heq => ?_) _).trans (node?_put_self tree _ (by simp))
      have hname : name = f.1 := by simpa using heq
      exact hdistinct.1 (List.mem_map.mpr ⟨f, hf, hname.symm⟩)
    · exact ih hdistinct.2 hmem _

/-- A directory of a sound tree in which nothing is in the way of files. -/
structure Receives (tree : FileTree) (place : List Name) (files : List (Name × Text)) : Prop where
  sound : tree.Sound
  directory : tree.node? place = some .directory
  proper : ∀ file ∈ files, Name.Proper file.1
  free : ∀ file ∈ files, tree.node? (place ++ [file.1]) = none ∨
    ∃ content, tree.node? (place ++ [file.1]) = some (.file content)

theorem Receives.put {name : Name} {t : Text}
    (hreceives : Receives tree place ((name, t) :: files)) :
    Receives (tree.put (place ++ [name]) (.file (.text t))) place files := by
  have hkept : tree.node? (place ++ [name]) ≠ some .directory := by
    rcases hreceives.free (name, t) (by simp) with hnone | ⟨content, hfile⟩
    · simp [hnone]
    · simp [hfile]
  refine ⟨hreceives.sound.put (hreceives.proper (name, t) (by simp))
    hreceives.directory (.inr hkept), ?_, ?_, ?_⟩
  · rw [node?_put_of_ne _ _ (by simp), hreceives.directory]
  · exact fun file hfile => hreceives.proper file (by simp [hfile])
  · intro file hfile
    by_cases hsame : file.1 = name
    · rw [hsame, node?_put_self _ _ (by simp)]
      exact .inr ⟨_, rfl⟩
    · rw [node?_put_of_ne _ _ (by simpa using hsame)]
      exact hreceives.free file (by simp [hfile])

theorem Receives.sound_putFiles
    (hreceives : Receives tree place files) : (putFiles tree place files).Sound := by
  induction files generalizing tree with
  | nil => exact hreceives.sound
  | cons file files ih => exact ih hreceives.put

theorem Receives.writes_iff {directory : Path}
    (hreceives : Receives tree directory.parts files) : Writes directory files tree tree' ↔
      (∀ file ∈ files, (directory.child file.1).fits = true) ∧
        tree' = putFiles tree directory.parts files := by
  induction files generalizing tree with
  | nil => simp [Writes, putFiles]
  | cons file files ih =>
    obtain ⟨name, t⟩ := file
    have hwrite : ∀ next, tree.write (directory.child name) t = .ok next ↔
        (directory.child name).fits = true ∧
          next = tree.put (directory.parts ++ [name]) (.file (.text t)) :=
      fun next => hreceives.sound.write_eq_ok_iff hreceives.directory
        (hreceives.proper (name, t) (by simp)) (hreceives.free (name, t) (by simp))
    constructor
    · rintro ⟨next, hnext, hwrites⟩
      obtain ⟨hfits, rfl⟩ := (hwrite next).mp hnext
      obtain ⟨hrestFit, rfl⟩ := (ih hreceives.put).mp hwrites
      refine ⟨fun file hfile => ?_, rfl⟩
      rcases List.mem_cons.mp hfile with rfl | hfile
      · exact hfits
      · exact hrestFit file hfile
    · rintro ⟨hfits, rfl⟩
      refine ⟨_, (hwrite _).mpr ⟨hfits (name, t) (by simp), rfl⟩,
        (ih hreceives.put).mpr ⟨fun file hfile => ?_, rfl⟩⟩
      exact hfits file (by simp [hfile])

/-- A tree in which a folder has got an index directory with files. -/
def indexed (tree : FileTree) (root : Path) (files : List (Name × Text)) :
    FileTree :=
  putFiles (tree.put (root.parts ++ [directoryName]) .directory)
    (root.parts ++ [directoryName]) files

theorem proper_directoryName : Name.Proper directoryName :=
  ⟨⟨by decide, by decide, by decide⟩, by decide, by decide⟩

theorem proper_indexFiles (records : List Record) (texts : List Text) :
    ∀ file ∈ indexFiles records texts, Name.Proper file.1 := by
  intro file hfile
  have hname : file.1 ∈ (indexFiles records texts).map Prod.fst := List.mem_map_of_mem hfile
  simp only [indexFiles, List.map_cons, List.map_nil, List.mem_cons, List.not_mem_nil,
    or_false] at hname
  rcases hname with h | h | h | h <;> rw [h] <;>
    exact ⟨⟨by decide, by decide, by decide⟩, by decide, by decide⟩

def fileNames : List Name :=
  ["records.json", "vectors.json", "meta.json", "pages.faiss"]

theorem distinct_indexFiles (records : List Record) (texts : List Text) :
    ((indexFiles records texts).map Prod.fst).Nodup := by
  change fileNames.Nodup
  decide

section Fresh

variable {tree : FileTree} {root : Path}

theorem receives_index (hsound : tree.Sound) (hroot : tree.node? root.parts = some .directory)
    (hnone : tree.node? (root.parts ++ [directoryName]) = none) (records : List Record)
    (texts : List Text) : Receives (tree.put (root.parts ++ [directoryName]) .directory)
      (root.parts ++ [directoryName]) (indexFiles records texts) := by
  refine ⟨hsound.put proper_directoryName hroot (.inl rfl), node?_put_self _ _ (by simp),
    proper_indexFiles records texts, ?_⟩
  intro file hfile
  refine .inl ?_
  -- Nothing stands below what was not there.
  rw [node?_put_of_ne _ _ (by simp)]
  cases hnode : tree.node? (root.parts ++ [directoryName] ++ [file.1]) with
  | none => rfl
  | some node =>
    have habove := hsound.directory_above hnode (List.prefix_append _ _) (by simp)
    rw [hnone] at habove
    cases habove

theorem makes_iff (hsound : tree.Sound) (hroot : tree.node? root.parts = some .directory)
    (hnone : tree.node? (root.parts ++ [directoryName]) = none) :
    Makes readers root tree tree' found ↔
      root.fits = true ∧ (root.child directoryName).fits = true ∧
      (∀ file ∈ indexFiles ((found.filterMap id).flatten.map Prod.fst)
        ((found.filterMap id).flatten.map Prod.snd),
        ((root.child directoryName).child file.1).fits = true) ∧
      ((found.filterMap id).flatten.map Prod.fst).any Record.isTooLong = false ∧
      List.Forall₂ (Finds readers root (root.child directoryName)
          (tree.put (root.parts ++ [directoryName]) .directory))
        (Path.sort ((tree.put (root.parts ++ [directoryName]) .directory).below root)) found ∧
      tree' = indexed tree root (indexFiles ((found.filterMap id).flatten.map Prod.fst)
          ((found.filterMap id).flatten.map Prod.snd)) := by
  have hmake : ∀ begun, tree.makeDirectory (root.child directoryName) =
      .ok begun ↔ (root.child directoryName).fits = true ∧ root.fits = true ∧
        begun = tree.put (root.parts ++ [directoryName]) .directory := fun begun =>
      hsound.makeDirectory_eq_ok_iff hroot proper_directoryName hnone
  constructor
  · rintro ⟨-, ⟨begun, hbegun, hfound, hwrites⟩, hshort⟩
    obtain ⟨hdbFits, hrootFits, rfl⟩ := (hmake begun).mp hbegun
    obtain ⟨hfits, htree⟩ := (receives_index hsound hroot hnone _ _).writes_iff.mp hwrites
    exact ⟨hrootFits, hdbFits, hfits, hshort, hfound, htree⟩
  · rintro ⟨hrootFits, hdbFits, hfits, hshort, hfound, rfl⟩
    refine ⟨?_, ⟨_, (hmake _).mpr ⟨hdbFits, hrootFits, rfl⟩, hfound, ?_⟩, hshort⟩
    · unfold isDirectory?
      rw [hsound.test_entry hroot rfl, if_pos hrootFits]
    · exact (receives_index hsound hroot hnone _ _).writes_iff.mpr ⟨hfits, rfl⟩

end Fresh

end Index

end Folio
