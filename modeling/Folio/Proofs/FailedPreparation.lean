import Folio.Proofs.CalmActions
import Folio.Proofs.RepairedIndex

/-!
# Indexes that could not be made

Making an index is gathering, which walks through the folder, takes in its documents and encodes
their pages, and then writing the four files.  Gathering makes the directory of the index before it
looks at the first document, and changes nothing after that.  So an index that fails while it is
gathered leaves the file system as it was if the folder has an index directory already, and else at
most an empty one.

The empty one is not nothing: it is taken for the index of the folder, and hides the index of a
folder further up that has the pages of the same files.
-/

namespace Folio

/-! ## Runs that do not come to what follows -/

section Courses

variable {σ ε α β : Type}

theorem Course.follow_bind_of_not_finished {allowance : Allowance} {c : Course σ ε α}
    {f : σ → α → Course σ ε β} {count : Nat} {pieces : List Text}
    (hends : ∀ v, (c.follow allowance count pieces).ending ≠ .finished v) :
    ((c.bind f).follow allowance count pieces).state = (c.follow allowance count pieces).state ∧
      ∀ g : α → β, ((c.bind f).follow allowance count pieces).ending =
        (c.follow allowance count pieces).ending.map g := by
  induction c generalizing count pieces with
  | done s a => exact absurd rfl (hends a)
  | failed s e => exact ⟨rfl, fun _ => rfl⟩
  | lost s => exact ⟨rfl, fun _ => rfl⟩
  | checkpoint phase s next ih =>
    unfold Course.bind Course.follow
    unfold Course.follow at hends
    split
    · rename_i hadmitted
      rw [if_pos hadmitted] at hends
      exact ih () hends
    · exact ⟨rfl, fun _ => rfl⟩
  | print text next ih => exact ih () hends

theorem Action.run_bind_of_not_finished {allowance : Allowance} {a : Action σ ε α}
    {f : α → Action σ ε β} {s : σ} (hends : ∀ v, (a.run allowance s).ending ≠ .finished v) :
    ((a >>= f).run allowance s).state = (a.run allowance s).state ∧
      ∀ g : α → β, ((a >>= f).run allowance s).ending = (a.run allowance s).ending.map g :=
  Course.follow_bind_of_not_finished hends

theorem Ending.map_ne_finished {ending : Ending ε α} (hends : ∀ v, ending ≠ .finished v) (g : α → β)
    (w : β) : ending.map g ≠ .finished w := by
  cases ending with
  | finished v => exact absurd rfl (hends v)
  | failed e => exact nofun
  | stopped phase count => exact nofun
  | lost => exact nofun

theorem Course.bind_done (c : Course σ ε α) : (c.bind fun s a => .done s a) = c := by
  induction c with
  | done s a => rfl
  | failed s e => rfl
  | lost s => rfl
  | checkpoint phase s next ih => simp only [Course.bind, ih]
  | print text next ih => simp only [Course.bind, ih]

theorem Course.bind_bind {γ : Type} (c : Course σ ε α) (f : σ → α → Course σ ε β)
    (g : σ → β → Course σ ε γ) : (c.bind f).bind g = c.bind fun s a => (f s a).bind g := by
  induction c with
  | done s a => rfl
  | failed s e => rfl
  | lost s => rfl
  | checkpoint phase s next ih => simp only [Course.bind, ih]
  | print text next ih => simp only [Course.bind, ih]

instance : LawfulMonad (Action σ ε) :=
  LawfulMonad.mk' _ (fun a => funext fun s => Course.bind_done (a s)) (fun _ _ => rfl)
    (fun a _ _ => funext fun s => Course.bind_bind (a s) _ _)

theorem Action.ite_bind {c : Prop} [Decidable c] (a b : Action σ ε α) (f : α → Action σ ε β) :
    (if c then a else b) >>= f = if c then a >>= f else b >>= f := by
  split <;> rfl

theorem Action.throw_bind (e : ε) (f : α → Action σ ε β) :
    (throw e : Action σ ε α) >>= f = throw e := rfl

end Courses

namespace Index

open Action FileTree TreeAction

/-- Walks through a folder whose index directory is there, takes in its documents and encodes their
pages. -/
def takeIn (readers : Readers) (root : Path) :
    TreeAction (Path × List (List (Record × Text)) × List Embedding) := do
  let documents ← Action.mapList (recordsAt readers root (root.child directoryName))
    (Path.sort ((← get).below root))
  let documents := documents.filterMap id
  let records := documents.flatten
  let vectors ← embedAll (records.map (·.2))
  if (records.map (·.1)).any Record.isTooLong then throw (.failure .numberTooLong)
  return (root, documents, vectors)

/-- All that is done before the first file of an index is written. -/
def gather (readers : Readers) (folder : Path) :
    TreeAction (Path × List (List (Record × Text)) × List Embedding) := do
  let root ← TreeAction.resolve folder
  if !(← TreeAction.ask (·.exists? root)) then TreeAction.complain (.folderMissing root.text)
  if !(← TreeAction.ask (·.isDirectory? root)) then TreeAction.complain (.notDirectory root.text)
  set (← TreeAction.ask (·.makeDirectory (root.child directoryName)))
  takeIn readers root

def putDown : Path × List (List (Record × Text)) × List Embedding → TreeAction Summary
  | (root, documents, vectors) => do
    let db := root.child directoryName
    TreeAction.write (recordsFile db) (recordsText (documents.flatten.map (·.1)))
    TreeAction.write (vectorsFile db) (vectorsText vectors)
    TreeAction.write (metaFile db) metaText
    TreeAction.write (markerFile db) markerText
    return ⟨root, db, documents.length, documents.flatten.length⟩

theorem prepare_eq (readers : Readers) (folder : Path) :
    prepare readers folder = gather readers folder >>= putDown := by
  unfold prepare gather takeIn writeFiles
  simp only [bind_assoc, Action.ite_bind, pure_bind, TreeAction.complain, Action.throw_bind]
  rfl

theorem calm_takeIn (readers : Readers) (root : Path) : (takeIn readers root).Calm := by
  unfold takeIn
  refine calm_get.bind fun tree => ?_
  refine (Calm.mapList (calm_recordsAt readers root _) _).bind fun documents => ?_
  refine (calm_embedAll _).bind fun vectors => ?_
  exact calm_guard (calm_throw _ trivial) (calm_pure _)

/-! ## What is left of a tree -/

theorem resolve_cases (folder : Path) (tree : FileTree) :
    (∃ e, resolve folder tree = .failed tree e) ∨
      ∃ root, tree.resolve folder = .path root ∧ resolve folder tree = .done tree root := by
  unfold TreeAction.resolve
  split
  · exact .inl ⟨_, rfl⟩
  · dsimp only
    rw [get_bind]
    cases tree.resolve folder with
    | path root => exact .inr ⟨root, rfl, rfl⟩
    | circle p => exact .inl ⟨_, rfl⟩

theorem gather_cases (readers : Readers) (folder : Path) (tree : FileTree) :
    (∃ e, gather readers folder tree = .failed tree e) ∨
      ∃ root begun, tree.resolve folder = .path root ∧ tree.isDirectory? root = .ok true ∧
        tree.makeDirectory (root.child directoryName) = .ok begun ∧
        gather readers folder tree = takeIn readers root begun := by
  unfold gather
  rcases resolve_cases folder tree with ⟨e, hresolve⟩ | ⟨root, hroot, hresolve⟩
  · exact .inl ⟨e, Action.bind_of_failed hresolve⟩
  rw [Action.bind_of_done hresolve]
  rcases ask_cases (·.exists? root) tree with ⟨-, -, e, hask⟩ | ⟨isThere, -, hask⟩
  · exact .inl ⟨e, Action.bind_of_failed hask⟩
  rw [Action.bind_of_done hask]
  split
  · exact .inl ⟨_, rfl⟩
  dsimp only
  rcases ask_cases (·.isDirectory? root) tree with
    ⟨-, -, e, hask⟩ | ⟨isDirectory, hanswer, hask⟩
  · exact .inl ⟨e, Action.bind_of_failed hask⟩
  rw [Action.bind_of_done hask]
  split
  · exact .inl ⟨_, rfl⟩
  rename_i hdirectory
  obtain rfl : isDirectory = true := by simpa using hdirectory
  rcases ask_cases (·.makeDirectory (root.child directoryName)) tree with
    ⟨-, -, e, hask⟩ | ⟨begun, hbegun, hask⟩
  · exact .inl ⟨e, Action.bind_of_failed hask⟩
  rw [Action.bind_of_done hask]
  exact .inr ⟨root, begun, hroot, hanswer, hbegun, rfl⟩

theorem gather_of_makeDirectory {folder root : Path} {tree begun : FileTree} (readers : Readers)
    (hnull : (folder.parts.any fun part => part.toList.contains '\x00') = false)
    (hroot : tree.resolve folder = .path root) (hexists : tree.exists? root = .ok true)
    (hdirectory : tree.isDirectory? root = .ok true)
    (hbegun : tree.makeDirectory (root.child directoryName) = .ok begun) :
    gather readers folder tree = takeIn readers root begun := by
  have hresolve : TreeAction.resolve folder tree = .done tree root := by
    unfold TreeAction.resolve
    rw [if_neg (Bool.eq_false_iff.mp hnull)]
    dsimp only
    rw [get_bind, hroot]
    rfl
  unfold gather
  rw [Action.bind_of_done hresolve, Action.bind_of_done (ask_of_ok hexists)]
  change (ask (·.isDirectory? root) >>= _) tree = _
  rw [Action.bind_of_done (ask_of_ok hdirectory)]
  change (ask (·.makeDirectory (root.child directoryName)) >>= _) tree = _
  rw [Action.bind_of_done (ask_of_ok hbegun)]
  rfl

/-- All that an index that could not be made may leave behind: an empty directory, where there was
nothing. -/
inductive LeavesBehind (folder : Path) (tree : FileTree) : FileTree → Prop
  | nothing : LeavesBehind folder tree tree
  | directory {root : Path} {place : List Name} (hroot : tree.resolve folder = .path root)
      (hmissing : tree.isDirectory? (root.child directoryName) = .ok false)
      (hplace : tree.locate root = .ok place)
      (hnone : tree.node? (place ++ [directoryName]) = none) :
      LeavesBehind folder tree (tree.put (place ++ [directoryName]) .directory)

theorem leavesBehind_gather (readers : Readers) (folder : Path) (tree : FileTree)
    (allowance : Allowance) :
    LeavesBehind folder tree ((gather readers folder).run allowance tree).state := by
  unfold Action.run
  rcases gather_cases readers folder tree with
    ⟨e, hfailed⟩ | ⟨root, begun, hroot, -, hbegun, hgather⟩
  · rw [hfailed]
    exact .nothing
  · have hstate : ((takeIn readers root).run allowance begun).state = begun :=
      (calm_takeIn readers root).state_run begun allowance
    rw [hgather]
    change LeavesBehind folder tree ((takeIn readers root).run allowance begun).state
    rw [hstate]
    rcases makeDirectory_cases hbegun with rfl | ⟨hmissing, place, hplace, hnone, rfl⟩
    · exact .nothing
    · exact .directory hroot hmissing hplace hnone

/-! ## A file that an index serves -/

theorem result_filePages?_of_empty_index {tree : FileTree} (hsound : tree.Sound) {folder : Path}
    {name : Name} {content : Content}
    (hfile : tree.node? (folder.child name).parts = some (.file content))
    (hdb : tree.node? (folder.child directoryName).parts = some .directory)
    (hempty : tree.node? (recordsFile (folder.child directoryName)).parts = none)
    (hfits : (recordsFile (folder.child directoryName)).fits = true)
    (hshort : ((folder.child name).child directoryName).fits = true) :
    (filePages? (folder.child name)).result tree = (tree, .finished none) := by
  have hproper : Name.Proper "records.json" := proper_of_mem_fileNames (by decide)
  have hdbFits : (folder.child directoryName).fits = true :=
    Path.fits_of_isPrefix (List.prefix_append _ _) hfits
  have hown : tree.isDirectory? ((folder.child name).child directoryName) = .ok false :=
    (hsound.test_below_file hfile nameFits_directoryName _).trans (if_pos hshort)
  have hnear : tree.isDirectory? (folder.child directoryName) = .ok true :=
    hsound.isDirectory?_directory hdb hdbFits
  have hrecords : tree.isFile? (recordsFile (folder.child directoryName)) = .ok false :=
    (hsound.test_missing hdb hproper hempty _).trans (if_pos hfits)
  have hparent : (folder.child name).parent = folder := by simp [Path.child, Path.parent]
  have hposition : (position? (folder.child name)).result tree =
      (tree, .finished (some (Position.ofRoot folder (folder.child name)))) := by
    rw [result_position? hsound hfile, findRoot?, rootCandidates, result_firstIndexed?_cons, hown]
    simp only
    rw [hparent, result_firstIndexed?_cons, hnear]
    rfl
  unfold filePages?
  rw [Action.result_bind_of_finished hposition]
  exact Action.result_bind_of_finished (result_isFile? hrecords)

namespace Served

def folder : Path := ⟨["docs"]⟩

def inner : Path := folder.child "in"

def path : Path := inner.child "b.txt"

def readers : Readers := ⟨false, false, false⟩

def tree : FileTree :=
  ⟨[(folder.parts, .directory), (inner.parts, .directory), (path.parts, .file (.text ['b']))]⟩

theorem sound_tree : tree.Sound := by decide

theorem clear_tree : Clear tree folder := by
  constructor
  · intro place target hplace hlink
    have hne : place ≠ [] := List.ne_nil_of_length_pos (hplace.length_le.trans_lt' (by decide))
    have hmem := mem_entries_of_node? hlink hne
    simp [tree] at hmem
  · intro place _ _ hdirectory
    have hmem := mem_entries_of_node? hdirectory (by simp)
    have hplace : place ++ [directoryName] ∈ tree.entries.map Prod.fst := List.mem_map_of_mem hmem
    have hlast := List.mem_map_of_mem (f := List.getLast?) hplace
    rw [List.getLast?_concat] at hlast
    exact absurd hlast (by decide)

theorem extract_path {other : FileTree} (hread : other.read path = .ok (.text ['b'])) :
    (extract readers path).result other = (other, .finished [['b']]) :=
  result_extract_text readers (by decide) hread rfl

theorem ofTexts_tree : OfTexts tree := by
  refine ofTexts_of_entries fun entry hentry => ?_
  simp only [tree, List.mem_cons, List.not_mem_nil, or_false] at hentry
  rcases hentry with rfl | rfl | rfl
  · exact ⟨by decide, .inl rfl⟩
  · exact ⟨by decide, .inl rfl⟩
  · exact ⟨by decide, .inr ⟨_, ['b'], rfl, by decide, rfl⟩⟩

def made : FileTree := ((prepare readers folder).run none tree).state

theorem stored_tree :
    ∃ summary found, ((prepare readers folder).run none tree).ending = .finished summary ∧
      summary.folder = folder ∧ Stored readers folder tree made found :=
  ofTexts_tree.exists_stored sound_tree readers rfl rfl (by decide)

end Served

section Stopped

variable {readers : Readers} {folder root path : Path} {tree begun : FileTree}
  (hgather : gather readers folder tree = takeIn readers root begun)
  (hpath : path ∈ begun.below root)

include hgather hpath

theorem gather_stopped : ((gather readers folder).run (some 0) tree).ending =
        .stopped "semantic.iter_documents.path" 1 ∧
      ((gather readers folder).run (some 0) tree).state = begun := by
  have hne : Path.sort (begun.below root) ≠ [] := by
    intro hnil
    have hmem : path ∈ Path.sort (begun.below root) := List.mem_mergeSort.mpr hpath
    rw [hnil] at hmem
    cases hmem
  obtain ⟨first, rest, hpaths⟩ := List.exists_cons_of_ne_nil hne
  unfold Action.run
  rw [hgather]
  unfold takeIn
  rw [get_bind, hpaths]
  exact ⟨rfl, rfl⟩

theorem prepare_stopped : ((prepare readers folder).run (some 0) tree).ending =
        .stopped "semantic.iter_documents.path" 1 ∧
      ((prepare readers folder).run (some 0) tree).state = begun := by
  obtain ⟨hstopped, hstate⟩ := gather_stopped hgather hpath
  have hends : ∀ gathered,
      ((gather readers folder).run (some 0) tree).ending ≠ .finished gathered := by
    simp [hstopped]
  obtain ⟨hsame, hending⟩ := Action.run_bind_of_not_finished (f := putDown) hends
  rw [prepare_eq]
  refine ⟨?_, hsame.trans hstate⟩
  rw [hending fun _ => ⟨root, root, 0, 0⟩, hstopped]
  rfl

end Stopped

/-- What is left of a tree in which an index could not be made: nothing is changed if the folder has
an index directory, and otherwise there is at most an empty one. -/
theorem failed_preparation_leaves_behind {readers : Readers} {folder : Path} {tree : FileTree}
    {allowance : Allowance}
    (hfails : ∀ gathered, ((gather readers folder).run allowance tree).ending ≠ .finished gathered) :
    (∀ summary, ((prepare readers folder).run allowance tree).ending ≠ .finished summary) ∧
      LeavesBehind folder tree ((prepare readers folder).run allowance tree).state ∧
      ∀ root, tree.resolve folder = .path root →
        tree.isDirectory? (root.child directoryName) = .ok true →
          ((prepare readers folder).run allowance tree).state = tree := by
  rw [prepare_eq]
  obtain ⟨hstate, hending⟩ := Action.run_bind_of_not_finished (f := putDown) hfails
  have hleaves := leavesBehind_gather readers folder tree allowance
  rw [hstate]
  refine ⟨fun summary hfinished => ?_, hleaves, fun root hroot hindexed => ?_⟩
  · rw [hending fun _ => summary] at hfinished
    exact Ending.map_ne_finished hfails _ summary hfinished
  generalize ((gather readers folder).run allowance tree).state = left at hleaves ⊢
  cases hleaves with
  | nothing => rfl
  | directory hother hmissing hplace hnone =>
      cases hroot.symm.trans hother
      rw [hindexed] at hmissing
      cases hmissing

/-- The making of an index again that is stopped at its first document changes nothing. -/
theorem stopped_again_unchanged :
    (∀ gathered, ((gather Served.readers Served.folder).run (some 0) Served.made).ending ≠
        .finished gathered) ∧
      Served.made.isDirectory? (Served.folder.child directoryName) = .ok true ∧
      ((prepare Served.readers Served.folder).run (some 0) Served.made).state = Served.made := by
  obtain ⟨summary, found, -, -, hstored⟩ := Served.stored_tree
  have hsound : Served.made.Sound := hstored.sound_result
  have hfolder : Served.made.node? Served.folder.parts = some .directory :=
    (hstored.node?_result (by decide)).trans rfl
  have hdb : Served.made.node? (Served.folder.child directoryName).parts = some .directory :=
    hstored.node?_db
  have hresolve : Served.made.resolve Served.folder = .path Served.folder :=
    hsound.resolve_entry hfolder rfl
  have hindexed := hsound.isDirectory?_directory hdb (by decide)
  have hbegun : Served.made.makeDirectory (Served.folder.child directoryName) =
      .ok Served.made := by
    unfold makeDirectory
    rw [hsound.locate_directory hdb (by decide)]
    simp only [hdb]
  have hgather := gather_of_makeDirectory Served.readers (by decide) hresolve
    ((hsound.test_entry hfolder rfl _).trans (if_pos (by decide)))
    (hsound.isDirectory?_directory hfolder (by decide)) hbegun
  have hbelow : Served.path ∈ Served.made.below Served.folder :=
    (hsound.mem_below_iff hfolder (by decide)).mpr
      ⟨⟨_, (hstored.node?_result (by decide)).trans rfl⟩, by decide, by decide⟩
  have hstopped : ∀ gathered,
      ((gather Served.readers Served.folder).run (some 0) Served.made).ending ≠
        .finished gathered := by
    simp [gather_stopped hgather hbelow]
  exact ⟨hstopped, hindexed,
    (failed_preparation_leaves_behind hstopped).2.2 Served.folder hresolve hindexed⟩

/-- A file whose pages an index has is without them after the making of an index further down was
stopped at its first document. -/
theorem served_file_lost :
    (∃ summary, ((prepare Served.readers Served.folder).run none Served.tree).ending =
        .finished summary) ∧
      ((prepare Served.readers Served.inner).run (some 0) Served.made).ending =
        .stopped "semantic.iter_documents.path" 1 ∧
      ((filePages? Served.path).run none Served.made).ending = .finished (some [['b']]) ∧
      ((filePages? Served.path).run none
        ((prepare Served.readers Served.inner).run (some 0) Served.made).state).ending =
          .finished none := by
  obtain ⟨summary, found, hending, -, hstored⟩ := Served.stored_tree
  have hkept : ∀ {place : List Name} {node : Option Node},
      ¬ Served.folder.parts ++ [directoryName] <+: place → Served.tree.node? place = node →
        Served.made.node? place = node :=
    fun hplace hnode => (hstored.node?_result hplace).trans hnode
  have hsound : Served.made.Sound := hstored.sound_result
  have hinner : Served.made.node? Served.inner.parts = some .directory := hkept (by decide) rfl
  have hfile : Served.made.node? Served.path.parts = some (.file (.text ['b'])) :=
    hkept (by decide) rfl
  have hnone : Served.made.node? (Served.inner.parts ++ [directoryName]) = none :=
    hkept (by decide) rfl
  have hbegun := (hsound.makeDirectory_eq_ok_iff hinner proper_directoryName hnone).mpr
    ⟨by decide, by decide, rfl⟩
  have hsoundBegun := hsound.put proper_directoryName hinner
    (.inl (rfl : Node.directory = .directory))
  have hfileBegun : (Served.made.put (Served.inner.parts ++ [directoryName]) .directory).node?
      Served.path.parts = some (.file (.text ['b'])) := by
    rw [node?_put_of_ne _ _ (by decide), hfile]
  have hinnerBegun : (Served.made.put (Served.inner.parts ++ [directoryName]) .directory).node?
      Served.inner.parts = some .directory := by
    rw [node?_put_of_ne _ _ (by decide), hinner]
  have hgather : gather Served.readers Served.inner Served.made =
      takeIn Served.readers Served.inner _ :=
    gather_of_makeDirectory Served.readers (by decide) (hsound.resolve_entry hinner rfl)
      ((hsound.test_entry hinner rfl _).trans (if_pos (by decide)))
      (hsound.isDirectory?_directory hinner (by decide)) hbegun
  have hbelow : Served.path ∈ (Served.made.put (Served.inner.parts ++ [directoryName])
      .directory).below Served.inner :=
    (hsoundBegun.mem_below_iff hinnerBegun (by decide)).mpr
      ⟨⟨_, hfileBegun⟩, by decide, by decide⟩
  obtain ⟨hstopped, hstate⟩ := prepare_stopped hgather hbelow
  refine ⟨⟨summary, hending⟩, hstopped, ?_, ?_⟩
  · have hdocument : DocumentAt Served.tree Served.folder Served.path :=
      ⟨by decide, by decide, _, rfl⟩
    obtain ⟨pages, hpages, hanswers⟩ :=
      hstored.answers_document (hstored.kept Served.clear_tree) hdocument
    rw [Served.extract_path rfl] at hpages
    cases hpages
    exact hanswers.resolve_right fun hlong => absurd hlong.1 (by decide)
  · rw [hstate, Action.ending_run_none, Served.path, result_filePages?_of_empty_index hsoundBegun
      hfileBegun (node?_put_self _ _ (by simp)) ?_ (by decide) (by decide)]
    rw [node?_put_of_ne _ _ (by decide)]
    exact hkept (by decide) rfl

end Index

end Folio
