import Folio.Proofs.FailedPreparation
import Folio.Proofs.IndexedListing

/-!
# Indexes below other indexes

Making indexes one after the other, in any order and however each of them ends, changes nothing
outside the index directories of their folders.  So the documents that the index of a folder is made
from are always the same, apart from the files of indexes: the walk leaves out the folder's own index
directory, but not those of folders further down, and takes their files for documents.
-/

namespace Folio

variable {path : Path} {name : Name} {n : Nat}

variable {root : Path} {made : FileTree}

namespace FileTree

/-! ## Paths in a tree without links -/

theorem collapse_append (parts : List Name) (part : Name) : collapse (parts ++ [part]) =
      if part == ".." then (collapse parts).dropLast else collapse parts ++ [part] := by
  simp [collapse]

theorem up_notMem_collapse (parts : List Name) : ".." ∉ collapse parts := by
  induction parts using List.reverseRecOn with
  | nil => simp [collapse]
  | append_singleton parts part ih =>
    rw [collapse_append]
    split
    · exact fun hup => ih (List.mem_of_mem_dropLast hup)
    · rename_i hpart
      simp only [List.mem_append, List.mem_singleton, not_or]
      exact ⟨ih, fun hsame => hpart (by simp [← hsame])⟩

theorem LinkFree.resolveParts {tree : FileTree} (hfree : tree.LinkFree [])
    (onLink : List Name → Text → Except (List Name) (List Name)) (here rest : List Name) :
    resolveParts tree onLink here rest =
      .ok (rest.foldl (fun done part => if part == ".." then done.dropLast else done ++ [part])
        here) := by
  induction rest generalizing here with
  | nil => rfl
  | cons part rest ih =>
    unfold FileTree.resolveParts
    rw [List.foldl_cons]
    by_cases hpart : (part == "..") = true
    · rw [if_pos hpart, if_pos hpart, ih]
    · rw [if_neg hpart, if_neg hpart]
      split
      · rename_i target hlink
        exact absurd hlink (hfree _ target List.nil_prefix)
      · exact ih _

theorem LinkFree.resolve {tree : FileTree} (hfree : tree.LinkFree []) (path : Path) :
    tree.resolve path = .path ⟨collapse path.parts⟩ := by
  unfold FileTree.resolve resolveFrom
  rw [hfree.resolveParts]
  rfl

theorem LinkFree.eq_of_walks {tree : FileTree} (hfree : tree.LinkFree []) {new : Bool} {links : Nat}
    {here parts place : List Name} (hwalks : tree.Walks new links here parts place)
    (hup : ".." ∉ parts) : place = here ++ parts.filter (· != ".") := by
  induction hwalks with
  | done => simp
  | stay _ hpart _ ih => simp_all
  | up _ hpart _ _ => simp_all
  | make _ hpart _ _ hlast =>
    subst hlast
    simp [hpart.1]
  | follow _ _ hnode _ _ => exact absurd hnode (hfree _ _ List.nil_prefix)
  | enter _ hpart _ _ _ ih => simp_all [hpart.1]

theorem Sound.follow_entry {tree : FileTree} (hsound : tree.Sound) {node : Node}
    (hnode : tree.node? path.parts = some node) (hlink : node.isLink = false) :
    tree.follow path = if path.fits then .ok node else .error .nameTooLong := by
  unfold follow locate
  rw [hsound.walkPath_entry hnode hlink]
  split
  · simp only [bind, Except.bind, hnode]
  · rfl

end FileTree

namespace Index

open Action FileTree TreeAction

/-- The place of the folder that a path leads to where there are no links. -/
def placeOf (folder : Path) : List Name :=
  (collapse folder.parts).filter (· != ".")

/-- A tree in which only the index directories of some folders may have changed. -/
structure Grown (roots : List (List Name)) (tree later : FileTree) : Prop where
  sound : later.Sound
  linkFree : later.LinkFree []
  same : ∀ place, (∀ root ∈ roots, ¬ root ++ [directoryName] <+: place) →
    later.node? place = tree.node? place

section Growing

variable {roots : List (List Name)} {tree later : FileTree}

theorem Grown.put (hgrown : Grown roots tree later) {root place : List Name} {node : Node}
    (hroot : root ∈ roots) (hplace : root ++ [directoryName] <+: place)
    (hsound : (later.put place node).Sound) (hlink : node.isLink = false) :
    Grown roots tree (later.put place node) := by
  have hne : place ≠ [] := by
    rintro rfl
    simpa using hplace.length_le
  refine ⟨hsound, ?_, ?_⟩
  · intro other target habove hnode
    by_cases hother : other = place
    · rw [hother, node?_put_self _ _ hne] at hnode
      cases hnode
      cases hlink
    · rw [node?_put_of_ne _ _ hother] at hnode
      exact hgrown.linkFree other target habove hnode
  · intro other hother
    have hne' : other ≠ place := by
      rintro rfl
      exact hother root hroot hplace
    rw [node?_put_of_ne _ _ hne']
    exact hgrown.same other hother

theorem filter_child (folder : Path) (hname : Name.Proper name) :
    ((folder.child name).parts.filter (· != ".")) = folder.parts.filter (· != ".") ++ [name] := by
  simp [Path.child, hname.notHere]

theorem Grown.makeDirectory (hgrown : Grown roots tree later) {begun : FileTree}
    (hup : ".." ∉ root.parts) (hroot : root.parts.filter (· != ".") ∈ roots)
    (hdirectory : later.isDirectory? root = .ok true)
    (hbegun : later.makeDirectory (root.child directoryName) = .ok begun) :
    Grown roots tree begun := by
  rcases makeDirectory_cases hbegun with rfl | ⟨-, place, hlocate, hnone, rfl⟩
  · exact hgrown
  · have hplace : place = root.parts.filter (· != ".") := by
      have hwalks := (walkPath_eq_ok_iff.mp hlocate).2
      simpa using hgrown.linkFree.eq_of_walks hwalks hup
    have hfolder : later.node? place = some .directory := by
      obtain ⟨found, hfound, hnode⟩ := exists_place_of_isDirectory? hdirectory
      rw [hlocate] at hfound
      cases hfound
      exact hnode
    rw [← hplace] at hroot
    exact hgrown.put hroot (List.prefix_refl _)
      (hgrown.sound.put proper_directoryName hfolder (.inl rfl)) rfl

theorem Grown.write (hgrown : Grown roots tree later) {t : Text}
    {next : FileTree} (hup : ".." ∉ root.parts) (hroot : root.parts.filter (· != ".") ∈ roots)
    (hname : Name.Proper name)
    (hwrite : later.write ((root.child directoryName).child name) t = .ok next) :
    Grown roots tree next := by
  obtain ⟨place, hleads, rfl⟩ := exists_leads_of_write hgrown.sound.rooted hwrite
  have hparts : ".." ∉ ((root.child directoryName).child name).parts := by
    simp only [Path.child, List.mem_append, List.mem_singleton, not_or]
    exact ⟨⟨hup, by decide⟩, hname.notUp.symm⟩
  have hplace : place = root.parts.filter (· != ".") ++ [directoryName] ++ [name] := by
    have hwalks := (walkPath_eq_ok_iff.mp hleads.destination).2
    have heq := hgrown.linkFree.eq_of_walks hwalks hparts
    rwa [filter_child _ hname, filter_child _ proper_directoryName, List.nil_append] at heq
  have habove := hleads.above hgrown.sound.rooted
  have hnot : later.node? place ≠ some .directory := by
    rcases hleads.free with hnone | ⟨content, hfile⟩
    · simp [hnone]
    · simp [hfile]
  rw [hplace] at habove hnot ⊢
  rw [List.dropLast_concat] at habove
  exact hgrown.put hroot (List.prefix_append _ _) (hgrown.sound.put hname habove (.inr hnot)) rfl

theorem keeps_write (t : Text) (hup : ".." ∉ root.parts)
    (hroot : root.parts.filter (· != ".") ∈ roots) (hname : Name.Proper name) :
    (TreeAction.write ((root.child directoryName).child name) t).Keeps (Grown roots tree) n
      fun _ => True := by
  have hask : (ask (·.write ((root.child directoryName).child name) t)).Keeps (Grown roots tree) n
      (Grown roots tree) := by
    refine keeps_get.bind fun later hgrown => ?_
    split
    · rename_i next hwrite
      exact keeps_pure (hgrown.write hup hroot hname hwrite)
    · exact keeps_throw _ trivial
  exact hask.bind fun next hnext => keeps_set hnext

theorem keeps_putDown {gathered : Path × List (List (Record × Text)) × List Embedding}
    (hup : ".." ∉ gathered.1.parts) (hroot : gathered.1.parts.filter (· != ".") ∈ roots)
    : (putDown gathered).Keeps (Grown roots tree) n fun _ => True := by
  obtain ⟨root, documents, vectors⟩ := gathered
  have hwrites : ∀ name ∈ fileNames, ∀ t, (TreeAction.write ((root.child directoryName).child name)
      t).Keeps (Grown roots tree) n fun _ => True :=
    fun name hname t => keeps_write t hup hroot (proper_of_mem_fileNames hname)
  refine (hwrites "records.json" (by decide) _).bind fun _ _ => ?_
  refine (hwrites "vectors.json" (by decide) _).bind fun _ _ => ?_
  refine (hwrites "meta.json" (by decide) _).bind fun _ _ => ?_
  exact (hwrites "pages.faiss" (by decide) _).bind fun _ _ => keeps_pure trivial

theorem keeps_takeIn (readers : Readers) (root : Path) {I : FileTree → Prop} :
    (takeIn readers root).Keeps I n fun gathered => gathered.1 = root := by
  refine keeps_get.bind fun later _ => ?_
  refine (Calm.mapList (calm_recordsAt readers root _) _ I n).bind fun documents _ => ?_
  refine (calm_embedAll _ I n).bind fun vectors _ => ?_
  exact keeps_guard (keeps_throw _ trivial) (keeps_pure rfl)

theorem Grown.prepare (hgrown : Grown roots tree later) (readers : Readers) {folder : Path}
    (hfolder : placeOf folder ∈ roots) (allowance : Allowance) :
    Grown roots tree ((prepare readers folder).run allowance later).state := by
  rw [prepare_eq]
  unfold Action.run
  rcases gather_cases readers folder later with
    ⟨e, hfailed⟩ | ⟨root, begun, hresolve, hdirectory, hbegun, hgather⟩
  · rw [Action.bind_of_failed hfailed]
    exact hgrown
  · rw [hgrown.linkFree.resolve] at hresolve
    cases hresolve
    have hup := up_notMem_collapse folder.parts
    have hkeeps : (takeIn readers ⟨collapse folder.parts⟩ >>= putDown).Keeps (Grown roots tree) 0
        fun _ => True := by
      refine (keeps_takeIn readers _).bind fun gathered hgathered => keeps_putDown ?_ ?_
      · rwa [hgathered]
      · rwa [hgathered]
    have hbegun := hgrown.makeDirectory hup hfolder hdirectory hbegun
    change Grown roots tree (((gather readers folder later).bind _).follow allowance 0 []).state
    rw [hgather]
    exact hkeeps.state_run hbegun allowance

end Growing

/-- The tree after some indexes were made one after the other, each within its allowance and
however it ended. -/
def afterPreparing (readers : Readers) (calls : List (Path × Allowance)) (tree : FileTree) :
    FileTree :=
  calls.foldl (fun tree (folder, allowance) =>
    ((prepare readers folder).run allowance tree).state) tree

theorem grown_afterPreparing {tree : FileTree} (hsound : tree.Sound) (hfree : tree.LinkFree [])
    (readers : Readers) (calls : List (Path × Allowance)) :
    Grown (calls.map fun call => placeOf call.1) tree (afterPreparing readers calls tree) := by
  have hrun : ∀ (left : List (Path × Allowance)) (later : FileTree), (∀ call ∈ left, call ∈ calls) →
      Grown (calls.map fun call => placeOf call.1) tree later →
        Grown (calls.map fun call => placeOf call.1) tree (afterPreparing readers left later) := by
    intro left
    induction left with
    | nil => exact fun _ _ hgrown => hgrown
    | cons call left ih =>
      intro later hcalls hgrown
      have hcall := List.mem_map_of_mem (f := fun call => placeOf call.1) (hcalls call (by simp))
      exact ih _ (fun other hother => hcalls other (by simp [hother]))
        (hgrown.prepare readers hcall call.2)
  exact hrun calls tree (fun _ hcall => hcall) ⟨hsound, hfree, fun _ _ => rfl⟩

/-! ## Records of index files -/

/-- Does the path of a record go through an index directory? -/
def Record.isOfIndex (r : Record) : Bool :=
  r.path?.any fun t => (WrittenPath.ofText t).parts.contains directoryName

theorem isOfIndex_of_path {r : Record} (hroot : directoryName ∉ root.parts)
    (hbelow : root.parts <+: path.parts) (hnames : ∀ name ∈ path.parts, Name.Plain name)
    (hpath : r.path? = some (path.inside root)) :
    r.isOfIndex = true ↔ directoryName ∈ path.parts := by
  obtain ⟨rest, hrest⟩ := hbelow
  have hdrop : path.parts.drop root.parts.length = rest := by rw [← hrest, List.drop_left]
  have hplain : ∀ name ∈ rest, Name.Plain name :=
    fun name hname => hnames name (by rw [← hrest]; simp [hname])
  unfold Record.isOfIndex Path.inside at *
  rw [hpath, hdrop, Option.any_some, WrittenPath.ofText_text hplain, List.contains_iff_mem, ← hrest,
    List.mem_append]
  simp [hroot]

section Found

variable {readers : Readers} {root db : Path} {tree : FileTree} {paths : List Path}
  {found : List (Option (List (Record × Text)))}

theorem path_of_found {records : Option (List (Record × Text))}
    (hfinds : Finds readers root db tree path records) :
    ∀ r ∈ (records.getD []).map Prod.fst, r.path? = some (path.inside root) := by
  cases hfinds with
  | other => simp
  | ownFile => simp
  | document hfile hdb hpages =>
    intro r hr
    simp only [Option.getD_some, pageRecords, List.map_map, List.mem_map] at hr
    obtain ⟨page, -, rfl⟩ := hr
    rfl

theorem exists_found_outside (hroot : directoryName ∉ root.parts)
    (hfound : List.Forall₂ (Finds readers root db tree) paths found)
    (hbelow : ∀ path ∈ paths, root.parts <+: path.parts ∧ ∀ name ∈ path.parts, Name.Plain name) :
    ∃ outside, List.Forall₂ (Finds readers root db tree)
        (paths.filter fun path => directoryName ∉ path.parts) outside ∧
      (recordsOf found).filter (fun r => !r.isOfIndex) = recordsOf outside := by
  induction hfound with
  | nil => exact ⟨[], .nil, rfl⟩
  | @cons path records paths found hfinds _ ih =>
    obtain ⟨outside, houtside, hrecords⟩ :=
      ih fun other hother => hbelow other (List.mem_cons_of_mem _ hother)
    obtain ⟨hunder, hnames⟩ := hbelow path List.mem_cons_self
    have hindex : ∀ r ∈ (records.getD []).map Prod.fst,
        (r.isOfIndex = true ↔ directoryName ∈ path.parts) := fun r hr =>
      isOfIndex_of_path hroot hunder hnames (path_of_found hfinds r hr)
    rw [recordsOf_cons, List.filter_append, hrecords]
    by_cases hpath : directoryName ∈ path.parts
    · refine ⟨outside, by simpa [hpath] using houtside, ?_⟩
      rw [List.filter_eq_nil_iff.mpr, List.nil_append]
      intro r hr
      simp [(hindex r hr).mpr hpath]
    · refine ⟨records :: outside, ?_, ?_⟩
      · rw [List.filter_cons_of_pos (by simpa using hpath)]
        exact .cons hfinds houtside
      rw [recordsOf_cons, List.filter_eq_self.mpr]
      intro r hr
      have hnot : r.isOfIndex ≠ true := fun htrue => hpath ((hindex r hr).mp htrue)
      simpa using hnot

theorem Finds.unique {other : FileTree} {first second : Option (List (Record × Text))}
    (hfile : tree.isFile? path = other.isFile? path) (hread : tree.read path = other.read path)
    (hfirst : Finds readers root db tree path first)
    (hsecond : Finds readers root db other path second) : first = second := by
  obtain ⟨ending, htree, hother⟩ := sameFrom_extract hread readers
  cases hfirst with
  | other hno =>
    rw [hfile] at hno
    cases hsecond with
    | other => rfl
    | ownFile => rfl
    | document hyes => rw [hno] at hyes; cases hyes
  | ownFile hyes hdb =>
    cases hsecond with
    | other => rfl
    | ownFile => rfl
    | document _ hnot => rw [hdb] at hnot; cases hnot
  | document hyes hnot hpages =>
    rw [hfile] at hyes
    cases hsecond with
    | other hno => rw [hyes] at hno; cases hno
    | ownFile _ hdb => rw [hdb] at hnot; cases hnot
    | document _ _ hagain =>
      rw [htree] at hpages
      rw [hother] at hagain
      cases hpages
      cases hagain
      rfl

theorem found_unique {other : FileTree} {second : List (Option (List (Record × Text)))}
    (hsame : ∀ path ∈ paths, tree.isFile? path = other.isFile? path ∧
      tree.read path = other.read path)
    (hfound : List.Forall₂ (Finds readers root db tree) paths found)
    (hsecond : List.Forall₂ (Finds readers root db other) paths second) : found = second := by
  induction hfound generalizing second with
  | nil =>
    cases hsecond
    rfl
  | cons hfinds _ ih =>
    cases hsecond with
    | cons hagain hrest =>
      obtain ⟨hfile, hread⟩ := hsame _ List.mem_cons_self
      rw [hfinds.unique hfile hread hagain,
        ih (fun path hpath => hsame path (List.mem_cons_of_mem _ hpath)) hrest]

end Found

section Compared

variable {readers : Readers} {root : Path} {tree later made remade : FileTree}
  {found again : List (Option (List (Record × Text)))}

theorem Stored.below_and_plain (hstored : Stored readers root tree made found) :
    ∀ path ∈ Path.sort ((begun tree root).below root),
      root.parts <+: path.parts ∧ ∀ name ∈ path.parts, Name.Plain name :=
  fun _ hpath => ⟨(hstored.mem_paths_iff.mp hpath).2.1, hstored.plain_of_mem hpath⟩

theorem node?_begun_outside {place : List Name} (hplace : directoryName ∉ place) :
    (begun tree root).node? place = tree.node? place :=
  node?_begun fun hbelow => hplace (hbelow.subset (by simp))

variable (hstored : Stored readers root tree made found)
  (hagain : Stored readers root later remade again)
  (hsame : ∀ place, root.parts <+: place → directoryName ∉ place →
    later.node? place = tree.node? place)
include hstored hagain hsame

theorem filter_paths_eq : (Path.sort ((begun tree root).below root)).filter
        (fun path => directoryName ∉ path.parts) =
      (Path.sort ((begun later root).below root)).filter
        (fun path => directoryName ∉ path.parts) := by
  have hmem : ∀ path, path ∈ (Path.sort ((begun tree root).below root)).filter
        (fun path => directoryName ∉ path.parts) ↔
      path ∈ (Path.sort ((begun later root).below root)).filter
        (fun path => directoryName ∉ path.parts) := by
    intro path
    simp only [List.mem_filter, decide_eq_true_eq]
    refine and_congr_left fun hpath => ?_
    rw [hstored.mem_paths_iff, hagain.mem_paths_iff, node?_begun_outside hpath,
      node?_begun_outside hpath]
    refine and_congr_left fun hbelow => ?_
    rw [hsame path.parts hbelow.1 hpath]
  have hnodup : ∀ {other : FileTree}, other.Sound → ((Path.sort (other.below root)).filter
      (fun path => directoryName ∉ path.parts)).Nodup := fun hsound =>
    ((List.mergeSort_perm _ _).nodup_iff.mpr (hsound.nodup_below root)).filter _
  refine eq_of_pairwise_key ((pairwise_mergeSort_key Path.text _).filter _)
    ((pairwise_mergeSort_key Path.text _).filter _) ?_
    ((List.perm_ext_iff_of_nodup (hnodup hstored.sound_begun) (hnodup hagain.sound_begun)).mpr hmem)
  intro p hp q hq
  exact text_inj (hstored.plain_of_mem (List.mem_of_mem_filter hp))
    (hstored.plain_of_mem (List.mem_of_mem_filter hq))

theorem same_file (hpath : path ∈ Path.sort ((begun tree root).below root))
    (houtside : directoryName ∉ path.parts) :
    (begun tree root).isFile? path = (begun later root).isFile? path ∧ (begun tree root).read path =
        (begun later root).read path := by
  obtain ⟨⟨node, hnode⟩, hbelow, -⟩ := hstored.mem_paths_iff.mp hpath
  have hagainNode : (begun later root).node? path.parts = some node := by
    rw [node?_begun_outside houtside, hsame _ hbelow houtside, ← hnode,
      node?_begun_outside houtside]
  have hlink : node.isLink = false := by
    rw [node?_begun_outside houtside] at hnode
    exact hstored.linkFree.isLink_eq_false hnode hbelow
  have hfollow : (begun tree root).follow path = (begun later root).follow path := by
    rw [hstored.sound_begun.follow_entry hnode hlink,
      hagain.sound_begun.follow_entry hagainNode hlink]
  unfold isFile? test FileTree.read
  rw [hfollow]
  exact ⟨rfl, rfl⟩

theorem filter_recordsOf_eq (hroot : directoryName ∉ root.parts) :
    (recordsOf again).filter (fun r => !r.isOfIndex) =
      (recordsOf found).filter (fun r => !r.isOfIndex) := by
  obtain ⟨outside, houtside, hrecords⟩ :=
    exists_found_outside hroot hstored.finds hstored.below_and_plain
  obtain ⟨others, hothers, hremaining⟩ :=
    exists_found_outside hroot hagain.finds hagain.below_and_plain
  rw [← filter_paths_eq hstored hagain hsame] at hothers
  have hunique : outside = others := by
    refine found_unique (fun path hpath => ?_) houtside hothers
    simp only [List.mem_filter, decide_eq_true_eq] at hpath
    exact same_file hstored hagain hsame hpath.1 hpath.2
  rw [hrecords, hremaining, hunique]

end Compared

theorem Stored.exists_document {readers : Readers} {tree : FileTree}
    {found : List (Option (List (Record × Text)))} (hstored : Stored readers root tree made found)
    (hroot : directoryName ∉ root.parts) {r : Record} (hr : r ∈ recordsOf found) :
    ∃ path, DocumentAt tree root path ∧ r.path? = some (path.inside root) ∧
      (r.isOfIndex = true ↔ directoryName ∈ path.parts) := by
  obtain ⟨path, hdocument, hpath⟩ := hstored.document_of_record hr
  obtain ⟨content, hfile⟩ := hdocument.isFile
  have hnames : ∀ name ∈ path.parts, Name.Plain name := fun name hname =>
    (hstored.sound.named_of_node? hfile name hname).toPlain
  exact ⟨path, hdocument, hpath, isOfIndex_of_path hroot hdocument.inFolder hnames hpath⟩

/-- A document that came with the making of other indexes is in the index directory of a folder
further down. -/
theorem Grown.exists_root {roots : List (List Name)} {tree later : FileTree}
    (hgrown : Grown roots tree later) (hroot : directoryName ∉ root.parts)
    (hdocument : DocumentAt later root path) (hnew : ¬ DocumentAt tree root path) :
    ∃ place ∈ roots, root.parts <+: place ∧ place ≠ root.parts ∧
      place ++ [directoryName] <+: path.parts := by
  have hchanged : ∃ place ∈ roots, place ++ [directoryName] <+: path.parts := by
    by_contra hnone
    push Not at hnone
    refine hnew ⟨hdocument.inFolder, hdocument.notInIndex, ?_⟩
    rw [← hgrown.same path.parts hnone]
    exact hdocument.isFile
  obtain ⟨place, hplace, hwithin⟩ := hchanged
  refine ⟨place, hplace, ?_, ?_, hwithin⟩
  · rcases List.prefix_or_prefix_of_prefix hdocument.inFolder hwithin with hbelow | habove
    · rcases List.prefix_concat_iff.mp hbelow with heq | hbelow
      · exact absurd (by simp [heq]) hroot
      · exact hbelow
    · exact absurd (habove.subset (by simp)) hroot
  · rintro rfl
    exact hdocument.notInIndex hwithin

/-! ## What an index has when others were made before it -/

theorem exists_stored_of_prepare {readers : Readers} {tree : FileTree} {allowance : Allowance}
    {summary : Summary} (hsound : tree.Sound) (hroot : tree.node? root.parts = some .directory)
    (hfree : tree.LinkFree root.parts)
    (hending : ((prepare readers root).run allowance tree).ending = .finished summary) :
    ∃ found, Stored readers root tree ((prepare readers root).run allowance tree).state found ∧
      ((loadRecords (root.child directoryName)).run none
        ((prepare readers root).run allowance tree).state).ending = .finished (recordsOf found) := by
  obtain ⟨_, found, -, hresolve, -, hmakes, -⟩ :=
    prepare_eq_finished_iff.mp (Action.result_of_run hending)
  rw [hsound.resolve_entry hroot rfl] at hresolve
  cases hresolve
  have hstored := hmakes.stored hsound hroot hfree
  refine ⟨found, hstored, ?_⟩
  rw [Action.ending_run_none, (hmakes.holds hsound.rooted hstored.apart).result_loadRecords]

namespace Nested

def folder : Path := ⟨["docs"]⟩

def inner : Path := folder.child "in"

def readers : Readers := ⟨false, false, false⟩

def tree : FileTree := ⟨[(folder.parts, .directory), (inner.parts, .directory)]⟩

def later : FileTree := afterPreparing readers [(inner, none)] tree

theorem sound_tree : tree.Sound := by decide

theorem ofTexts_tree : OfTexts tree := by
  refine ofTexts_of_entries fun entry hentry => ?_
  simp only [tree, List.mem_cons, List.not_mem_nil, or_false] at hentry
  rcases hentry with rfl | rfl
  · exact ⟨by decide, .inl rfl⟩
  · exact ⟨by decide, .inl rfl⟩

theorem not_documentAt (root path : Path) : ¬ DocumentAt tree root path := by
  rintro ⟨-, -, content, hfile⟩
  by_cases hpath : path.parts = []
  · rw [hpath, node?_nil] at hfile
    cases hfile
  · have hmem := mem_entries_of_node? hfile hpath
    simp [tree] at hmem

theorem later_eq : later = indexed tree inner (indexFiles [] []) := by
  obtain ⟨summary, found, -, -, hstored⟩ := ofTexts_tree.exists_stored sound_tree readers
    (rfl : tree.node? inner.parts = some .directory) rfl (by decide)
  have hrecords : recordsOf found = [] := by
    refine List.eq_nil_iff_forall_not_mem.mpr fun r hr => ?_
    obtain ⟨path, hdocument, -⟩ := hstored.document_of_record hr
    exact not_documentAt inner path hdocument
  have hfiles : filesOf found = indexFiles [] [] := by
    unfold filesOf
    rw [hrecords, List.map_eq_nil_iff.mp hrecords]
    rfl
  have hlater : later = putFiles _ _ _ := hstored.result
  rw [hlater, hfiles]
  rfl

theorem ofTexts_later : OfTexts later := by
  rw [later_eq]
  refine ofTexts_of_entries fun entry hentry => ?_
  have hentries : (indexed tree inner (indexFiles [] [])).entries =
      [(folder.parts, .directory), (inner.parts, .directory),
        (inner.parts ++ [directoryName], .directory),
        (inner.parts ++ [directoryName] ++ ["records.json"], .file (.text (recordsText []))),
        (inner.parts ++ [directoryName] ++ ["vectors.json"], .file (.text (vectorsText []))),
        (inner.parts ++ [directoryName] ++ ["meta.json"], .file (.text metaText)),
        (inner.parts ++ [directoryName] ++ ["pages.faiss"], .file (.text markerText))] := rfl
  simp only [hentries, List.mem_cons, List.not_mem_nil, or_false] at hentry
  rcases hentry with rfl | rfl | rfl | rfl | rfl | rfl | rfl
  · exact ⟨by decide, .inl rfl⟩
  · exact ⟨by decide, .inl rfl⟩
  · exact ⟨by decide, .inl rfl⟩
  · exact ⟨by decide, .inr ⟨_, _, rfl, by decide, rfl⟩⟩
  · exact ⟨by decide, .inr ⟨_, _, rfl, by decide, rfl⟩⟩
  · exact ⟨by decide, .inr ⟨_, _, rfl, by decide, rfl⟩⟩
  · exact ⟨by decide, .inr ⟨_, _, rfl, by decide, rfl⟩⟩

theorem grown_later : Grown [inner.parts] tree later :=
  grown_afterPreparing sound_tree ofTexts_tree.linkFree readers [(inner, none)]

theorem finished_tree :
    ∃ summary, ((prepare readers folder).run none tree).ending = .finished summary := by
  obtain ⟨summary, -, hending, -⟩ := ofTexts_tree.exists_stored sound_tree readers
    (rfl : tree.node? folder.parts = some .directory) rfl (by decide)
  exact ⟨summary, hending⟩

theorem folder_later : later.node? folder.parts = some .directory := by
  rw [later_eq]
  rfl

theorem finished_later :
    ∃ summary, ((prepare readers folder).run none later).ending = .finished summary := by
  have hnone : later.node? (folder.parts ++ [directoryName]) = none := by
    rw [later_eq]
    rfl
  obtain ⟨summary, -, hending, -⟩ := ofTexts_later.exists_stored grown_later.sound readers
    folder_later hnone (by decide)
  exact ⟨summary, hending⟩

end Nested

/-- The records of an index that are not of index files are those that the index has without any
other index being made before it, and those that are of index files are from folders further down
whose indexes were made before. -/
theorem records_after_other_indexes {readers : Readers} {tree : FileTree} (hsound : tree.Sound)
    (hfree : tree.LinkFree []) {root : Path} (hroot : tree.node? root.parts = some .directory)
    (hname : directoryName ∉ root.parts)
    (hclear : ∀ path, DocumentAt tree root path → directoryName ∉ path.parts)
    (calls : List (Path × Allowance)) {first second : Allowance} {alone last : Summary}
    (halone : ((prepare readers root).run first tree).ending = .finished alone)
    (hlast : ((prepare readers root).run second (afterPreparing readers calls tree)).ending =
      .finished last) :
    ∃ records stored,
      ((loadRecords (root.child directoryName)).run none
        ((prepare readers root).run first tree).state).ending = .finished records ∧
      ((loadRecords (root.child directoryName)).run none
        ((prepare readers root).run second (afterPreparing readers calls tree)).state).ending =
          .finished stored ∧
      (∀ r ∈ records, r.isOfIndex = false) ∧
      stored.filter (fun r => !r.isOfIndex) = records ∧
      (∀ r ∈ stored, r.isOfIndex = true → ∃ call ∈ calls, ∃ path : Path,
        root.parts <+: placeOf call.1 ∧ placeOf call.1 ≠ root.parts ∧
          placeOf call.1 ++ [directoryName] <+: path.parts ∧ r.path? = some (path.inside root)) ∧
      ((∀ call ∈ calls, root.parts <+: placeOf call.1 → placeOf call.1 = root.parts) →
        stored = records) := by
  have hgrown := grown_afterPreparing hsound hfree readers calls
  have hsame : ∀ place, directoryName ∉ place →
      (afterPreparing readers calls tree).node? place = tree.node? place := fun place hplace =>
    hgrown.same place fun above _ habove => hplace (habove.subset (by simp))
  have hlaterRoot : (afterPreparing readers calls tree).node? root.parts = some .directory :=
    (hsame root.parts hname).trans hroot
  obtain ⟨found, hstored, hrecords⟩ :=
    exists_stored_of_prepare hsound hroot (hfree.below List.nil_prefix) halone
  obtain ⟨again, hagain, hremaining⟩ := exists_stored_of_prepare hgrown.sound hlaterRoot
    (hgrown.linkFree.below List.nil_prefix) hlast
  have hnone : ∀ r ∈ recordsOf found, r.isOfIndex = false := by
    intro r hr
    obtain ⟨path, hdocument, -, hindex⟩ := hstored.exists_document hname hr
    rw [← Bool.not_eq_true, hindex]
    exact hclear path hdocument
  have hfilter : (recordsOf again).filter (fun r => !r.isOfIndex) = recordsOf found := by
    rw [filter_recordsOf_eq hstored hagain (fun place _ => hsame place) hname,
      List.filter_eq_self.mpr fun r hr => by simp [hnone r hr]]
  have hfrom : ∀ r ∈ recordsOf again, r.isOfIndex = true → ∃ call ∈ calls, ∃ path : Path,
      root.parts <+: placeOf call.1 ∧ placeOf call.1 ≠ root.parts ∧
        placeOf call.1 ++ [directoryName] <+: path.parts ∧ r.path? = some (path.inside root) := by
    intro r hr hindex
    obtain ⟨path, hdocument, hpath, hiff⟩ := hagain.exists_document hname hr
    have hnew : ¬ DocumentAt tree root path := fun hold => hclear path hold (hiff.mp hindex)
    obtain ⟨place, hplace, hbelow, hne, hwithin⟩ := hgrown.exists_root hname hdocument hnew
    obtain ⟨call, hcall, rfl⟩ := List.mem_map.mp hplace
    exact ⟨call, hcall, path, hbelow, hne, hwithin, hpath⟩
  refine ⟨_, _, hrecords, hremaining, hnone, hfilter, hfrom, fun hnot => ?_⟩
  rw [← hfilter, List.filter_eq_self.mpr]
  intro r hr
  have houtside : r.isOfIndex ≠ true := by
    intro hindex
    obtain ⟨call, hcall, path, hbelow, hne, -⟩ := hfrom r hr hindex
    exact hne (hnot call hcall hbelow)
  simpa using houtside

/-- With the index of a folder in it made before, a folder without documents has no records but
those of index files. -/
theorem only_index_files_added :
    ∃ records stored,
      ((loadRecords (Nested.folder.child directoryName)).run none
        ((prepare Nested.readers Nested.folder).run none Nested.tree).state).ending =
          .finished records ∧
      ((loadRecords (Nested.folder.child directoryName)).run none
        ((prepare Nested.readers Nested.folder).run none
          (afterPreparing Nested.readers [(Nested.inner, none)] Nested.tree)).state).ending =
            .finished stored ∧
      stored.filter (fun r => !r.isOfIndex) = records := by
  obtain ⟨alone, halone⟩ := Nested.finished_tree
  obtain ⟨last, hlast⟩ := Nested.finished_later
  obtain ⟨records, stored, hrecords, hstored, -, hfilter, -⟩ :=
    records_after_other_indexes Nested.sound_tree Nested.ofTexts_tree.linkFree rfl (by decide)
      (fun path hdocument => absurd hdocument (Nested.not_documentAt Nested.folder path))
      [(Nested.inner, none)] halone hlast
  exact ⟨records, stored, hrecords, hstored, hfilter⟩

/-- The records of a folder without any document, made after those of the folder in it, have the
files of the other index. -/
theorem index_files_indexed :
    (∃ alone records, ((prepare Nested.readers Nested.folder).run none Nested.tree).ending =
        .finished alone ∧
      ((loadRecords (Nested.folder.child directoryName)).run none
        ((prepare Nested.readers Nested.folder).run none Nested.tree).state).ending =
          .finished records ∧ records = []) ∧
      ∃ last records, ((prepare Nested.readers Nested.folder).run none Nested.later).ending =
          .finished last ∧
        ((loadRecords (Nested.folder.child directoryName)).run none
          ((prepare Nested.readers Nested.folder).run none Nested.later).state).ending =
            .finished records ∧
        ∃ r ∈ records, r.path? = some "in/.fdsl_faiss/records.json".toList := by
  obtain ⟨alone, halone⟩ := Nested.finished_tree
  obtain ⟨last, hlast⟩ := Nested.finished_later
  obtain ⟨found, hstored, hrecords⟩ := exists_stored_of_prepare Nested.sound_tree rfl
    (Nested.ofTexts_tree.linkFree.below List.nil_prefix) halone
  obtain ⟨again, hagain, hremaining⟩ := exists_stored_of_prepare Nested.grown_later.sound
    Nested.folder_later (Nested.grown_later.linkFree.below List.nil_prefix) hlast
  refine ⟨⟨alone, _, halone, hrecords, ?_⟩, last, _, hlast, hremaining, ?_⟩
  · refine List.eq_nil_iff_forall_not_mem.mpr fun r hr => ?_
    obtain ⟨path, hdocument, -⟩ := hstored.document_of_record hr
    exact Nested.not_documentAt Nested.folder path hdocument
  · have hdocument : DocumentAt Nested.later Nested.folder
        (recordsFile (Nested.inner.child directoryName)) := by
      refine ⟨by decide, by decide, .text (recordsText []), ?_⟩
      rw [Nested.later_eq]
      rfl
    exact hagain.exists_record_iff.mpr ⟨_, hdocument, by decide⟩

end Index

end Folio
