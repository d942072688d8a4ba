import Folio.Proofs.IndexLookup

/-!
# What an index keeps

The index of a folder without links is made, whether or not the folder had one.
After that it answers for the documents the folder had then: the documents may be
changed or removed, as long as the files of the index stay as they are and the
index is still the nearest one.

The only other answer is a refusal of the operating system.  An index is looked
for below the path that is asked about, and that place may have a path that is too
long.
-/

namespace Folio.Index

open Action FileTree

variable {tree' : FileTree} {root : Path} {place : List Name}

/-! ## Folders without links -/

/-- A folder without links, and without an index in any directory below it. -/
structure Clear (tree : FileTree) (root : Path) : Prop where
  linkFree : tree.LinkFree root.parts
  noOther : ∀ place, root.parts <+: place → place ≠ root.parts →
    tree.node? (place ++ [directoryName]) ≠ some .directory

/-- A document of a folder: a file in it that does not belong to its index. -/
structure DocumentAt (tree : FileTree) (root path : Path) : Prop where
  inFolder : root.parts <+: path.parts
  notInIndex : ¬ root.parts ++ [directoryName] <+: path.parts
  isFile : ∃ content, tree.node? path.parts = some (.file content)

theorem Writes.receives {directory : Path} {files : List (Name × Text)} {tree : FileTree}
    (hwrites : Writes directory files tree tree') (hsound : tree.Sound)
    (hdirectory : tree.node? directory.parts = some .directory)
    (hfree : tree.LinkFree directory.parts) (hproper : ∀ file ∈ files, Name.Proper file.1) :
    Receives tree directory.parts files := by
  induction files generalizing tree with
  | nil => exact ⟨hsound, hdirectory, hproper, by simp⟩
  | cons file files ih =>
    obtain ⟨name, t⟩ := file
    obtain ⟨next, hwrite, hrest⟩ := hwrites
    have hname : Name.Proper name := hproper (name, t) (by simp)
    have hnode : tree.node? (directory.parts ++ [name]) = none ∨
        ∃ content, tree.node? (directory.parts ++ [name]) = some (.file content) := by
      cases hnode : tree.node? (directory.parts ++ [name]) with
      | none => exact .inl rfl
      | some node =>
        cases node with
        | file content => exact .inr ⟨content, rfl⟩
        | link target => exact absurd hnode (hfree _ target (List.prefix_append _ _))
        | directory =>
          exact absurd hwrite (hsound.write_directory
            (show tree.node? (directory.child name).parts = _ from hnode) t next)
    obtain ⟨-, rfl⟩ := (hsound.write_eq_ok_iff hdirectory hname hnode).mp hwrite
    have hkept : tree.node? (directory.parts ++ [name]) ≠ some .directory := by
      rcases hnode with hnone | ⟨content, hfile⟩
      · simp [hnone]
      · simp [hfile]
    have hreceives := ih hrest (hsound.put hname hdirectory (.inr hkept))
      (by rw [node?_put_of_ne _ _ (by simp), hdirectory]) (by
        intro below target hbelow
        by_cases hsame : below = directory.parts ++ [name]
        · rw [hsame, node?_put_self _ _ (by simp)]
          simp
        · rw [node?_put_of_ne _ _ hsame]
          exact hfree below target hbelow) fun file hfile => hproper file (by simp [hfile])
    refine ⟨hsound, hdirectory, hproper, fun file hfile => ?_⟩
    by_cases hsame : file.1 = name
    · rw [hsame]
      exact hnode
    · have hlater : file ∈ files := by
        rcases List.mem_cons.mp hfile with rfl | hfile
        · exact absurd rfl hsame
        · exact hfile
      have hfree := hreceives.free file hlater
      rwa [node?_put_of_ne _ _ (by simpa using hsame)] at hfree

/-! ## What is left of the making of an index -/

theorem exists_path_of_record {readers : Readers} {db : Path} {tree : FileTree} {paths : List Path}
    {found : List (Option (List (Record × Text)))}
    (hfound : List.Forall₂ (Finds readers root db tree) paths found) {r : Record}
    (hr : r ∈ recordsOf found) :
    ∃ path ∈ paths, tree.isFile? path = .ok true ∧ path.isWithin db = false ∧
      r.path? = some (path.inside root) := by
  induction hfound with
  | nil => simp [recordsOf] at hr
  | @cons first records paths found hfirst _ ih =>
    unfold recordsOf at hr
    rw [flatten_filterMap_cons, List.map_append, List.mem_append] at hr
    rcases hr with hr | hr
    · cases hfirst with
      | other => simp at hr
      | ownFile => simp at hr
      | document hfile hdb _ =>
        refine ⟨first, by simp, hfile, hdb, ?_⟩
        simp only [Option.getD_some, pageRecords, List.map_map, List.mem_map] at hr
        obtain ⟨page, -, rfl⟩ := hr
        rfl
    · obtain ⟨path, hpath, hfound⟩ := ih hr
      exact ⟨path, by simp [hpath], hfound⟩

def filesOf (found : List (Option (List (Record × Text)))) :
    List (Name × Text) :=
  indexFiles (recordsOf found) ((found.filterMap id).flatten.map Prod.snd)

/-- The tree once the folder has the directory of the index. -/
abbrev begun (tree : FileTree) (root : Path) : FileTree :=
  tree.ensureDirectory (root.parts ++ [directoryName])

/-- The index of a folder without links was made: what was found in the folder
once it had the directory of the index, and the files that were put there. -/
structure Stored (readers : Readers) (root : Path) (tree tree' : FileTree)
    (found : List (Option (List (Record × Text)))) : Prop where
  sound : tree.Sound
  folder : tree.node? root.parts = some .directory
  linkFree : tree.LinkFree root.parts
  rootFits : root.fits = true
  filesFit : ∀ file ∈ filesOf found, ((root.child directoryName).child file.1).fits = true
  short : (recordsOf found).any Record.isTooLong = false
  finds : List.Forall₂ (Finds readers root (root.child directoryName)
      (begun tree root)) (Path.sort ((begun tree root).below root)) found
  receives : Receives (begun tree root)
    (root.parts ++ [directoryName]) (filesOf found)
  result : tree' = putFiles (begun tree root)
    (root.parts ++ [directoryName]) (filesOf found)

section Stored

variable {readers : Readers} {root path : Path} {tree tree' : FileTree}
  {found : List (Option (List (Record × Text)))}

theorem Makes.stored (hmakes : Makes readers root tree tree' found) (hsound : tree.Sound)
    (hroot : tree.node? root.parts = some .directory)
    (hfree : tree.LinkFree root.parts) : Stored readers root tree tree' found := by
  obtain ⟨hisDirectory, ⟨made, hbegun, hfinds, hwrites⟩, hshort⟩ := hmakes
  have hrootFits : root.fits = true := by
    unfold isDirectory? at hisDirectory
    rw [hsound.test_entry hroot rfl] at hisDirectory
    by_contra hlong
    rw [if_neg hlong] at hisDirectory
    cases hisDirectory
  -- The directory of the index was there, or it was made.
  have hdb : tree.node? (root.parts ++ [directoryName]) = none ∨
      tree.node? (root.parts ++ [directoryName]) = some .directory := by
    cases hnode : tree.node? (root.parts ++ [directoryName]) with
    | none => exact .inl rfl
    | some node =>
      cases node with
      | directory => exact .inr rfl
      | link target => exact absurd hnode (hfree _ target (List.prefix_append _ _))
      | file content => cases (hsound.makeDirectory_entry hnode rfl hbegun).1
  have hensured : made = begun tree root := by
    unfold begun ensureDirectory
    rcases hdb with hnone | hdirectory
    · rw [hnone]
      exact ((hsound.makeDirectory_eq_ok_iff hroot proper_directoryName hnone).mp hbegun).2.2
    · rw [hdirectory]
      exact (hsound.makeDirectory_entry hdirectory rfl hbegun).2
  subst hensured
  have hbegunFree : (begun tree root).LinkFree (root.parts ++ [directoryName]) := by
    intro below target hbelow
    by_cases hsame : below = root.parts ++ [directoryName]
    · rw [hsame, node?_ensureDirectory_self (by simp) hdb]
      simp
    · rw [node?_ensureDirectory_of_ne tree hsame]
      exact hfree below target ((List.prefix_append _ _).trans hbelow)
  have hreceives := hwrites.receives (hsound.ensureDirectory proper_directoryName hroot)
    (node?_ensureDirectory_self (by simp) hdb) hbegunFree (proper_indexFiles _ _)
  obtain ⟨hfilesFit, hresult⟩ := hreceives.writes_iff.mp hwrites
  exact ⟨hsound, hroot, hfree, hrootFits, hfilesFit, hshort, hfinds, hreceives, hresult⟩

theorem node?_begun (hplace : ¬ root.parts ++ [directoryName] <+: place) :
    (begun tree root).node? place = tree.node? place := by
  refine node?_ensureDirectory_of_ne tree ?_
  rintro rfl
  exact hplace (List.prefix_refl _)

namespace Stored

section

variable (hstored : Stored readers root tree tree' found)

include hstored

theorem sound_begun : (begun tree root).Sound := hstored.receives.sound

theorem folder_begun : (begun tree root).node? root.parts = some .directory := by
  rw [node?_ensureDirectory_of_ne tree (by simp), hstored.folder]

theorem sound_result : tree'.Sound := by
  rw [hstored.result]
  exact hstored.receives.sound_putFiles

theorem node?_result (hplace : ¬ root.parts ++ [directoryName] <+: place) :
    tree'.node? place = tree.node? place := by
  rw [hstored.result, node?_putFiles_of_ne, node?_begun hplace]
  rintro file - rfl
  exact hplace (List.prefix_append _ _)

theorem node?_recordsFile : tree'.node? (recordsFile (root.child directoryName)).parts =
      some (.file (.text (recordsText (recordsOf found)))) := by
  rw [hstored.result]
  exact node?_putFiles_of_mem (distinct_indexFiles _ _) (by simp [indexFiles]) _

theorem node?_db : tree'.node? (root.parts ++ [directoryName]) = some .directory :=
  hstored.sound_result.directory_above hstored.node?_recordsFile
    (List.prefix_append _ _) (by simp [recordsFile, Path.child])

theorem mem_paths_iff {other : Path} : other ∈ Path.sort ((begun tree root).below root) ↔
      (∃ node, (begun tree root).node? other.parts = some node) ∧
        root.parts <+: other.parts ∧ other.parts ≠ root.parts := by
  rw [Path.sort, List.mem_mergeSort]
  exact hstored.sound_begun.mem_below_iff hstored.folder_begun hstored.rootFits

theorem fits_of_node? {node : Node} (hnode : (begun tree root).node? path.parts = some node)
    (hlink : node.isLink = false) (hbelow : root.parts <+: path.parts) : path.fits = true := by
  by_cases hsame : path.parts = root.parts
  · have hpath : path = root := congrArg Path.mk hsame
    exact hpath ▸ hstored.rootFits
  · obtain ⟨records, hfinds⟩ := exists_finds hstored.finds
      (hstored.mem_paths_iff.mpr ⟨⟨node, hnode⟩, hbelow, hsame⟩)
    by_contra hlong
    have hasked : FileTree.isFile? _ path = _ :=
      (hstored.sound_begun.test_entry hnode hlink _).trans (if_neg hlong)
    cases hfinds with
    | other hfile => exact absurd (hfile.symm.trans hasked) (by simp)
    | ownFile hfile _ => exact absurd (hfile.symm.trans hasked) (by simp)
    | document hfile _ _ => exact absurd (hfile.symm.trans hasked) (by simp)

theorem document_iff : DocumentAt tree root path ↔ path ∈ Path.sort ((begun tree root).below root) ∧
      (begun tree root).isFile? path = .ok true ∧
      path.isWithin (root.child directoryName) = false := by
  have hwithin : path.isWithin (root.child directoryName) = false ↔
      ¬ root.parts ++ [directoryName] <+: path.parts := by
    rw [← Bool.not_eq_true, Path.isWithin, List.isPrefixOf_iff_prefix]
    rfl
  rw [hstored.mem_paths_iff, hwithin]
  constructor
  · rintro ⟨hbelow, houtside, content, hfile⟩
    have hnode := (node?_begun houtside).trans hfile
    have hne : path.parts ≠ root.parts := by
      intro hsame
      rw [hsame, hstored.folder] at hfile
      cases hfile
    exact ⟨⟨⟨_, hnode⟩, hbelow, hne⟩, hstored.sound_begun.isFile?_file hnode
      (hstored.fits_of_node? hnode rfl hbelow), houtside⟩
  · rintro ⟨⟨⟨node, hnode⟩, hbelow, -⟩, hfile, houtside⟩
    refine ⟨hbelow, houtside, ?_⟩
    rw [node?_begun houtside] at hnode
    cases node with
    | link target => exact absurd hnode (hstored.linkFree _ target hbelow)
    | file content => exact ⟨content, hnode⟩
    | directory =>
      rw [← node?_begun houtside] at hnode
      rw [hstored.sound_begun.isFile?_directory hnode
        (hstored.fits_of_node? hnode rfl hbelow)] at hfile
      cases hfile

theorem plain_of_mem {other : Path} (hother : other ∈ Path.sort ((begun tree root).below root)) :
    ∀ name ∈ other.parts, Name.Plain name := by
  intro name hname
  obtain ⟨⟨node, hnode⟩, -⟩ := hstored.mem_paths_iff.mp hother
  exact (hstored.sound_begun.named_of_node? hnode name hname).toPlain

theorem records_of_document (hdocument : DocumentAt tree root path) :
    ∃ pages, (extract readers path).result tree = (tree, .finished pages) ∧ pages ≠ [] ∧
      (recordsOf found).filter (·.path? == some (path.inside root)) =
        (pageRecords root path pages).map Prod.fst := by
  obtain ⟨hmem, hisFile, hwithin⟩ := hstored.document_iff.mp hdocument
  have hdistinct : (Path.sort ((begun tree root).below root)).Nodup :=
    (List.mergeSort_perm _ _).nodup_iff.mpr
      (hstored.sound_begun.nodup_below root)
  obtain ⟨pages, hpages, hrecords⟩ := filter_found hstored.finds hdistinct
    (fun other hother => Path.inside_inj (hstored.mem_paths_iff.mp hother).2.1 hdocument.inFolder
      (hstored.plain_of_mem hother) (hstored.plain_of_mem hmem)) hmem hisFile hwithin
  have hne : pages ≠ [] := (keeps_extract (I := fun _ => True) (n := 0) readers path).value_run
    trivial ((ending_run_none _ _).trans (congrArg Prod.snd hpages))
  refine ⟨pages, ?_, hne, hrecords⟩
  -- The directory of the index has no part in the pages of the document.
  obtain ⟨content, hfile⟩ := hdocument.isFile
  have hnode := (node?_begun hdocument.notInIndex).trans hfile
  have hfits := hstored.fits_of_node? hnode rfl hdocument.inFolder
  have hread : (begun tree root).read path = tree.read path := by
    rw [hstored.sound_begun.read_file hnode hfits, hstored.sound.read_file hfile hfits]
  obtain ⟨ending, hbegun, htree⟩ := sameFrom_extract hread readers
  rw [hbegun] at hpages
  cases hpages
  exact htree

theorem document_of_record {r : Record} (hr : r ∈ recordsOf found) :
    ∃ path, DocumentAt tree root path ∧ r.path? = some (path.inside root) := by
  obtain ⟨path, hmem, hfile, hdb, hpath⟩ := exists_path_of_record hstored.finds hr
  exact ⟨path, hstored.document_iff.mpr ⟨hmem, hfile, hdb⟩, hpath⟩

theorem exists_record_iff {t : Text} : (∃ r ∈ recordsOf found, r.path? = some t) ↔
      ∃ path, DocumentAt tree root path ∧ path.inside root = t := by
  constructor
  · rintro ⟨r, hr, hpath⟩
    obtain ⟨path, hdocument, hr⟩ := hstored.document_of_record hr
    rw [hpath] at hr
    exact ⟨path, hdocument, (Option.some.inj hr).symm⟩
  · rintro ⟨path, hdocument, rfl⟩
    obtain ⟨pages, -, hne, hrecords⟩ := hstored.records_of_document hdocument
    have hsome : (recordsOf found).filter (·.path? == some (path.inside root)) ≠ [] := by
      rw [hrecords]
      simpa [pageRecords] using hne
    obtain ⟨r, hr⟩ := List.exists_mem_of_ne_nil _ hsome
    rw [List.mem_filter, beq_iff_eq] at hr
    exact ⟨r, hr⟩

end

end Stored

end Stored

/-! ## The index later on -/

/-- A tree that came later, in which the files of an index are as they were and
the folder is still without links and other indexes. -/
structure Kept (tree later : FileTree) (root : Path) : Prop where
  sound : later.Sound
  index : ∀ place, root.parts ++ [directoryName] <+: place → later.node? place = tree.node? place
  clear : Clear later root

/-- The tree with the index is without links and other indexes, as the tree was
before. -/
theorem Stored.clear {readers : Readers} {tree : FileTree}
    {found : List (Option (List (Record × Text)))} (hstored : Stored readers root tree tree' found)
    (hclear : Clear tree root) : Clear tree' root := by
  have hnode : ∀ place, (∃ content, tree'.node? place = some (.file content)) ∨
      place = root.parts ++ [directoryName] ∨ tree'.node? place = tree.node? place := by
    intro place
    rw [hstored.result]
    by_cases hfile : ∃ file ∈ filesOf found, place = root.parts ++ [directoryName] ++ [file.1]
    · obtain ⟨file, hmem, rfl⟩ := hfile
      exact .inl ⟨_, node?_putFiles_of_mem (distinct_indexFiles _ _) hmem _⟩
    · by_cases hdb : place = root.parts ++ [directoryName]
      · exact .inr (.inl hdb)
      · right; right
        rw [node?_putFiles_of_ne fun file hmem hsame =>
          hfile ⟨file, hmem, hsame⟩, node?_ensureDirectory_of_ne tree hdb]
  constructor
  · intro below target hbelow hlink
    rcases hnode below with ⟨content, hfile⟩ | rfl | hsame
    · rw [hlink] at hfile
      cases hfile
    · rw [hstored.node?_db] at hlink
      cases hlink
    · rw [hsame] at hlink
      exact hclear.linkFree below target hbelow hlink
  · intro place hplace hne hdirectory
    rcases hnode (place ++ [directoryName]) with ⟨content, hfile⟩ | hdb | hsame
    · rw [hdirectory] at hfile
      cases hfile
    · exact hne (List.append_cancel_right hdb)
    · rw [hsame] at hdirectory
      exact hclear.noOther place hplace hne hdirectory

theorem Stored.kept {readers : Readers} {tree : FileTree}
    {found : List (Option (List (Record × Text)))} (hstored : Stored readers root tree tree' found)
    (hclear : Clear tree root) : Kept tree' tree' root :=
  ⟨hstored.sound_result, fun _ _ => rfl, hstored.clear hclear⟩

theorem Kept.remove {tree later : FileTree} (hkept : Kept tree later root)
    (hplace : place ≠ []) (habove : ¬ place <+: root.parts ++ [directoryName])
    (hbelow : ¬ root.parts ++ [directoryName] <+: place) : Kept tree (later.remove place) root := by
  have hnode : ∀ {other node}, (later.remove place).node? other = some node →
      later.node? other = some node := by
    intro other node hother
    rw [node?_remove later hplace] at hother
    split at hother
    · cases hother
    · exact hother
  refine ⟨hkept.sound.remove hplace, fun other hother => ?_, ?_, ?_⟩
  · have hstays : ¬ place <+: other := fun hgone =>
      (List.prefix_or_prefix_of_prefix hgone hother).elim habove hbelow
    rw [node?_remove later hplace, if_neg hstays]
    exact hkept.index other hother
  · intro below target hin hlink
    exact hkept.clear.linkFree below target hin (hnode hlink)
  · intro below hin hne hdirectory
    exact hkept.clear.noOther below hin hne (hnode hdirectory)

section Later

variable {readers : Readers} {root path : Path} {tree tree' later : FileTree}
  {found : List (Option (List (Record × Text)))}

theorem result_firstIndexed?_near {near far : List Path} (hnear : ∀ c ∈ near,
      later.isDirectory? (c.child directoryName) = .ok false ∨
      (c.child directoryName).fits = false ∧ later.isDirectory? (c.child directoryName) =
          .error ⟨.nameTooLong, (c.child directoryName).text⟩)
    (hroot : later.isDirectory? (root.child directoryName) = .ok true) :
    (firstIndexed? (near ++ root :: far)).result later = (later, .finished (some root)) ∨
      ∃ c ∈ near, (c.child directoryName).fits = false ∧
        (firstIndexed? (near ++ root :: far)).result later = (later, .failed (.failure (.system
            ⟨.nameTooLong, (c.child directoryName).text⟩))) := by
  have hother : ∀ c ∈ near, later.isDirectory? (c.child directoryName) ≠ .ok true := by
    intro c hc
    rcases hnear c hc with hfalse | ⟨-, herror⟩
    · simp [hfalse]
    · simp [herror]
  refine (result_firstIndexed?_nearest far hother hroot).imp_right ?_
  rintro ⟨c, hc, e, hasked, hfailed⟩
  rcases hnear c hc with hfalse | ⟨hlong, herror⟩
  · rw [hfalse] at hasked
    cases hasked
  · rw [herror] at hasked
    cases hasked
    exact ⟨c, hc, hlong, hfailed⟩

theorem Kept.node?_db (hkept : Kept tree' later root)
    (hdb : tree'.node? (root.parts ++ [directoryName]) = some .directory) :
    later.node? (root.parts ++ [directoryName]) = some .directory := by
  rw [hkept.index _ (List.prefix_refl _), hdb]

theorem Kept.node?_root (hkept : Kept tree' later root)
    (hdb : tree'.node? (root.parts ++ [directoryName]) = some .directory) :
    later.node? root.parts = some .directory :=
  hkept.sound.directory_above (hkept.node?_db hdb) (List.prefix_append _ _) (by simp)

theorem isDirectory?_below {c : Path} (hsound : later.Sound)
    (hroot : later.node? root.parts = some .directory) (hfree : later.LinkFree root.parts)
    (hbelow : root.parts <+: c.parts) (hnamed : ∀ name ∈ c.parts, Name.Proper name)
    (hnot : later.node? (c.parts ++ [directoryName]) ≠ some .directory) :
    later.isDirectory? (c.child directoryName) = .ok false ∨
      (c.child directoryName).fits = false ∧ later.isDirectory? (c.child directoryName) =
          .error ⟨.nameTooLong, (c.child directoryName).text⟩ :=
  hsound.isDirectory?_linkFree hroot hfree (hbelow.trans (List.prefix_append _ _))
    (List.forall_mem_append.mpr ⟨hnamed, List.forall_mem_singleton.mpr proper_directoryName⟩) hnot

/-- The index of the folder is the one that is found for a path in the folder,
unless the path is too long to look for an index below it. -/
theorem Kept.result_findRoot? (hkept : Kept tree' later root)
    (hdb : tree'.node? (root.parts ++ [directoryName]) = some .directory)
    (hdbFits : (root.child directoryName).fits = true) (hbelow : root.parts <+: path.parts)
    (hnamed : ∀ name ∈ path.parts, Name.Proper name) :
    (findRoot? path).result later = (later, .finished (some root)) ∨
      (path.child directoryName).fits = false ∧ ∃ t, (findRoot? path).result later =
          (later, .failed (.failure (.system ⟨.nameTooLong, t⟩))) := by
  have hroot := hkept.node?_root hdb
  have hasked : later.isDirectory? (root.child directoryName) = .ok true :=
    hkept.sound.isDirectory?_directory (hkept.node?_db hdb) hdbFits
  obtain ⟨near, far, hsplit, hnear, -⟩ := exists_rootCandidates_append hbelow
  have hnone : ∀ c ∈ near, later.isDirectory? (c.child directoryName) = .ok false ∨
      (c.child directoryName).fits = false ∧ later.isDirectory? (c.child directoryName) =
          .error ⟨.nameTooLong, (c.child directoryName).text⟩ := by
    intro c hc
    obtain ⟨hrootC, hne, hcPath⟩ := hnear c hc
    exact isDirectory?_below hkept.sound hroot hkept.clear.linkFree hrootC
      (fun name hname => hnamed name (hcPath.subset hname))
      (hkept.clear.noOther c.parts hrootC hne)
  unfold findRoot?
  rw [hsplit]
  refine (result_firstIndexed?_near hnone hasked).imp_right ?_
  rintro ⟨c, hc, hlong, hfailed⟩
  refine ⟨?_, _, hfailed⟩
  -- What is asked for at the path itself is the longest.
  by_contra hshort
  rw [Path.fits_child_of_isPrefix (hnear c hc).2.2 (Bool.eq_true_of_not_eq_false hshort)] at hlong
  cases hlong

theorem Kept.result_position? (hkept : Kept tree' later root)
    (hdb : tree'.node? (root.parts ++ [directoryName]) = some .directory)
    (hdbFits : (root.child directoryName).fits = true) (hbelow : root.parts <+: path.parts)
    (hnamed : ∀ name ∈ path.parts, Name.Proper name) : (position? path).result later =
        (later, .finished (some (Position.ofRoot root path))) ∨
      (path.child directoryName).fits = false ∧ ∃ t, (position? path).result later =
          (later, .failed (.failure (.system ⟨.nameTooLong, t⟩))) := by
  rw [result_position?_of_resolve hnamed (hkept.sound.resolve_linkFree (hkept.node?_root hdb)
    hkept.clear.linkFree hbelow hnamed)]
  rcases hkept.result_findRoot? hdb hdbFits hbelow hnamed with
    hfound | ⟨hlong, t, hfailed⟩
  · rw [hfound]
    exact .inl rfl
  · rw [hfailed]
    exact .inr ⟨hlong, t, rfl⟩

theorem Stored.records_later (hstored : Stored readers root tree tree' found)
    (hkept : Kept tree' later root) : (root.child directoryName).fits = true ∧
      later.isFile? (recordsFile (root.child directoryName)) = .ok true ∧
      later.read (recordsFile (root.child directoryName)) =
        .ok (.text (recordsText (recordsOf found))) ∧
      ∀ r ∈ recordsOf found, Json.Stored (.object r.fields) := by
  have hfits : (recordsFile (root.child directoryName)).fits = true :=
    hstored.filesFit ("records.json", _) List.mem_cons_self
  have hnode : later.node? (recordsFile (root.child directoryName)).parts =
      some (.file (.text (recordsText (recordsOf found)))) :=
    (hkept.index _ ⟨["records.json"], rfl⟩).trans hstored.node?_recordsFile
  exact ⟨Path.fits_of_isPrefix (List.prefix_append _ _) hfits, hkept.sound.isFile?_file hnode hfits,
    hkept.sound.read_file hnode hfits, stored_of_found hstored.finds hstored.short⟩

/-- What is read from the index for a path: the answer, or a refusal if the path
is too long to look for an index below it. -/
def Answers (tree : FileTree) (path : Path) (answer : Option (List Text)) :
    Prop :=
  ((filePages? path).run none tree).ending = .finished answer ∨
    (path.child directoryName).fits = false ∧
      ∃ t, ((filePages? path).run none tree).ending =
        .failed (.failure (.system ⟨.nameTooLong, t⟩))

/-- A path is refused if it is too long to look for an index below it, although it is not too
long itself. -/
theorem result_filePages?_refused (hnamed : ∀ name ∈ path.parts, Name.Proper name)
    (hresolve : later.resolve path = .path path) (hfits : path.fits = true)
    (hlong : (path.child directoryName).fits = false) :
    (filePages? path).result later = (later, .failed (.failure (.system
      ⟨.nameTooLong, (path.child directoryName).text⟩))) := by
  have hsize : FileTree.maxPathBytes <
      (String.ofList (path.child directoryName).text).utf8ByteSize := by
    have hnames : (path.child directoryName).parts.all FileTree.nameFits = true := by
      unfold Path.fits at hfits
      change (path.parts ++ [directoryName]).all FileTree.nameFits = true
      rw [List.all_append, ((Bool.and_eq_true _ _).mp hfits).2]
      decide
    unfold Path.fits at hlong
    rw [hnames, Bool.and_true, decide_eq_false_iff_not] at hlong
    omega
  exact result_bind_of_failed
    (result_position?_refused hnamed hresolve (FileTree.isDirectory?_pathTooLong hsize))

theorem Stored.fits_document (hstored : Stored readers root tree tree' found)
    (hdocument : DocumentAt tree root path) : path.fits = true := by
  obtain ⟨content, hfile⟩ := hdocument.isFile
  exact hstored.fits_of_node? ((node?_begun hdocument.notInIndex).trans hfile) rfl
    hdocument.inFolder

theorem Stored.result_filePages?_refused (hstored : Stored readers root tree tree' found)
    (hkept : Kept tree' later root) (hdocument : DocumentAt tree root path)
    (hlong : (path.child directoryName).fits = false) :
    (filePages? path).result later = (later, .failed (.failure (.system
      ⟨.nameTooLong, (path.child directoryName).text⟩))) := by
  obtain ⟨content, hfile⟩ := hdocument.isFile
  have hnamed := hstored.sound.named_of_node? hfile
  exact Index.result_filePages?_refused hnamed (hkept.sound.resolve_linkFree
    (hkept.node?_root hstored.node?_db) hkept.clear.linkFree hdocument.inFolder hnamed)
    (hstored.fits_document hdocument) hlong

theorem Stored.answers (hstored : Stored readers root tree tree' found)
    (hkept : Kept tree' later root) (hbelow : root.parts <+: path.parts)
    (hnamed : ∀ name ∈ path.parts, Name.Proper name) {answer : Option (List Text)}
    (hanswer : (position? path).result later =
        (later, .finished (some (Position.ofRoot root path))) →
      (filePages? path).result later = (later, .finished answer)) : Answers later path answer := by
  unfold Answers
  rw [ending_run_none]
  rcases hkept.result_position? hstored.node?_db (hstored.records_later hkept).1 hbelow hnamed with
    hposition | ⟨hlong, t, hfailed⟩
  · exact .inl (congrArg Prod.snd (hanswer hposition))
  · refine .inr ⟨hlong, t, ?_⟩
    unfold filePages?
    rw [result_bind_of_failed hfailed]

theorem Stored.answers_document (hstored : Stored readers root tree tree' found)
    (hkept : Kept tree' later root) (hdocument : DocumentAt tree root path) :
    ∃ pages, (extract readers path).result tree = (tree, .finished pages) ∧ Answers later path
        (some (pages.map fun page => Text.strip (Text.normalize page))) := by
  obtain ⟨-, hisFile, hread, hjson⟩ := hstored.records_later hkept
  obtain ⟨pages, hpages, hne, hrecords⟩ := hstored.records_of_document hdocument
  obtain ⟨content, hfile⟩ := hdocument.isFile
  exact ⟨pages, hpages, hstored.answers hkept hdocument.inFolder
    (hstored.sound.named_of_node? hfile) fun hposition =>
      result_filePages?_of_position hposition hisFile hread hjson hne hrecords⟩

theorem Stored.answers_other (hstored : Stored readers root tree tree' found)
    (hkept : Kept tree' later root) (hbelow : root.parts <+: path.parts)
    (hnamed : ∀ name ∈ path.parts, Name.Proper name)
    (hother : ¬ DocumentAt tree root path) : Answers later path none := by
  obtain ⟨hdbFits, hisFile, hread, hjson⟩ := hstored.records_later hkept
  have hnone : ∀ r ∈ recordsOf found, r.path? ≠ some (path.inside root) := by
    intro r hr hpath
    obtain ⟨document, hdocument, hinside⟩ := hstored.exists_record_iff.mp ⟨r, hr, hpath⟩
    obtain ⟨content, hfile⟩ := hdocument.isFile
    have hsame : document = path := Path.inside_inj hdocument.inFolder hbelow (fun name hname =>
        (hstored.sound.named_of_node? hfile name hname).toPlain)
      (fun name hname => (hnamed name hname).toPlain) hinside
    exact hother (hsame ▸ hdocument)
  exact hstored.answers hkept hbelow hnamed fun hposition =>
    result_filePages?_of_missing hposition hisFile hread hjson (lookup_pagesByPath_eq_none hnone)

end Later

/-- What an index stores is what is read back, also when the documents have been
changed or removed since.  A path that was no document has no pages. -/
theorem pages_read_back {tree : FileTree} (hsound : tree.Sound)
    {readers : Readers} {folder : Path} {allowance : Allowance}
    {summary : Summary}
    (hmade : ((prepare readers folder).run allowance tree).ending =
      .finished summary)
    (hfolder : tree.node? summary.folder.parts = some .directory)
    (hclear : Clear tree summary.folder) {later : FileTree}
    (hkept : Kept ((prepare readers folder).run allowance tree).state later
      summary.folder) :
    (∀ path, DocumentAt tree summary.folder path →
      ∃ pages, ((extract readers path).run none tree).ending =
          .finished pages ∧
        ((filePages? path).run none later).ending =
          if (path.child directoryName).fits then
            .finished (some (pages.map fun page =>
              Text.strip (Text.normalize page)))
          else
            .failed (.failure (.system
              ⟨.nameTooLong, (path.child directoryName).text⟩))) ∧
    ∀ path, path.isWithin summary.folder = true →
      (∀ name ∈ path.parts, Name.Proper name) →
      ¬ DocumentAt tree summary.folder path → Answers later path none := by
  obtain ⟨root, found, -, -, -, hmakes, rfl⟩ :=
    prepare_eq_finished_iff.mp (Action.result_of_run hmade)
  have hstored := hmakes.stored hsound hfolder hclear.linkFree
  constructor
  · intro path hdocument
    obtain ⟨pages, hpages, hanswers⟩ :=
      hstored.answers_document hkept hdocument
    refine ⟨pages, ?_, ?_⟩
    · rw [Action.ending_run_none, hpages]
    · split
      · rename_i hfits
        refine hanswers.resolve_right fun hrefused => ?_
        rw [hrefused.1] at hfits
        cases hfits
      · rename_i hlong
        rw [Action.ending_run_none, hstored.result_filePages?_refused hkept
          hdocument (Bool.eq_false_of_not_eq_true hlong)]
  · intro path hwithin hnamed hother
    exact hstored.answers_other hkept
      (List.isPrefixOf_iff_prefix.mp hwithin) hnamed hother

/-! ## Indexes of texts -/

theorem exists_forall₂ {α β : Type} {R : α → β → Prop} {items : List α}
    (hitems : ∀ a ∈ items, ∃ b, R a b) : ∃ values, List.Forall₂ R items values := by
  induction items with
  | nil => exact ⟨[], .nil⟩
  | cons a items ih =>
    obtain ⟨b, hb⟩ := hitems a List.mem_cons_self
    obtain ⟨values, hvalues⟩ := ih fun a ha => hitems a (List.mem_cons_of_mem _ ha)
    exact ⟨b :: values, .cons hb hvalues⟩

theorem isTooLong_pageRecords {folder path : Path} {pages : List Text}
    (hpages : pages.length < 10 ^ Decimal.maxDigits) :
    ∀ found ∈ pageRecords folder path pages, found.1.isTooLong = false := by
  intro found hfound
  unfold pageRecords at hfound
  obtain ⟨⟨page, i⟩, hpage, rfl⟩ := List.mem_map.mp hfound
  have hi : i < pages.length := by simpa using (List.mem_zipIdx hpage).2.1
  change (Record.ofPage _ _ (i + 1) _).isTooLong = false
  rw [← Bool.not_eq_true, Record.isTooLong_ofPage, isTooLong_iff]
  omega

theorem isTooLong_recordsOf {P : Path → Option (List (Record × Text)) → Prop} {paths : List Path}
    {found : List (Option (List (Record × Text)))}
    (hfound : List.Forall₂ (fun path records => P path records ∧
      ∀ page ∈ records.getD [], page.1.isTooLong = false) paths found) :
    (recordsOf found).any Record.isTooLong = false := by
  induction hfound with
  | nil => rfl
  | cons hfirst _ ih =>
    rw [recordsOf_cons, List.any_append, ih, Bool.or_false, List.any_map, List.any_eq_false]
    intro page hpage
    simp [hfirst.2 page hpage]

/-- A tree in which every path is short and every file is a text, none of them with more pages than
can be counted. -/
structure OfTexts (tree : FileTree) : Prop where
  linkFree : tree.LinkFree []
  fits : ∀ path : Path, ∀ node, tree.node? path.parts = some node → path.fits = true
  kind : ∀ path : Path, ∀ content, tree.node? path.parts = some (.file content) → path.kind? = none
  short : ∀ place content pages, tree.node? place = some (.file content) →
    pagesOfText linesPerPage content.plainText = .ok pages → pages.length < 10 ^ Decimal.maxDigits

theorem ofTexts_of_entries {tree : FileTree}
    (hentries : ∀ entry ∈ tree.entries, Path.fits ⟨entry.1⟩ = true ∧
      (entry.2 = .directory ∨ ∃ content page, entry.2 = .file content ∧
        Path.kind? ⟨entry.1⟩ = none ∧
          pagesOfText linesPerPage content.plainText = .ok [page])) : OfTexts tree := by
  have hnodes : ∀ place node, tree.node? place = some node → Path.fits ⟨place⟩ = true ∧
      (node = .directory ∨ ∃ content page, node = .file content ∧ Path.kind? ⟨place⟩ = none ∧
        pagesOfText linesPerPage content.plainText = .ok [page]) := by
    intro place node hnode
    by_cases hplace : place = []
    · subst hplace
      rw [node?_nil] at hnode
      cases hnode
      exact ⟨by decide, .inl rfl⟩
    · exact hentries (place, node) (mem_entries_of_node? hnode hplace)
  have hfiles : ∀ place content, tree.node? place = some (.file content) →
      Path.kind? ⟨place⟩ = none ∧
        ∃ page, pagesOfText linesPerPage content.plainText = .ok [page] := by
    intro place content hnode
    rcases (hnodes _ _ hnode).2 with hdirectory | ⟨_, page, hfile, hkind, hpages⟩
    · cases hdirectory
    · cases hfile
      exact ⟨hkind, page, hpages⟩
  refine ⟨fun place target _ hnode => ?_, fun path node hnode => (hnodes path.parts node hnode).1,
    fun path content hnode => (hfiles path.parts content hnode).1,
    fun place content pages hnode hpages => ?_⟩
  · rcases (hnodes _ _ hnode).2 with hdirectory | ⟨_, _, hfile, -⟩
    · cases hdirectory
    · cases hfile
  · obtain ⟨-, page, hone⟩ := hfiles place content hnode
    obtain rfl : pages = [page] := Except.ok.inj (hpages.symm.trans hone)
    rw [List.length_singleton]
    exact Nat.one_lt_pow (by decide) (by decide)

theorem OfTexts.exists_finds {tree : FileTree} (htexts : OfTexts tree) (hsound : tree.Sound)
    (readers : Readers) (root db : Path) {path : Path} {node : Node}
    (hnode : tree.node? path.parts = some node) :
    ∃ records, Finds readers root db tree path records ∧
      ∀ found ∈ records.getD [], found.1.isTooLong = false := by
  have hfits := htexts.fits path node hnode
  cases node with
  | link target => exact absurd hnode (htexts.linkFree _ target List.nil_prefix)
  | directory => exact ⟨none, .other (hsound.isFile?_directory hnode hfits), by simp⟩
  | file content =>
    have hfile := hsound.isFile?_file hnode hfits
    cases hdb : path.isWithin db with
    | true => exact ⟨none, .ownFile hfile hdb, by simp⟩
    | false =>
      obtain ⟨pages, hpages, -⟩ := exists_pagesOfText content.plainText
      exact ⟨_, .document hfile hdb (result_extract_text readers (htexts.kind path content hnode)
        (hsound.read_file hnode hfits) hpages),
        isTooLong_pageRecords (htexts.short _ content pages hnode hpages)⟩

theorem OfTexts.put_directory {tree : FileTree} (htexts : OfTexts tree) {place : List Name}
    (hplace : place ≠ []) (hfits : Path.fits ⟨place⟩ = true) :
    OfTexts (tree.put place .directory) := by
  have hold : ∀ other node, (tree.put place .directory).node? other = some node →
      tree.node? other = some node ∨ other = place ∧ node = .directory := by
    intro other node hnode
    by_cases hother : other = place
    · rw [hother, node?_put_self _ _ hplace] at hnode
      cases hnode
      exact .inr ⟨hother, rfl⟩
    · rw [node?_put_of_ne _ _ hother] at hnode
      exact .inl hnode
  refine ⟨fun other target habove hnode => ?_, fun path node hnode => ?_,
    fun path content hnode => ?_, fun other content pages hnode => ?_⟩
  · rcases hold _ _ hnode with hnode | ⟨-, hnode⟩
    · exact htexts.linkFree other target habove hnode
    · cases hnode
  · rcases hold _ _ hnode with hnode | ⟨hparts, -⟩
    · exact htexts.fits path node hnode
    · rwa [← hparts] at hfits
  · rcases hold _ _ hnode with hnode | ⟨-, hnode⟩
    · exact htexts.kind path content hnode
    · cases hnode
  · rcases hold _ _ hnode with hnode | ⟨-, hnode⟩
    · exact htexts.short other content pages hnode
    · cases hnode

section Texts

variable {tree : FileTree} (htexts : OfTexts tree) (hsound : tree.Sound) (readers : Readers)
  {root : Path} (hroot : tree.node? root.parts = some .directory)
  (hnone : tree.node? (root.parts ++ [directoryName]) = none)
  (hfits : ∀ name ∈ fileNames, ((root.child directoryName).child name).fits = true)

include htexts hsound hroot hnone hfits

theorem OfTexts.exists_makes :
    ∃ made found, Makes readers root tree made found := by
  have hdbFits : (root.child directoryName).fits = true :=
    Path.fits_of_isPrefix (List.prefix_append _ _) (hfits "records.json" (by decide))
  have hsoundBegun := hsound.put proper_directoryName hroot
    (.inl (rfl : Node.directory = .directory))
  have hbegun : OfTexts (tree.put (root.parts ++ [directoryName]) .directory) :=
    htexts.put_directory (by simp) hdbFits
  have hrootFits : root.fits = true := htexts.fits root _ hroot
  have hrootBegun : (tree.put (root.parts ++ [directoryName]) .directory).node? root.parts =
      some .directory := by
    rw [node?_put_of_ne _ _ (by simp), hroot]
  have hpaths : ∀ path ∈ Path.sort ((tree.put (root.parts ++ [directoryName]) .directory).below
      root), ∃ records, Finds readers root (root.child directoryName)
        (tree.put (root.parts ++ [directoryName]) .directory) path records ∧
      ∀ found ∈ records.getD [], found.1.isTooLong = false := by
    intro path hpath
    rw [Path.sort, List.mem_mergeSort, hsoundBegun.mem_below_iff hrootBegun hrootFits] at hpath
    obtain ⟨⟨node, hnode⟩, -⟩ := hpath
    exact hbegun.exists_finds hsoundBegun readers root _ hnode
  obtain ⟨found, hfound⟩ := exists_forall₂ hpaths
  exact ⟨_, found, (makes_iff hsound hroot hnone).mpr ⟨hrootFits, hdbFits,
    fun file hfile => hfits file.1 (List.mem_map_of_mem hfile), isTooLong_recordsOf hfound,
    hfound.imp fun _ _ hfinds => hfinds.1, rfl⟩⟩

theorem OfTexts.exists_stored :
    ∃ summary found, ((prepare readers root).run none tree).ending = .finished summary ∧
      summary.folder = root ∧
      Stored readers root tree ((prepare readers root).run none tree).state found := by
  obtain ⟨made, found, hmakes⟩ := htexts.exists_makes hsound readers hroot hnone hfits
  have hnull : root.NoNull := fun name hname => (hsound.named_of_node? hroot name hname).noNull
  have hexists : tree.exists? root = .ok true :=
    (hsound.test_entry hroot rfl _).trans (if_pos (htexts.fits root _ hroot))
  have hresult := prepare_eq_finished_iff.mpr
    ⟨root, found, hnull.any_eq_false, hsound.resolve_entry hroot rfl, hexists, hmakes, rfl⟩
  have hmade : ((prepare readers root).run none tree).state = made := by
    rw [Action.state_run_none, hresult]
  refine ⟨_, found, by rw [Action.ending_run_none, hresult], rfl, ?_⟩
  rw [hmade]
  exact hmakes.stored hsound hroot (htexts.linkFree.below List.nil_prefix)

end Texts

end Folio.Index

namespace Folio

open Action FileTree

/-! ## The index of a folder with one note -/

namespace Note

def treeOf (t : Text) : FileTree :=
  ⟨[(["docs"], .directory), (["docs", "note.txt"], .file (.text t))]⟩

def folder : Path := ⟨["docs"]⟩

def path : Path := ⟨["docs", "note.txt"]⟩

def file : File := ⟨0, path⟩

def setting : Setting := ⟨folder, folder, ⟨false, false, false⟩⟩

/-- The folder without an index, and a handle on the file. -/
def before (t : Text) : Shelf := ⟨treeOf t, #[.file path none]⟩

def after (t : Text) : Shelf :=
  ⟨((Index.prepare setting.readers folder).run none (treeOf t)).state,
    #[.file path none]⟩

theorem sound_treeOf (t : Text) : (treeOf t).Sound := of_decide_eq_true rfl

theorem ofTexts_treeOf {t page : Text}
    (hpages : pagesOfText linesPerPage (Text.unixNewlines t) = .ok [page]) :
    Index.OfTexts (treeOf t) := by
  have hkind : path.kind? = none := by decide
  refine Index.ofTexts_of_entries fun entry hentry => ?_
  simp only [treeOf, List.mem_cons, List.not_mem_nil, or_false] at hentry
  rcases hentry with rfl | rfl
  · exact ⟨by decide, .inl rfl⟩
  · exact ⟨rfl, .inr ⟨_, page, rfl, hkind, hpages⟩⟩

theorem exists_makes (readers : Readers) {t page : Text}
    (hpages : pagesOfText linesPerPage (Text.unixNewlines t) = .ok [page]) :
    ∃ tree' found, Index.Makes readers folder (treeOf t) tree' found :=
  (ofTexts_treeOf hpages).exists_makes (sound_treeOf t) readers rfl rfl (by decide)

end Note

namespace Index

theorem clear_treeOf (t : Text) : Clear (Note.treeOf t) Note.folder := by
  constructor
  · intro place target hplace hnode
    have hmem := mem_entries_of_node? hnode
      (List.ne_nil_of_length_pos (hplace.length_le.trans_lt' (by decide)))
    simp [Note.treeOf] at hmem
  · intro place hplace _ hnode
    have hmem := mem_entries_of_node? hnode (by simp)
    have hdocs : place ++ [directoryName] = ["docs"] := by simpa [Note.treeOf] using hmem
    have hlength := congrArg List.length hdocs
    have hone : 1 ≤ place.length := hplace.length_le
    rw [List.length_append] at hlength
    change place.length + 1 = 1 at hlength
    omega

theorem stored_note {t page : Text}
    (hpages : pagesOfText linesPerPage (Text.unixNewlines t) = .ok [page]) :
    ∃ summary found, ((prepare Note.setting.readers Note.folder).run none
        (Note.treeOf t)).ending = .finished summary ∧ summary.folder = Note.folder ∧
      Stored Note.setting.readers Note.folder (Note.treeOf t) (Note.after t).tree found :=
  (Note.ofTexts_treeOf hpages).exists_stored (Note.sound_treeOf t) _ rfl rfl (by decide)

/-- The page of a note that was removed is still there. -/
theorem removed_note_read_back :
    (∃ summary, ((prepare Note.setting.readers Note.folder).run none
        (Note.treeOf ['b'])).ending = .finished summary) ∧
      ((filePages? Note.path).run none
        ((Note.after ['b']).tree.remove Note.path.parts)).ending =
          .finished (some [['b']]) ∧
      Answers ((Note.after ['b']).tree.remove Note.path.parts)
        ⟨["docs", "list.txt"]⟩ none := by
  have hpages : pagesOfText linesPerPage (Text.unixNewlines ['b']) =
      .ok [['b']] := by rfl
  obtain ⟨summary, found, hmade, hfolder, hstored⟩ := stored_note hpages
  have hkept : Kept ((prepare Note.setting.readers Note.folder).run none
      (Note.treeOf ['b'])).state
      ((Note.after ['b']).tree.remove Note.path.parts) summary.folder := by
    rw [hfolder]
    exact (hstored.kept (clear_treeOf ['b'])).remove (by decide) (by decide)
      (by decide)
  obtain ⟨hdocuments, hothers⟩ := pages_read_back (Note.sound_treeOf ['b']) hmade
    (hfolder ▸ rfl) (hfolder ▸ clear_treeOf ['b']) hkept
  rw [hfolder] at hdocuments hothers
  refine ⟨⟨summary, hmade⟩, ?_, hothers _ (by decide) ?_ ?_⟩
  · obtain ⟨pages, hread, hanswers⟩ := hdocuments Note.path
      ⟨by decide, by decide, _, rfl⟩
    have hextract : (extract Note.setting.readers Note.path).result
        (Note.treeOf ['b']) = (Note.treeOf ['b'], .finished [['b']]) :=
      result_extract_text _ (by decide) rfl hpages
    rw [Action.ending_run_none, hextract] at hread
    cases hread
    exact hanswers
  · intro name hname
    simp only [List.mem_cons, List.not_mem_nil, or_false] at hname
    rcases hname with rfl | rfl <;>
      exact ⟨⟨by decide, by decide, by decide⟩, by decide, by decide⟩
  · rintro ⟨-, -, content, hfile⟩
    cases hfile

/-! ## The index of a folder with a document far down -/

namespace Far

def folder : Path := ⟨["docs"]⟩

/-- A directory so far down that a file in it can be looked up, but no index. -/
def directory : Path :=
  ⟨"docs" :: (List.replicate 15 (Name.ofSize 255) ++ [Name.ofSize 239])⟩

def path : Path := directory.child (Name.ofSize 1)

def tree : FileTree := .chain path.parts (.file (.text ['b']))

def readers : Readers := ⟨false, false, false⟩

theorem proper_path : ∀ name ∈ path.parts, Name.Proper name := by
  intro name hname
  simp only [path, directory, Path.child, List.cons_append, List.append_assoc, List.mem_cons,
    List.mem_append, List.mem_replicate, List.not_mem_nil, or_false, false_or] at hname
  rcases hname with rfl | ⟨-, rfl⟩ | rfl | rfl
  · exact ⟨⟨by decide, by decide, by decide⟩, by decide, by decide⟩
  all_goals exact Name.proper_ofSize (by decide)

theorem fits_path : path.fits = true := by
  have hdocs : String.utf8ByteSize "docs" = 4 := by decide
  refine (Path.fits_iff (by simp)).mpr ?_
  simp [directory, Name.utf8ByteSize_ofSize, hdocs, maxPathBytes, maxNameBytes]

theorem fits_below {below : Path} (hbelow : directory.parts <+: below.parts) :
    (below.child directoryName).fits = false := by
  have hdocs : String.utf8ByteSize "docs" = 4 := by decide
  have hname : String.utf8ByteSize directoryName = 11 := by decide
  rw [← Bool.not_eq_true]
  intro hfits
  have hshort : (directory.child directoryName).fits = true :=
    Path.fits_child_of_isPrefix hbelow hfits
  rw [Path.child, Path.fits_iff (by simp)] at hshort
  simp [directory, Name.utf8ByteSize_ofSize, hdocs, hname, maxPathBytes] at hshort

theorem sound_tree : tree.Sound := sound_chain proper_path

theorem folder_prefix_path : folder.parts <+: path.parts := ⟨_, rfl⟩

theorem parts_ne : path.parts ≠ [] := by simp [path, Path.child]

theorem node?_path : tree.node? path.parts = some (.file (.text ['b'])) := node?_chain_end parts_ne

theorem length_path : path.parts.length = 18 := by simp [path, directory, Path.child]

theorem node?_folder : tree.node? folder.parts = some .directory := by
  refine node?_chain_above folder_prefix_path ?_
  rw [length_path]
  decide

theorem node?_tree {node : Node} (hnode : tree.node? place = some node) : place <+: path.parts ∧
      node = if place = path.parts then .file (.text ['b']) else .directory := by
  by_cases hplace : place = []
  · subst hplace
    rw [node?_nil] at hnode
    cases hnode
    exact ⟨List.nil_prefix, (if_neg parts_ne.symm).symm⟩
  · exact (node?_chain_iff hplace).mp hnode

theorem directoryName_notMem : directoryName ∉ path.parts := by
  intro hmem
  have hsize : String.utf8ByteSize directoryName = 11 := by decide
  simp only [path, directory, Path.child, List.cons_append, List.append_assoc, List.mem_cons,
    List.mem_append, List.mem_replicate, List.not_mem_nil, or_false, false_or] at hmem
  rcases hmem with h | ⟨-, h⟩ | h | h
  · exact absurd h (by decide)
  all_goals
    rw [h, Name.utf8ByteSize_ofSize] at hsize
    exact absurd hsize (by decide)

theorem node?_below_db (hplace : directoryName ∈ place) : tree.node? place = none := by
  cases hnode : tree.node? place with
  | none => rfl
  | some node => exact absurd ((node?_tree hnode).1.subset hplace) directoryName_notMem

theorem kind?_path : path.kind? = none := by
  have hname : path.name = "a" := by
    simp only [Path.name, path, Path.child, List.getLast?_concat]
    rfl
  unfold Path.kind? Path.ending
  rw [hname]
  decide

theorem ofTexts_tree : OfTexts tree := by
  have hfile : ∀ place content, tree.node? place = some (.file content) →
      place = path.parts ∧ content = .text ['b'] := by
    intro place content hnode
    have hkind := (node?_tree hnode).2
    split at hkind
    · rename_i hplace
      cases hkind
      exact ⟨hplace, rfl⟩
    · cases hkind
  refine ⟨fun place target _ hlink => ?_, fun other node hnode => ?_,
    fun other content hnode => ?_, fun place content pages hnode hpages => ?_⟩
  · have hkind := (node?_tree hlink).2
    split at hkind <;> cases hkind
  · exact Path.fits_of_isPrefix (node?_tree hnode).1 fits_path
  · obtain rfl : other = path := congrArg Path.mk (hfile _ _ hnode).1
    exact kind?_path
  · obtain ⟨-, rfl⟩ := hfile _ _ hnode
    cases hpages
    exact Nat.one_lt_pow (by decide) (by decide)

theorem clear_tree : Clear tree folder := by
  refine ⟨ofTexts_tree.linkFree.below List.nil_prefix, fun place _ _ hdirectory => ?_⟩
  rw [node?_below_db (by simp)] at hdirectory
  cases hdirectory

def after : FileTree := ((prepare readers folder).run none tree).state

theorem stored_tree : ∃ summary found,
      ((prepare readers folder).run none tree).ending = .finished summary ∧
        summary.folder = folder ∧ Stored readers folder tree after found :=
  ofTexts_tree.exists_stored sound_tree readers node?_folder (node?_below_db (by simp)) (by decide)

end Far

/-- The pages of a document are not read back if the document is so far down that
the system refuses to look for an index below its path. -/
theorem far_document_refused :
    (∃ summary, ((prepare Far.readers Far.folder).run none Far.tree).ending =
        .finished summary ∧ summary.folder = Far.folder) ∧
      Clear Far.tree Far.folder ∧ Kept Far.after Far.after Far.folder ∧
      DocumentAt Far.tree Far.folder Far.path ∧
      ((extract Far.readers Far.path).run none Far.tree).ending =
        .finished [['b']] ∧
      ∃ e, ((filePages? Far.path).run none Far.after).ending = .failed e := by
  obtain ⟨summary, found, hmade, hfolder, hstored⟩ := Far.stored_tree
  have hkept := hstored.kept Far.clear_tree
  have hdocument : DocumentAt Far.tree Far.folder Far.path :=
    ⟨Far.folder_prefix_path, fun hbelow =>
      Far.directoryName_notMem (hbelow.subset (by simp)), _, Far.node?_path⟩
  have hfile : Far.after.node? Far.path.parts = some (.file (.text ['b'])) := by
    rw [hstored.node?_result hdocument.notInIndex, Far.node?_path]
  have hasked : Far.after.isDirectory? (Far.path.child directoryName) =
      .error ⟨.nameTooLong, (Far.path.child directoryName).text⟩ := by
    have hbelow : Far.directory.parts <+: Far.path.parts :=
      List.prefix_append _ _
    have hlong : (Far.path.child directoryName).fits = false :=
      Far.fits_below hbelow
    refine (hkept.sound.test_below_file hfile nameFits_directoryName _).trans ?_
    exact if_neg (Bool.eq_false_iff.mp hlong)
  refine ⟨⟨summary, hmade, hfolder⟩, Far.clear_tree, hkept, hdocument, ?_, ?_⟩
  · have hpages : pagesOfText linesPerPage (Text.unixNewlines ['b']) = .ok [['b']] := rfl
    rw [Action.ending_run_none, result_extract_text Far.readers Far.kind?_path
      (Far.sound_tree.read_file Far.node?_path Far.fits_path) hpages]
  · have hposition := result_position? hkept.sound hfile
    unfold findRoot? rootCandidates at hposition
    rw [result_firstIndexed?_cons, hasked] at hposition
    rw [Action.ending_run_none]
    exact ⟨_, congrArg Prod.snd (Action.result_bind_of_failed hposition)⟩

end Index

end Folio
