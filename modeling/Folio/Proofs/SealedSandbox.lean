import Folio.Proofs.GuardedRun
import Folio.Proofs.PreparedSearch

/-!
# Sandboxes that nothing leads out of

A path that a program names is resolved and refused outside the sandbox.  The files
that a directory gives, from the file system or from an index, are not resolved again.
So a link in the sandbox can lead out of it, and so can an index with the path of
something outside.

In a sealed sandbox every link leads back into it, and the indexes that cover
something in it have records of what is in their folders only.  A run in a sealed
sandbox stays in it: wherever the run is stopped, every handle it was given has a path
in the sandbox, which resolves to a path in the sandbox, and what is read there is in
the sandbox.
-/

namespace Folio

open Action FileTree Index

section

variable {tree tree' : FileTree} {box path root : Path} {here rest parts place : List Name}
  {part : Name} {t target : Text} {n : Nat}

/-! ## Ways into a sandbox -/

/-- Parts that lead from a place into a sandbox, by what is written: some steps up and
then down. -/
inductive Inbound (box : List Name) : List Name → List Name → Prop
  | up {here rest : List Name} (hrest : Inbound box here.dropLast rest) :
      Inbound box here (".." :: rest)
  | down {here rest : List Name} (hdown : ∀ name ∈ rest, name ≠ "..")
      (hwithin : box <+: here ++ rest) : Inbound box here rest

theorem foldl_collapse (hrest : ∀ name ∈ rest, name ≠ "..") :
    rest.foldl (fun done part => if part == ".." then done.dropLast else done ++ [part]) here =
      here ++ rest := by
  induction rest generalizing here with
  | nil => simp
  | cons part rest ih =>
    rw [List.foldl_cons, if_neg (by simpa using hrest part List.mem_cons_self),
      ih fun name hname => hrest name (List.mem_cons_of_mem _ hname), ← List.append_cons]

theorem collapse_append (hrest : ∀ name ∈ rest, name ≠ "..") :
    collapse (here ++ rest) = collapse here ++ rest := by
  unfold collapse
  rw [List.foldl_append, foldl_collapse hrest]

theorem collapse_eq_self (hhere : ∀ name ∈ here, name ≠ "..") : collapse here = here :=
  foldl_collapse hhere

namespace Inbound

variable {box : List Name}

theorem within (hinbound : Inbound box here []) : box <+: here := by
  cases hinbound with
  | down _ hwithin => simpa using hwithin

theorem of_up (hinbound : Inbound box here (".." :: rest)) : Inbound box here.dropLast rest := by
  cases hinbound with
  | up hrest => exact hrest
  | down hdown => exact absurd rfl (hdown _ List.mem_cons_self)

theorem of_cons (hinbound : Inbound box here (part :: rest)) (hpart : part ≠ "..") :
    (∀ name ∈ rest, name ≠ "..") ∧ box <+: here ++ [part] ++ rest := by
  cases hinbound with
  | up => exact absurd rfl hpart
  | down hdown hwithin =>
    exact ⟨fun name hname => hdown name (List.mem_cons_of_mem _ hname), by simpa using hwithin⟩

theorem append (hparts : Inbound box here parts) (hrest : ∀ name ∈ rest, name ≠ "..") :
    Inbound box here (parts ++ rest) := by
  induction hparts with
  | up _ ih => exact .up ih
  | down hdown hwithin =>
    refine .down (List.forall_mem_append.mpr ⟨hdown, hrest⟩) ?_
    rw [← List.append_assoc]
    exact hwithin.trans (List.prefix_append _ _)

theorem collapse (hinbound : Inbound box here rest) (hhere : ∀ name ∈ here, name ≠ "..") :
    box <+: FileTree.collapse (here ++ rest) := by
  induction hinbound with
  | @up here rest _ ih =>
    have hshorter : ∀ name ∈ here.dropLast, name ≠ ".." :=
      fun name hname => hhere name (List.mem_of_mem_dropLast hname)
    have hsame : FileTree.collapse (here ++ ".." :: rest) =
        FileTree.collapse (here.dropLast ++ rest) := by
      unfold FileTree.collapse
      rw [List.foldl_append, List.foldl_append, foldl_collapse hhere, foldl_collapse hshorter]
      rfl
    rw [hsame]
    exact ih hshorter
  | down hdown hwithin => rwa [collapse_append hdown, collapse_eq_self hhere]

end Inbound

/-! ## Sealed sandboxes -/

/-- A path in writing that leads into the folder it is seen from. -/
def Inward (t : Text) : Prop :=
  (WrittenPath.ofText t).absolute = false ∧ ∀ name ∈ (WrittenPath.ofText t).parts, name ≠ ".."

/-- Records that are all about something in the folder of the index. -/
def HonestRecords (records : List Record) : Prop :=
  ∀ r ∈ records, ∀ t, r.path? = some t → Inward t

/-- Nothing leads out of a sandbox. -/
structure Sealed (tree : FileTree) (box : Path) : Prop where
  rooted : tree.Rooted
  named : ∀ entry ∈ tree.entries, ∀ name ∈ entry.1, Name.Settled name
  above : tree.Straight box.parts
  links : ∀ place target, box.parts <+: place → tree.node? place = some (.link target) →
    Inbound box.parts (targetBase place.dropLast target) (WrittenPath.ofText target).parts
  /-- The indexes of folders in the sandbox and above it. -/
  records : ∀ root : Path, root.parts <+: box.parts ∨ box.parts <+: root.parts →
    ∀ value records, readJson tree (recordsFile (root.child directoryName)) = .ok value →
      recordsOf? value = some records → HonestRecords records

/-- A path in a sandbox. -/
structure InBox (box path : Path) : Prop where
  within : box.parts <+: path.parts
  settled : ∀ name ∈ path.parts, Name.Settled name

theorem InBox.inbound (hpath : InBox box path) : Inbound box.parts [] path.parts :=
  .down (fun name hname => (hpath.settled name hname).notUp) hpath.within

theorem filter_plain_parts (hparts : ∀ name ∈ parts, Name.Plain name) :
    parts.filter (· != ".") = parts :=
  List.filter_eq_self.mpr fun name hname => bne_iff_ne.mpr (hparts name hname).notHere

theorem settled_targetBase (hhere : ∀ name ∈ here, Name.Settled name) (target : Text) :
    ∀ name ∈ targetBase here target, Name.Settled name := by
  unfold targetBase
  split
  · simp
  · exact hhere

/-- The names of a place that a walk comes to are those of entries. -/
theorem FileTree.Walks.settled {new : Bool} {links : Nat}
    (hwalks : tree.Walks new links here parts place)
    (hhere : ∀ name ∈ here, Name.Settled name)
    (hparts : ∀ name ∈ parts, name ≠ "." → Name.Plain name) :
    ∀ name ∈ place, Name.Settled name := by
  induction hwalks with
  | done => exact hhere
  | stay _ _ _ ih => exact ih hhere (List.forall_mem_cons.mp hparts).2
  | up _ _ _ ih =>
    exact ih (fun name hname => hhere name (List.mem_of_mem_dropLast hname))
      (List.forall_mem_cons.mp hparts).2
  | make _ hpart =>
    refine List.forall_mem_append.mpr ⟨hhere, List.forall_mem_singleton.mpr ?_⟩
    exact ⟨(List.forall_mem_cons.mp hparts).1 hpart.1, hpart.2.1⟩
  | @follow _ _ _ _ _ target _ _ _ _ ih =>
    refine ih (settled_targetBase hhere target) ?_
    refine List.forall_mem_append.mpr ⟨List.forall_mem_append.mpr ⟨?_, ?_⟩,
      (List.forall_mem_cons.mp hparts).2⟩
    · exact fun name hname _ => WrittenPath.plain_ofText target name hname
    · split <;> simp
  | enter _ hpart _ _ _ ih =>
    refine ih (List.forall_mem_append.mpr ⟨hhere, List.forall_mem_singleton.mpr ?_⟩)
      (List.forall_mem_cons.mp hparts).2
    exact ⟨(List.forall_mem_cons.mp hparts).1 hpart.1, hpart.2.1⟩

namespace Sealed

/-! ### Where a path leads -/

theorem homeward (hsealed : Sealed tree box)
    (hlink : tree.node? (here ++ [part]) = some (.link target))
    (hwithin : box.parts <+: here ++ [part] ++ rest) : box.parts <+: here ++ [part] ∧
      Inbound box.parts (targetBase here target) (WrittenPath.ofText target).parts := by
  rcases List.prefix_or_prefix_of_prefix (List.prefix_append (here ++ [part]) rest) hwithin with
    hup | hdown
  · exact absurd hlink (hsealed.above _ target hup)
  · have hhome := hsealed.links _ target hdown hlink
    rw [List.dropLast_concat] at hhome
    exact ⟨hdown, hhome⟩

/-- Walking into a sealed sandbox ends in it.  The dots that ask for a directory do not
count. -/
theorem within_of_walks (hsealed : Sealed tree box) {new : Bool} {links : Nat}
    (hwalks : tree.Walks new links here parts place)
    (hinbound : Inbound box.parts here (parts.filter (· != "."))) : box.parts <+: place := by
  induction hwalks with
  | done => exact hinbound.within
  | stay _ hpart _ ih =>
    subst hpart
    exact ih hinbound
  | up _ hpart _ ih =>
    subst hpart
    exact ih (Inbound.of_up hinbound)
  | make _ hpart _ _ hlast =>
    subst hlast
    rw [List.filter_cons_of_pos (by simpa using hpart.1)] at hinbound
    simpa using (hinbound.of_cons hpart.2.1).2
  | follow _ hpart hnode _ ih =>
    rw [List.filter_cons_of_pos (by simpa using hpart.1)] at hinbound
    obtain ⟨hdown, hwithin⟩ := hinbound.of_cons hpart.2.1
    have hdots : ∀ asked : Bool, (if asked then ["."] else []).filter (· != ".") = [] := by decide
    refine ih ?_
    rw [targetParts, List.filter_append, List.filter_append, hdots, List.append_nil,
      filter_plain_parts (WrittenPath.plain_ofText _)]
    exact (hsealed.homeward hnode hwithin).2.append hdown
  | enter _ hpart _ _ _ ih =>
    rw [List.filter_cons_of_pos (by simpa using hpart.1)] at hinbound
    obtain ⟨hdown, hwithin⟩ := hinbound.of_cons hpart.2.1
    exact ih (.down hdown hwithin)

theorem locate_within (hsealed : Sealed tree box) (hpath : InBox box path)
    (hlocate : tree.locate path = .ok place) : box.parts <+: place := by
  refine hsealed.within_of_walks (walkPath_eq_ok_iff.mp hlocate).2 ?_
  rw [filter_plain_parts fun name hname => (hpath.settled name hname).toPlain]
  exact hpath.inbound

/-! ### Where a path resolves to -/

/-- What comes of resolving: a place in a sandbox, or what is left of a path into it. -/
def Inside (box : List Name) : Except (List Name) (List Name) → Prop
  | .ok place => box <+: place ∧ ∀ name ∈ place, name ≠ ".."
  | .error left => box <+: collapse left

theorem inside_resolveParts (hsealed : Sealed tree box)
    {onLink : List Name → Text → Except (List Name) (List Name)}
    (honLink : ∀ here part target, (∀ name ∈ here ++ [part], name ≠ "..") →
      box.parts <+: here ++ [part] →
      Inbound box.parts (targetBase here target) (WrittenPath.ofText target).parts →
      Inside box.parts (onLink (here ++ [part]) target))
    (hhere : ∀ name ∈ here, name ≠ "..") (hinbound : Inbound box.parts here rest) :
    Inside box.parts (resolveParts tree onLink here rest) := by
  induction rest generalizing here with
  | nil => exact ⟨hinbound.within, hhere⟩
  | cons part rest ih =>
    rw [resolveParts]
    split
    · rename_i hup
      rw [beq_iff_eq.mp hup] at hinbound
      exact ih (fun name hname => hhere name (List.mem_of_mem_dropLast hname)) hinbound.of_up
    · rename_i hup
      have hpart : part ≠ ".." := by simpa using hup
      have hlonger : ∀ name ∈ here ++ [part], name ≠ ".." :=
        List.forall_mem_append.mpr ⟨hhere, List.forall_mem_singleton.mpr hpart⟩
      obtain ⟨hdown, hwithin⟩ := hinbound.of_cons hpart
      split
      · rename_i target hlink
        obtain ⟨hin, hhome⟩ := hsealed.homeward hlink hwithin
        have hinside := honLink here part target hlonger hin hhome
        split
        · rename_i there hthere
          rw [hthere] at hinside
          exact ih hinside.2 (.down hdown (hinside.1.trans (List.prefix_append _ _)))
        · rename_i left hleft
          rw [hleft] at hinside
          change box.parts <+: collapse (left ++ rest)
          rw [collapse_append hdown]
          exact List.IsPrefix.trans hinside (List.prefix_append _ _)
      · exact ih hlonger (.down hdown hwithin)

/-- Resolving a way into a sealed sandbox ends in it, also where links go round in a
circle. -/
theorem inside_resolveFrom (hsealed : Sealed tree box) (fuel : Nat) (followed : List (List Name))
    (hhere : ∀ name ∈ here, name ≠ "..") (hinbound : Inbound box.parts here rest) :
    Inside box.parts (resolveFrom tree fuel followed here rest) := by
  induction fuel generalizing followed here rest with
  | zero => exact hinbound.collapse hhere
  | succ fuel ih =>
    refine hsealed.inside_resolveParts (fun here part target hlonger hin hhome => ?_) hhere hinbound
    rw [List.dropLast_concat]
    split
    · change box.parts <+: collapse (here ++ [part])
      rwa [collapse_eq_self hlonger]
    · refine ih _ (fun name hname => ?_) hhome
      unfold targetBase at hname
      split at hname
      · cases hname
      · exact hlonger name (List.mem_append_left _ hname)

theorem inBox_resolved (hsealed : Sealed tree box) (hpath : InBox box path) :
    InBox box (tree.resolved path) := by
  refine ⟨?_, settled_resolved tree fun name hname => (hpath.settled name hname).toPlain⟩
  have hinside := hsealed.inside_resolveFrom (tree.linkCount + 1) [] (by simp) hpath.inbound
  cases hresult : resolveFrom tree (tree.linkCount + 1) [] [] path.parts with
  | ok place =>
    rw [hresult] at hinside
    rw [parts_resolved_of_ok hresult]
    exact hinside.1
  | error left =>
    rw [hresult] at hinside
    rw [parts_resolved_of_error hresult]
    exact hinside

/-! ### What is written -/

/-- A sandbox stays sealed when vectors are written, wherever the links of an index lead
to: there are no records in what is written. -/
theorem write (hsealed : Sealed tree box) (hpath : ∀ name ∈ path.parts, Name.Plain name)
    (htext : IndexText [] t) (hwrite : tree.write path t = .ok tree') : Sealed tree' box := by
  obtain ⟨spot, hspot, rfl⟩ := exists_leads_of_write hsealed.rooted hwrite
  have hlink : ∀ place target, (tree.put spot (.file (.text t))).node? place =
      some (.link target) → tree.node? place = some (.link target) := by
    intro place target hplace
    by_cases hsame : place = spot
    · rw [hsame, node?_put_self tree _ hspot.free.ne_nil] at hplace
      cases hplace
    · rwa [node?_put_of_ne tree _ hsame] at hplace
  refine ⟨hspot.rooted_put hsealed.rooted _, ?_, ?_, ?_, ?_⟩
  · intro entry hentry
    rcases mem_entries_put.mp hentry with ⟨hold, -⟩ | rfl
    · exact hsealed.named entry hold
    · exact (walkPath_eq_ok_iff.mp hspot.destination).2.settled (by simp)
        fun name hname _ => hpath name hname
  · exact fun above target habove hnode => hsealed.above above target habove (hlink _ _ hnode)
  · exact fun place target hplace hnode => hsealed.links place target hplace (hlink _ _ hnode)
  · intro root hnear value records hjson hrecords
    obtain ⟨content, hread⟩ := exists_read_of_readJson hjson
    obtain ⟨place, hplace, hnode⟩ := exists_leads_of_read hread
    by_cases hsame : place = spot
    · rw [hsame, node?_put_self tree _ hspot.free.ne_nil] at hnode
      cases hnode
      rcases htext.records_of_read nofun hread hjson hrecords with rfl | rfl
      · exact nofun
      · exact nofun
    · rw [node?_put_of_ne tree _ hsame] at hnode
      have hbefore : tree.Leads _ place :=
        ⟨hplace.destination_of_put hspot.free, .inr ⟨content, hnode⟩⟩
      refine hsealed.records root hnear value records ?_ hrecords
      rwa [readJson, hbefore.read_file hsealed.rooted hnode, ← hread]

end Sealed

/-! ## What a sealed sandbox keeps -/

section Doors

variable {s : Setting}

theorem keeps_resolve {I : FileTree → Prop} {P : Path → Prop}
    (hresolved : ∀ tree, I tree → P (tree.resolved path)) :
    (TreeAction.resolve path).Keeps I n P := by
  unfold TreeAction.resolve
  refine keeps_guard (keeps_throw _ trivial) ?_
  refine keeps_get.bind fun tree htree => ?_
  have hfound := hresolved tree htree
  unfold resolved at hfound
  split
  · rename_i found hpath
    rw [hpath] at hfound
    exact keeps_pure hfound
  · exact keeps_throw _ trivial

theorem keeps_locate (hcwd : ∀ name ∈ s.cwd.parts, Name.Plain name) (t : Text) :
    (s.locate t).Keeps (Sealed · s.sandbox) n (InBox s.sandbox) := by
  have hnames : ∀ name ∈ (s.cwd.join (WrittenPath.ofText t)).parts, Name.Plain name := by
    unfold Path.join
    split
    · exact WrittenPath.plain_ofText t
    · exact List.forall_mem_append.mpr ⟨hcwd, WrittenPath.plain_ofText t⟩
  refine Keeps.bind (P := fun found => ∀ name ∈ found.parts, Name.Settled name)
    (keeps_resolve fun tree _ => settled_resolved tree hnames) fun found hfound => ?_
  split
  · rename_i hwithin
    exact keeps_pure ⟨List.isPrefixOf_iff_prefix.mp hwithin, hfound⟩
  · refine (TreeAction.calm_shown _ _ _ _).bind fun _ _ => ?_
    exact (TreeAction.calm_shown _ _ _ _).bind fun _ _ => keeps_throw _ rfl

theorem keeps_firstIndexed? {I : FileTree → Prop} (candidates : List Path) :
    (firstIndexed? candidates).Keeps I n fun found => ∀ root ∈ found, root ∈ candidates := by
  induction candidates with
  | nil => exact keeps_pure nofun
  | cons candidate rest ih =>
    refine (keeps_check _).bind fun _ _ => ?_
    refine (TreeAction.calm_ask _ _ _).bind fun found _ => ?_
    split
    · exact keeps_pure (by simp)
    · exact ih.imp fun found hfound root hroot => List.mem_cons_of_mem _ (hfound root hroot)

/-- The place of a path in an index that covers something in a sandbox. -/
def Covered (box : Path) (p : Position) : Prop :=
  ∃ root path, InBox box path ∧ root.parts <+: path.parts ∧ p = Position.ofRoot root path

theorem keeps_position? (hpath : InBox box path) :
    (position? path).Keeps (Sealed · box) n fun found => ∀ p ∈ found, Covered box p := by
  refine (keeps_resolve fun tree hsealed => hsealed.inBox_resolved hpath).bind
    fun found hfound => ?_
  refine (keeps_firstIndexed? _).bind fun root hroot => ?_
  split
  · refine keeps_pure fun p hp => ?_
    cases hp
    exact ⟨_, found, hfound, mem_rootCandidates_iff.mp (hroot _ rfl), rfl⟩
  · exact keeps_pure nofun

theorem keeps_position (hpath : InBox box path) :
    (position s.cwd path).Keeps (Sealed · box) n (Covered box) := by
  refine (keeps_resolve fun tree hsealed => hsealed.inBox_resolved hpath).bind
    fun found hfound => ?_
  refine Keeps.bind (P := fun root => root.parts <+: found.parts) ?_
    fun root hroot => keeps_pure ⟨root, found, hfound, hroot, rfl⟩
  refine (keeps_firstIndexed? _).bind fun root hroot => ?_
  split
  · exact keeps_pure (mem_rootCandidates_iff.mp (hroot _ rfl))
  · exact (TreeAction.calm_shown _ _ _ _).bind fun _ _ => keeps_throw _ rfl

theorem keeps_loadCatalogue {p : Position} (hp : Covered box p) :
    (loadCatalogue p.db).Keeps (Sealed · box) n
      fun catalogue => ∀ document ∈ catalogue.pages, Inward document.1 := by
  obtain ⟨root, path, hpath, hroot, rfl⟩ := hp
  have hrecords : (loadRecords (root.child directoryName)).Keeps (Sealed · box) n
      HonestRecords := by
    refine (TreeAction.calm_ask _ _ _).bind fun found _ => ?_
    refine keeps_guard (keeps_throw _ rfl) ?_
    refine keeps_get.bind fun tree hsealed => ?_
    cases hjson : readJson tree (recordsFile (root.child directoryName)) with
    | error e => exact keeps_throw _ trivial
    | ok value =>
      refine Keeps.bind (P := (· = value)) (keeps_pure rfl) ?_
      rintro _ rfl
      split
      · rename_i records hsome
        exact keeps_pure (hsealed.records root (List.prefix_or_prefix_of_prefix hroot hpath.within)
          _ records hjson hsome)
      · exact keeps_throw _ rfl
  refine hrecords.bind fun records hhonest => ?_
  refine (keeps_checkTimes _ _).bind fun _ _ => ?_
  refine (keeps_checkTimes _ _).bind fun _ _ => keeps_pure ?_
  rintro ⟨t, pages⟩ hdocument
  obtain ⟨r, hr, ht⟩ := exists_mem_pagesByPath_iff.mp ⟨pages, hdocument⟩
  exact hhonest r hr t ht

theorem keeps_loadVectors {p : Position} (hp : Covered box p) :
    (loadVectors p.db).Keeps (Sealed · box) n fun _ => True := by
  obtain ⟨root, path, hpath, hroot, rfl⟩ := hp
  have hplain : ∀ name, Name.Proper name → ∀ part ∈ ((root.child directoryName).child name).parts,
      Name.Plain part := by
    intro name hname
    simp only [Path.child, List.forall_mem_append, List.forall_mem_singleton]
    exact ⟨⟨fun part hpart => (hpath.settled part (hroot.subset hpart)).toPlain,
      proper_directoryName.toPlain⟩, hname.toPlain⟩
  refine Index.keeps_loadVectors ?_ ?_
  · exact fun vectors tree tree' hsealed => hsealed.write (hplain _ (by decide)) (.vectors vectors)
  · exact fun tree tree' hsealed => hsealed.write (hplain _ (by decide)) .note

/-! ### Listed paths -/

theorem prefix_of_isInFolder { recursive : Bool} (hparts : ∀ name ∈ parts, Name.Plain name)
    (hinward : Inward t) (hin : isInFolder recursive (folderText parts) t = true) :
    parts <+: (WrittenPath.ofText t).parts := by
  by_cases hne : parts = []
  · subst hne
    exact List.nil_prefix
  · unfold isInFolder at hin
    split at hin
    · have hsome : (folderText parts).isEmpty = false := by
        simpa using (folderText_of_ne_nil hne hparts).2
      rw [hsome, Bool.false_or, List.isPrefixOf_iff_prefix] at hin
      obtain ⟨more, rfl⟩ := hin
      unfold WrittenPath.ofText
      rw [List.append_assoc, List.singleton_append, splitAll_append,
        splitAll_folderText hne hparts, List.filter_append, WrittenPath.filter_plain hparts,
        List.map_append, List.map_map]
      simp
    · have hparent : folderText (WrittenPath.ofText t).parts.dropLast = folderText parts := by
        rw [← beq_iff_eq.mp hin]
        unfold parentFolder folderText WrittenPath.parent
        rw [← hinward.1]
      rw [← folderText_inj (fun name hname => WrittenPath.plain_ofText t name
        (List.mem_of_mem_dropLast hname)) hparts hparent]
      exact List.dropLast_prefix _

/-- A document of an index that is in a directory in the sandbox is in the sandbox. -/
theorem inBox_documentPath { recursive : Bool} (hpath : InBox box path)
    (hroot : root.parts <+: path.parts) (hinward : Inward t)
    (hin : isInFolder recursive (Position.ofRoot root path).folder t = true) :
    InBox box (documentPath root t) := by
  obtain ⟨parts, hparts⟩ := hroot
  have hplain : ∀ name ∈ parts, Name.Plain name := fun name hname =>
    (hpath.settled name (by simp [← hparts, hname])).toPlain
  rw [folder_ofRoot, ← hparts, List.drop_left] at hin
  have hbelow := prefix_of_isInFolder hplain hinward hin
  have hdocument : (documentPath root t).parts = root.parts ++ (WrittenPath.ofText t).parts := by
    unfold documentPath Path.join
    rw [if_neg (by simp [hinward.1])]
  refine ⟨hpath.within.trans ?_, ?_⟩
  · rw [hdocument, ← hparts]
    exact (List.prefix_append_right_inj _).mpr hbelow
  · rw [hdocument]
    refine List.forall_mem_append.mpr ⟨fun name hname => ?_, fun name hname => ?_⟩
    · exact hpath.settled name (by simp [← hparts, hname])
    · exact ⟨WrittenPath.plain_ofText t name hname, hinward.2 name hname⟩

theorem keeps_directoryPaths? (hpath : InBox box path) ( recursive : Bool) :
    (directoryPaths? path recursive).Keeps (Sealed · box) n
      fun found => ∀ paths ∈ found, ∀ path ∈ paths, InBox box path := by
  refine (keeps_position? hpath).bind fun found hfound => ?_
  split
  · exact keeps_pure nofun
  · rename_i p
    refine (TreeAction.calm_ask _ _ _).bind fun stored _ => ?_
    split
    · exact keeps_pure nofun
    · refine (keeps_loadCatalogue (hfound p rfl)).bind fun catalogue hcatalogue => ?_
      refine (keeps_checkTimes _ _).bind fun _ _ => keeps_pure ?_
      intro paths hpaths path hlisted
      cases hpaths
      obtain ⟨root, directory, hdirectory, hroot, rfl⟩ := hfound p rfl
      rw [Path.sortDistinct, Path.sort, List.mem_mergeSort, List.mem_eraseDups] at hlisted
      obtain ⟨document, hdocument, hlisted⟩ := List.mem_filterMap.mp hlisted
      obtain ⟨hin, hsame⟩ := Option.ite_none_right_eq_some.mp hlisted
      cases hsame
      exact inBox_documentPath hdirectory hroot (hcatalogue document hdocument) hin

theorem inBox_entry (hsealed : Sealed tree box) (hpath : InBox box path) { recursive : Bool}
    {entry : Path}
    (hentry : entry ∈ if recursive then tree.below path else tree.children path) :
    InBox box entry := by
  obtain ⟨more, hmore, hnames⟩ : ∃ more, entry.parts = path.parts ++ more ∧
      ∀ name ∈ more, Name.Settled name := by
    split at hentry
    · unfold below at hentry
      split at hentry
      · split at hentry
        · obtain ⟨⟨place, node⟩, hplace, hentry⟩ := List.mem_filterMap.mp hentry
          obtain ⟨-, hsame⟩ := Option.ite_none_right_eq_some.mp hentry
          cases hsame
          exact ⟨_, rfl, fun name hname =>
            hsealed.named _ hplace name (List.mem_of_mem_drop hname)⟩
        · cases hentry
      · cases hentry
    · unfold children at hentry
      split at hentry
      · obtain ⟨name, hname, rfl⟩ := List.mem_map.mp hentry
        obtain ⟨⟨place, node⟩, hplace, hname⟩ := List.mem_filterMap.mp hname
        obtain ⟨-, hlast⟩ := Option.ite_none_right_eq_some.mp hname
        exact ⟨[name], rfl, List.forall_mem_singleton.mpr
          (hsealed.named _ hplace name (List.mem_of_getLast? hlast))⟩
      · cases hentry
  refine ⟨?_, ?_⟩
  · rw [hmore]
    exact hpath.within.trans (List.prefix_append _ _)
  · rw [hmore]
    exact List.forall_mem_append.mpr ⟨hpath.settled, hnames⟩

theorem keeps_filePaths (hpath : InBox box path) ( recursive : Bool) :
    (Directory.filePaths path recursive).Keeps (Sealed · box) n
      fun paths => ∀ path ∈ paths, InBox box path := by
  have hwalked : (Directory.walkedPaths path recursive).Keeps (Sealed · box) n
      fun paths => ∀ path ∈ paths, InBox box path := by
    refine keeps_get.bind fun tree hsealed => ?_
    refine Keeps.bind (P := fun files => ∀ file ∈ files, ∀ path ∈ file, InBox box path) ?_
      fun files hfiles => keeps_pure ?_
    · refine keeps_mapList fun entry hentry => ?_
      refine (keeps_check _).bind fun _ _ => ?_
      refine (TreeAction.calm_ask _ _ _).bind fun isFile _ => ?_
      split
      · refine keeps_pure fun path hlisted => ?_
        cases hlisted
        exact inBox_entry hsealed hpath hentry
      · exact keeps_pure nofun
    · intro path hlisted
      rw [Path.sort, List.mem_mergeSort] at hlisted
      obtain ⟨file, hfile, hlisted⟩ := List.mem_filterMap.mp hlisted
      exact hfiles file hfile path hlisted
  refine (keeps_check _).bind fun _ _ => ?_
  refine (keeps_directoryPaths? hpath recursive).bind fun found hfound => ?_
  split
  · exact keeps_pure (hfound _ rfl)
  · exact hwalked

end Doors

def sealedGuard (s : Setting) (hcwd : ∀ name ∈ s.cwd.parts, Name.Plain name) : Guard s where
  Tree := (Sealed · s.sandbox)
  Place := InBox s.sandbox
  Covers := Covered s.sandbox
  rounds := 0
  locate := keeps_locate hcwd
  filePaths _ recursive hpath := keeps_filePaths hpath recursive
  position _ hpath := keeps_position hpath
  loadVectors _ hp := keeps_loadVectors hp

/-! ## Runs -/

/-- What is at the path of a handle: something in the sandbox, by what is written, with
all links followed, and by what is read there. -/
structure Confined (tree : FileTree) (box path : Path) : Prop where
  written : path.isWithin box = true
  resolved : (tree.resolved path).isWithin box = true
  read : ∀ content, tree.read path = .ok content →
    ∃ place, box.parts <+: place ∧ tree.node? place = some (.file content)

theorem InBox.confined (hpath : InBox box path) (hsealed : Sealed tree box) :
    Confined tree box path := by
  refine ⟨List.isPrefixOf_iff_prefix.mpr hpath.within,
    List.isPrefixOf_iff_prefix.mpr (hsealed.inBox_resolved hpath).within, ?_⟩
  intro content hread
  obtain ⟨place, hplace, hnode⟩ := exists_place_of_read hread
  exact ⟨place, hsealed.locate_within hpath hplace, hnode⟩

end

/-! ### Two links -/

def readAll : Text :=
  "for f in Directory(\".\", recursive=False):\n    print(f.read())\n".toList

namespace Closed

def tree : FileTree :=
  ⟨[(["box"], .directory), (["box", "note.txt"], .link "../box/sub/top.txt".toList),
    (["box", "sub"], .directory), (["box", "sub", "top.txt"], .file (.text "top".toList))]⟩

theorem sound_tree : tree.Sound := by decide

theorem node?_tree {place : List Name} {node : Node} (hnode : tree.node? place = some node)
    (hother : node ≠ .directory) :
    place = ["box", "note.txt"] ∧ node = .link "../box/sub/top.txt".toList ∨
      node = .file (.text "top".toList) := by
  have hne : place ≠ [] := by
    rintro rfl
    cases hnode
    exact hother rfl
  have hentry := mem_entries_of_node? hnode hne
  simp only [tree, List.mem_cons, Prod.mk.injEq, List.not_mem_nil, or_false] at hentry
  rcases hentry with ⟨-, rfl⟩ | hentry | ⟨-, rfl⟩ | ⟨-, hentry⟩
  · exact absurd rfl hother
  · exact .inl hentry
  · exact absurd rfl hother
  · exact .inr hentry

theorem sealed_tree : Sealed tree ⟨["box"]⟩ := by
  refine ⟨sound_tree.rooted, ?_, ?_, ?_, ?_⟩
  · intro entry hentry name hname
    have hproper := sound_tree.named entry hentry name hname
    exact ⟨hproper.toPlain, hproper.notUp⟩
  · intro above target habove hnode
    rcases node?_tree hnode nofun with ⟨rfl, -⟩ | hfile
    · exact absurd habove (by decide)
    · cases hfile
  · intro place target hplace hnode
    rcases node?_tree hnode nofun with ⟨rfl, hlink⟩ | hfile
    · cases hlink
      exact .up (.down (by decide) (by decide))
    · cases hfile
  · -- There is no index, and what the only file holds could not be the records of one.
    intro root hnear value records hjson
    obtain ⟨content, hread⟩ := exists_read_of_readJson hjson
    obtain ⟨place, -, hnode⟩ := exists_place_of_read hread
    rcases node?_tree hnode nofun with ⟨-, hlink⟩ | hfile
    · cases hlink
    · cases hfile
      rw [readJson, hread] at hjson
      cases hjson

end Closed

namespace Leak

def tree : FileTree :=
  ⟨[(["box"], .directory), (["box", "note.txt"], .link "../secret.txt".toList),
    (["secret.txt"], .file (.text "top".toList))]⟩

end Leak

end Folio
