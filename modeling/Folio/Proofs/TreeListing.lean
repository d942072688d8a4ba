import Folio.Shelf.TreeView
import Folio.Proofs.CourseEnding
import Folio.Proofs.DirectoryChain
import Mathlib.Data.List.Fold

/-!
# Listings of a tree

A directory is listed in two ways: from the file system, one directory after the
other, and from the paths of its files, which are sorted into directories first.
Two views of a directory are alike if they show the same names in the same order
and, under the names of directories, views that are alike again.  The listings of
views that are alike have the same lines and are cut at the same line, since both
come to the same entry at the same time.

The view of the file system and the view of the paths are alike for a tree
without links in which no directory is empty and names can be told apart in lower
case.
-/

namespace Folio

open Action FileTree

variable {p q : Progress} {height : Nat} {paths : List (List Name)} {name : Name}

namespace TreeView

variable {ν μ : Type}

/-! ## Listings of views that are alike -/

/-- Two entries with the same name, which are both files or are directories that
belong together. -/
structure Entry.Alike (related : ν → μ → Prop) (a : Entry ν) (b : Entry μ) : Prop where
  name : a.name = b.name
  directory : Option.Rel related a.directory b.directory

/-- Two directories of at most `height` levels that two views show alike. -/
def Alike (view : View ν) (view' : View μ) : Nat → ν → μ → Prop
  | 0, d, e => view.entries d = .ok [] ∧ view'.entries e = .ok []
  | height + 1, d, e => ∃ first second, view.entries d = .ok first ∧
      view'.entries e = .ok second ∧
      List.Forall₂ (Entry.Alike (Alike view view' height)) (arrange first)
        (arrange second)

/-- Two lists with the same lines, which are both cut or both not.  The
checkpoints on the way to them may differ. -/
structure Progress.Same (p q : Progress) : Prop where
  lines : p.lines = q.lines
  truncated : p.truncated = q.truncated

theorem Progress.Same.pass (hsame : p.Same q) (phase phase' : Phase) :
    (p.pass phase).Same (q.pass phase') := ⟨hsame.lines, hsame.truncated⟩

theorem Progress.Same.line (hsame : p.Same q) (t : Text) :
    (p.line t).Same (q.line t) := ⟨congrArg (t :: ·) hsame.lines, hsame.truncated⟩

theorem Progress.Same.text (hsame : p.Same q) (limit : Numeral) :
    TreeView.text limit p = TreeView.text limit q := by
  unfold TreeView.text
  rw [hsame.lines, hsame.truncated]

/-- Two listings that have come equally far, and both go on or both stop. -/
def Abreast (first second : Progress × Bool) : Prop :=
  first.1.Same second.1 ∧ first.2 = second.2

theorem visitAll_abreast {α β : Type} {related : α → β → Prop}
    {visit : Progress → α → Progress × Bool} {visit' : Progress → β → Progress × Bool}
    (hvisit : ∀ p q a b, p.Same q → related a b → Abreast (visit p a) (visit' q b)) {items : List α}
    {items' : List β} (hitems : List.Forall₂ related items items')
    (hsame : p.Same q) : Abreast (visitAll visit p items) (visitAll visit' q items') := by
  induction hitems generalizing p q with
  | nil => exact ⟨hsame, rfl⟩
  | @cons a b items items' hab _ ih =>
    obtain ⟨hnext, hgo⟩ := hvisit p q a b hsame hab
    unfold visitAll
    generalize visit p a = first at hnext hgo
    generalize visit' q b = second at hnext hgo
    obtain ⟨p', go⟩ := first
    obtain ⟨q', go'⟩ := second
    obtain rfl : go = go' := hgo
    cases go with
    | true => exact ih hnext
    | false => exact ⟨hnext, rfl⟩

theorem visit_abreast {view : View ν} {view' : View μ} {related : ν → μ → Prop}
    {enter : Progress → ν → Progress × Bool} {enter' : Progress → μ → Progress × Bool}
    (henter : ∀ p q d e, p.Same q → related d e →
      Abreast (enter p d) (enter' q e)) (maxEntries depth : Nat) {a : Entry ν} {b : Entry μ}
    (hsame : p.Same q) (hab : a.Alike related b) : Abreast (visit view maxEntries depth enter p a)
      (visit view' maxEntries depth enter' q b) := by
  obtain ⟨name, directory⟩ := a
  obtain ⟨name', directory'⟩ := b
  obtain ⟨hname, hdirectory⟩ := hab
  obtain rfl : name = name' := hname
  have hlines : p.lines.length = q.lines.length := congrArg List.length hsame.lines
  unfold visit Progress.pass
  dsimp only
  rw [hlines]
  by_cases hfull : maxEntries ≤ q.lines.length
  · rw [if_pos hfull, if_pos hfull]
    exact ⟨⟨hsame.lines, rfl⟩, rfl⟩
  · rw [if_neg hfull, if_neg hfull]
    cases hdirectory with
    | none => exact ⟨(hsame.pass _ _).line _, rfl⟩
    | some hrelated => exact henter _ _ _ _ ((hsame.pass _ _).line _) hrelated

/-- Views that are alike are listed alike.  The numbers of levels may differ if
both are enough for the directory. -/
theorem walk_abreast {view : View ν} {view' : View μ} (maxEntries : Nat) {d : ν} {e : μ}
    (halike : Alike view view' height d e) {levels levels' : Nat}
    (hlevels : levels = levels' ∨ height ≤ levels ∧ height ≤ levels') (depth : Nat)
    (hsame : p.Same q) :
    Abreast (walk view maxEntries levels depth p d) (walk view' maxEntries levels' depth q e) := by
  induction height generalizing levels levels' depth p q d e with
  | zero =>
    -- Nothing is listed, whether or not a level is left.
    have hnone : ∀ {ξ : Type} (v : View ξ) (n : Nat) (r : Progress) (x : ξ), v.entries x = .ok [] →
        walk v maxEntries n depth r x = (r.pass v.enter, true) := by
      intro ξ v n r x hentries
      cases n with
      | zero => rfl
      | succ n =>
        unfold walk
        rw [hentries]
        simp [arrange, sortEntries, visitAll]
    rw [hnone view levels p d halike.1, hnone view' levels' q e halike.2]
    exact ⟨hsame.pass _ _, rfl⟩
  | succ height ih =>
    obtain ⟨first, second, hfirst, hsecond, hentries⟩ := halike
    cases levels with
    | zero =>
      obtain rfl : levels' = 0 := by omega
      exact ⟨hsame.pass _ _, rfl⟩
    | succ levels =>
      obtain ⟨levels', rfl⟩ : ∃ n, levels' = n + 1 := ⟨levels' - 1, by omega⟩
      unfold walk
      rw [hfirst, hsecond]
      refine visitAll_abreast (fun p q a b hpq hab => ?_) hentries (hsame.pass _ _)
      refine visit_abreast (fun p q d e hpq hde => ?_) maxEntries depth hpq hab
      exact ih hde (by omega) (depth + 1) hpq

theorem list_same {view : View ν} {view' : View μ} {d : ν} {e : μ}
    (halike : Alike view view' height d e) {levels levels' : Nat}
    (hlevels : levels = levels' ∨ height ≤ levels ∧ height ≤ levels') (maxEntries : Nat)
    (title : Text) : (list view levels maxEntries title d).Same
      (list view' levels' maxEntries title e) :=
  (walk_abreast maxEntries halike hlevels 0 ⟨rfl, rfl⟩).1

/-! ## Entries by their names -/

def sortNames (names : List Name) : List Name :=
  names.mergeSort fun a b =>
    !(Text.lower b.toList < Text.lower a.toList)

theorem sortEntries_map {entryOf : Name → Entry ν} (names : List Name)
    (hname : ∀ name, (entryOf name).name = name) :
    sortEntries (names.map entryOf) = (sortNames names).map entryOf := by
  unfold sortEntries sortNames
  refine (List.map_mergeSort fun a _ b _ => ?_).symm
  rw [hname, hname]

theorem sortNames_congr {first second : List Name} (hfirst : first.Nodup) (hsecond : second.Nodup)
    (hmem : ∀ name, name ∈ first ↔ name ∈ second)
    (hlower : ∀ a ∈ first, ∀ b ∈ first, Text.lower a.toList = Text.lower b.toList → a = b) :
    sortNames first = sortNames second := mergeSort_key_congr hfirst hsecond hmem hlower

theorem arrange_map {entryOf : Name → Entry ν} (names : List Name)
    (hname : ∀ name, (entryOf name).name = name) : arrange (names.map entryOf) =
      (sortNames (names.filter fun name =>
        (entryOf name).directory.isSome)).map entryOf ++ (sortNames (names.filter fun name =>
        (entryOf name).directory.isNone)).map entryOf := by
  unfold arrange
  rw [List.filter_map, List.filter_map, sortEntries_map _ hname, sortEntries_map _ hname]
  rfl

def directoryNames (paths : List (List Name)) : List Name :=
  (paths.filterMap fun path =>
    match path with
    | name :: _ :: _ => some name
    | _ => none).eraseDups

def fileNames (paths : List (List Name)) : List Name :=
  (paths.filterMap fun path =>
    match path with
    | [name] => some name
    | _ => none).eraseDups

/-- The paths that go through a directory, as seen from there. -/
def pathsInto (paths : List (List Name)) (name : Name) : List (List Name) :=
  paths.filterMap fun path =>
    match path with
    | first :: next :: rest => if first == name then some (next :: rest) else none
    | _ => none

theorem mem_directoryNames_iff :
    name ∈ directoryNames paths ↔ ∃ next rest, name :: next :: rest ∈ paths := by
  unfold directoryNames
  rw [List.mem_eraseDups, List.mem_filterMap]
  constructor
  · rintro ⟨path, hpath, hname⟩
    split at hname
    · cases hname
      exact ⟨_, _, hpath⟩
    · cases hname
  · rintro ⟨next, rest, hpath⟩
    exact ⟨_, hpath, rfl⟩

theorem mem_fileNames_iff : name ∈ fileNames paths ↔ [name] ∈ paths := by
  unfold fileNames
  rw [List.mem_eraseDups, List.mem_filterMap]
  constructor
  · rintro ⟨path, hpath, hname⟩
    split at hname
    · cases hname
      exact hpath
    · cases hname
  · intro hpath
    exact ⟨_, hpath, rfl⟩

theorem mem_pathsInto_iff {path : List Name} :
    path ∈ pathsInto paths name ↔ path ≠ [] ∧ name :: path ∈ paths := by
  unfold pathsInto
  rw [List.mem_filterMap]
  constructor
  · rintro ⟨whole, hwhole, hpath⟩
    split at hpath
    · rw [Option.ite_none_right_eq_some, beq_iff_eq] at hpath
      obtain ⟨rfl, hpath⟩ := hpath
      cases hpath
      exact ⟨by simp, hwhole⟩
    · cases hpath
  · rintro ⟨hne, hpath⟩
    obtain ⟨next, rest, rfl⟩ := List.exists_cons_of_ne_nil hne
    exact ⟨_, hpath, by simp⟩

theorem arrange_pathEntries (paths : List (List Name)) : arrange (pathEntries paths) =
      (sortNames (directoryNames paths)).map (fun name => ⟨name, some (pathsInto paths name)⟩) ++
        (sortNames (fileNames paths)).map fun name => ⟨name, none⟩ := by
  have hentries : pathEntries paths = (directoryNames paths).map
          (fun name => (⟨name, some (pathsInto paths name)⟩ : Entry _)) ++
        (fileNames paths).map fun name => ⟨name, none⟩ := rfl
  unfold arrange
  rw [hentries, List.filter_append, List.filter_append, List.filter_map, List.filter_map,
    List.filter_map, List.filter_map]
  simp only [Function.comp_def, Option.isSome_some, Option.isSome_none, Option.isNone_some,
    Option.isNone_none, List.filter_true, List.filter_false, List.map_nil, List.append_nil,
    List.nil_append]
  rw [sortEntries_map _ fun _ => rfl, sortEntries_map _ fun _ => rfl]

/-! ## The view of the file system -/

/-- A directory without links in which names can be told apart in lower case and
there are files below every directory. -/
structure Filled (tree : FileTree) (root : Path) : Prop where
  sound : tree.Sound
  isDirectory : tree.node? root.parts = some .directory
  noLink : ∀ place target, root.parts <+: place → tree.node? place ≠ some (.link target)
  distinct : ∀ place a b nodeA nodeB, root.parts <+: place →
    tree.node? (place ++ [a]) = some nodeA → tree.node? (place ++ [b]) = some nodeB →
    Text.lower a.toList = Text.lower b.toList → a = b
  inhabited : ∀ place, root.parts <+: place → place ≠ root.parts →
    tree.node? place = some .directory →
    ∃ rest content, tree.node? (place ++ rest) = some (.file content)

/-- Such a directory is listed as a whole if the paths of all that is in it are
short enough to be looked up. -/
structure Listable (tree : FileTree) (root : Path) : Prop extends Filled tree root where
  inReach : ∀ place node, root.parts <+: place →
    tree.node? place = some node → Path.fits ⟨place⟩ = true

theorem mapM_eq_error {α β ε : Type} {f : α → Except ε β} {items : List α} {a : α} {e : ε}
    (ha : a ∈ items) (hf : f a = .error e) : ∃ e', items.mapM f = .error e' := by
  induction items with
  | nil => simp at ha
  | cons b items ih =>
    rw [List.mapM_cons]
    cases hb : f b with
    | error e' => exact ⟨e', rfl⟩
    | ok v =>
      rcases List.mem_cons.mp ha with rfl | ha
      · rw [hf] at hb
        cases hb
      · obtain ⟨e', he'⟩ := ih ha
        rw [he']
        exact ⟨e', rfl⟩

theorem mapM_eq_ok {α β ε : Type} {f : α → Except ε β} {g : α → β} {items : List α}
    (hf : ∀ a ∈ items, f a = .ok (g a)) : items.mapM f = .ok (items.map g) := by
  induction items with
  | nil => rfl
  | cons a items ih =>
    rw [List.mapM_cons, hf a (by simp), ih fun b hb => hf b (by simp [hb])]
    rfl

section FileSystem

variable {tree : FileTree} {root : Path} {place : List Name}

def entryAt (tree : FileTree) (place : List Name) (name : Name) : Entry Path :=
  ⟨name, if tree.node? (place ++ [name]) = some .directory then
    some ⟨place ++ [name]⟩ else none⟩

theorem entries_fileView (tree : FileTree) : (fileView tree).entries = fileEntries tree := rfl

theorem fileEntries_directory (hsound : tree.Sound) (hplace : tree.node? place = some .directory)
    (hfits : Path.fits ⟨place⟩ = true) : tree.children ⟨place⟩ =
        (tree.names place).map (fun name => ⟨place ++ [name]⟩) ∧
      fileEntries tree ⟨place⟩ = (tree.children ⟨place⟩).mapM fun child => do
        return ⟨child.name, if ← tree.isDirectory? child then some child
          else none⟩ := by
  have hlocate : tree.locate ⟨place⟩ = .ok place := hsound.locate_directory hplace hfits
  have hfollow : tree.follow ⟨place⟩ = .ok .directory := by
    unfold FileTree.follow
    rw [hlocate]
    simp [bind, Except.bind, hplace]
  constructor
  · unfold FileTree.children
    rw [hlocate]
    rfl
  · unfold fileEntries
    rw [hfollow]

theorem fileEntries_out_of_reach (hsound : tree.Sound)
    (hroot : tree.node? root.parts = some .directory) (hfits : root.fits = true) {node : Node}
    (hnode : tree.node? (root.child name).parts = some node) (hlink : node.isLink = false)
    (hlong : (root.child name).fits = false) : ∃ e, fileEntries tree root = .error e := by
  obtain ⟨hchildren, hentries⟩ := fileEntries_directory hsound hroot hfits
  have hasked : tree.isDirectory? (root.child name) =
      .error ⟨.nameTooLong, (root.child name).text⟩ := by
    unfold FileTree.isDirectory?
    rw [hsound.test_entry hnode hlink, hlong]
    rfl
  have hchild : root.child name ∈ tree.children root := by
    rw [hchildren]
    exact List.mem_map_of_mem (hsound.mem_names_iff.mpr ⟨node, hnode⟩)
  rw [hentries]
  exact mapM_eq_error hchild (by rw [hasked]; rfl)

theorem fileEntries_eq (hsound : tree.Sound) (hplace : tree.node? place = some .directory)
    (hfits : Path.fits ⟨place⟩ = true)
    (hin : ∀ name node, tree.node? (place ++ [name]) = some node →
      node.isLink = false ∧ Path.fits ⟨place ++ [name]⟩ = true) : fileEntries tree ⟨place⟩ =
      .ok ((tree.names place).map (entryAt tree place)) := by
  obtain ⟨hchildren, hentries⟩ := fileEntries_directory hsound hplace hfits
  have hentry : ∀ child ∈ tree.children ⟨place⟩,
      (do return ⟨child.name, if ← tree.isDirectory? child then some child
        else none⟩ : Except SystemError (Entry Path)) = .ok (entryAt tree place child.name) := by
    intro child hchild
    rw [hchildren] at hchild
    obtain ⟨name, hname, rfl⟩ := List.mem_map.mp hchild
    obtain ⟨node, hnode⟩ := hsound.mem_names_iff.mp hname
    obtain ⟨hlink, hchildFits⟩ := hin name node hnode
    have hlast : Path.name ⟨place ++ [name]⟩ = name := by simp [Path.name]
    have hasked : tree.isDirectory? ⟨place ++ [name]⟩ = .ok (decide (node = .directory)) := by
      unfold FileTree.isDirectory?
      rw [hsound.test_entry hnode hlink, if_pos hchildFits]
      cases node <;> rfl
    rw [hasked, hlast]
    unfold entryAt
    rw [hnode]
    simp [bind, Except.bind, pure, Except.pure]
  rw [hentries]
  refine (mapM_eq_ok hentry).trans ?_
  rw [hchildren, List.map_map]
  congr 1
  refine List.map_congr_left fun name _ => ?_
  simp [Path.name]

theorem Listable.fileEntries_eq (hlist : Listable tree root) (hbelow : root.parts <+: place)
    (hplace : tree.node? place = some .directory) : fileEntries tree ⟨place⟩ =
      .ok ((tree.names place).map (entryAt tree place)) := by
  refine TreeView.fileEntries_eq hlist.sound hplace
    (hlist.inReach place _ hbelow hplace) fun name node hnode => ?_
  have hin : root.parts <+: place ++ [name] := hbelow.trans (List.prefix_append _ _)
  refine ⟨?_, hlist.inReach _ _ hin hnode⟩
  cases node with
  | link target => exact absurd hnode (hlist.noLink _ target hin)
  | directory => rfl
  | file content => rfl

theorem isSome_entryAt : (entryAt tree place name).directory.isSome = true ↔
      tree.node? (place ++ [name]) = some .directory := by
  unfold entryAt
  split <;> simp_all

/-! ## Lists of one line -/

theorem text_two_lines (limit : Numeral) {title line : Text} (hlines : p.lines = [line, title])
    (hcut : p.truncated = false) : text limit p = title ++ '\n' :: line := by
  unfold text
  rw [hlines, hcut]
  simp [Text.joinWith, List.intercalate]

theorem text_list_unreadable {view : View ν} {directory : ν} {e : SystemError}
    (hentries : view.entries directory = .error e) (levels maxEntries : Nat) (title : Text)
    (limit : Numeral) : text limit (list view (levels + 1) maxEntries title directory) =
      title ++ '\n' :: (indent 1 ++ "[unreadable: ".toList ++ e.message ++ [']']) := by
  refine text_two_lines limit ?_ ?_ <;>
  · unfold list walk
    rw [hentries]
    rfl

theorem text_list_one_file (name : Name) (levels : Nat) {maxEntries : Nat} (hroom : 1 < maxEntries)
    (title : Text) (limit : Numeral) :
    text limit (list pathView (levels + 1) maxEntries title [[name]]) =
      title ++ '\n' :: (indent 1 ++ name.toList) := by
  have harrange : arrange (pathEntries [[name]]) = [⟨name, none⟩] := by
    rw [arrange_pathEntries]
    simp [directoryNames, fileNames, sortNames, List.eraseDups_cons]
  have hentries : pathView.entries [[name]] = .ok (pathEntries [[name]]) := rfl
  refine text_two_lines limit ?_ ?_ <;>
  · unfold list walk
    rw [hentries]
    dsimp only
    rw [harrange]
    unfold visitAll visit
    dsimp only [Progress.pass, List.length_singleton]
    rw [if_neg (not_le.mpr hroom)]
    rfl

/-! ## Both views of a directory -/

/-- The paths that lead from a place to the files below it. -/
def LeadsToFiles (tree : FileTree) (place : List Name)
    (paths : List (List Name)) : Prop :=
  ∀ rest, rest ∈ paths ↔
    ∃ content, tree.node? (place ++ rest) = some (.file content)

theorem LeadsToFiles.into (hpaths : LeadsToFiles tree place paths)
    (hname : tree.node? (place ++ [name]) = some .directory) :
    LeadsToFiles tree (place ++ [name]) (pathsInto paths name) := by
  intro rest
  rw [mem_pathsInto_iff, hpaths (name :: rest), List.append_assoc, List.singleton_append,
    and_iff_right_iff_imp]
  rintro ⟨content, hfile⟩ rfl
  rw [hname] at hfile
  cases hfile

theorem Listable.mem_directoryNames_iff (hlist : Listable tree root)
    (hbelow : root.parts <+: place) (hpaths : LeadsToFiles tree place paths) (name : Name) :
    name ∈ directoryNames paths ↔ tree.node? (place ++ [name]) = some .directory := by
  rw [TreeView.mem_directoryNames_iff]
  constructor
  · rintro ⟨next, rest, hpath⟩
    obtain ⟨content, hfile⟩ := (hpaths _).mp hpath
    refine hlist.sound.directory_above hfile ⟨next :: rest, by simp⟩ ?_
    simp
  · intro hdirectory
    have hin : root.parts <+: place ++ [name] := hbelow.trans (List.prefix_append _ _)
    have hne : place ++ [name] ≠ root.parts := by
      intro hroot
      have hlength := hbelow.length_le
      rw [← hroot, List.length_append, List.length_singleton] at hlength
      omega
    obtain ⟨rest, content, hfile⟩ := hlist.inhabited _ hin hne hdirectory
    cases rest with
    | nil =>
      rw [List.append_nil, hdirectory] at hfile
      cases hfile
    | cons next rest =>
      refine ⟨next, rest, (hpaths _).mpr ⟨content, ?_⟩⟩
      rwa [List.append_assoc] at hfile

theorem Listable.alike (hlist : Listable tree root) (hbelow : root.parts <+: place)
    (hplace : tree.node? place = some .directory)
    (hheight : ∀ rest node, tree.node? (place ++ rest) = some node → rest.length ≤ height)
    (hpaths : LeadsToFiles tree place paths) :
    Alike (fileView tree) pathView height ⟨place⟩ paths := by
  have hentries := hlist.fileEntries_eq hbelow hplace
  induction height generalizing place paths with
  | zero =>
    have hnames : tree.names place = [] := by
      rw [List.eq_nil_iff_forall_not_mem]
      intro name hname
      obtain ⟨node, hnode⟩ := hlist.sound.mem_names_iff.mp hname
      have hshort := hheight [name] node hnode
      simp at hshort
    have hnil : paths = [] := by
      rw [List.eq_nil_iff_forall_not_mem]
      intro rest hrest
      obtain ⟨content, hfile⟩ := (hpaths rest).mp hrest
      have hshort := hheight rest _ hfile
      rw [List.length_eq_zero_iff.mp (Nat.le_zero.mp hshort), List.append_nil, hplace] at hfile
      cases hfile
    subst hnil
    rw [hnames] at hentries
    exact ⟨hentries, rfl⟩
  | succ height ih =>
    refine ⟨_, _, hentries, rfl, ?_⟩
    have hnodup := hlist.sound.nodup_names place
    have hdistinct : ∀ keep : Name → Bool, ∀ a ∈ (tree.names place).filter keep,
        ∀ b ∈ (tree.names place).filter keep,
        Text.lower a.toList = Text.lower b.toList → a = b := by
      intro keep a ha b hb
      obtain ⟨nodeA, hnodeA⟩ := hlist.sound.mem_names_iff.mp (List.mem_of_mem_filter ha)
      obtain ⟨nodeB, hnodeB⟩ := hlist.sound.mem_names_iff.mp (List.mem_of_mem_filter hb)
      exact hlist.distinct place a b nodeA nodeB hbelow hnodeA hnodeB
    have hdirectories : sortNames ((tree.names place).filter fun name =>
        (entryAt tree place name).directory.isSome) = sortNames (directoryNames paths) := by
      refine sortNames_congr (hnodup.filter _) (nodup_eraseDups _) ?_ (hdistinct _)
      intro name
      rw [hlist.mem_directoryNames_iff hbelow hpaths, List.mem_filter, isSome_entryAt,
        and_iff_right_iff_imp]
      exact fun hnode => hlist.sound.mem_names_iff.mpr ⟨_, hnode⟩
    have hfiles : sortNames ((tree.names place).filter fun name =>
        (entryAt tree place name).directory.isNone) = sortNames (fileNames paths) := by
      refine sortNames_congr (hnodup.filter _) (nodup_eraseDups _) ?_ (hdistinct _)
      intro name
      rw [mem_fileNames_iff, hpaths [name], List.mem_filter, Option.isNone_iff_eq_none,
        ← Option.not_isSome_iff_eq_none, isSome_entryAt, hlist.sound.mem_names_iff]
      constructor
      · rintro ⟨⟨node, hnode⟩, hfile⟩
        cases node with
        | link target =>
          exact absurd hnode (hlist.noLink _ target (hbelow.trans (List.prefix_append _ _)))
        | directory => exact absurd hnode hfile
        | file content => exact ⟨content, hnode⟩
      · rintro ⟨content, hnode⟩
        exact ⟨⟨_, hnode⟩, by simp [hnode]⟩
    rw [arrange_map _ fun _ => rfl, hdirectories, hfiles, arrange_pathEntries]
    refine List.rel_append ?_ ?_
    · rw [List.forall₂_map_left_iff, List.forall₂_map_right_iff, List.forall₂_same]
      intro name hname
      unfold sortNames at hname
      rw [List.mem_mergeSort, hlist.mem_directoryNames_iff hbelow hpaths] at hname
      have hin : root.parts <+: place ++ [name] := hbelow.trans (List.prefix_append _ _)
      refine ⟨rfl, ?_⟩
      unfold entryAt
      rw [if_pos hname]
      refine .some (ih hin hname (fun rest node hnode => ?_) (hpaths.into hname)
        (hlist.fileEntries_eq hin hname))
      rw [List.append_assoc] at hnode
      have hshort := hheight _ _ hnode
      simpa using hshort
    · rw [List.forall₂_map_left_iff, List.forall₂_map_right_iff, List.forall₂_same]
      intro name hname
      unfold sortNames at hname
      rw [List.mem_mergeSort, mem_fileNames_iff, hpaths] at hname
      obtain ⟨content, hfile⟩ := hname
      refine ⟨rfl, ?_⟩
      unfold entryAt
      rw [if_neg (by simp [hfile])]
      exact .none

end FileSystem

end TreeView

namespace Directory

variable {tree : FileTree} {d : Directory}

theorem result_writeTree (limit : Numeral) (p : TreeView.Progress) :
    (writeTree limit p).result tree = (tree, .finished (TreeView.text limit p)) := by
  have hpass : ∀ phases : List Phase,
      ((Action.forList Action.check phases : TreeAction Unit).result tree) =
        (tree, .finished ()) := by
    intro phases
    induction phases with
    | nil => rfl
    | cons phase phases ih => exact ih
  exact result_bind_of_finished (hpass _)

theorem result_treeOfPaths (title : Text) (maxDepth : Nat) (limit : Numeral) (paths : List Path) :
    (d.treeOfPaths title maxDepth limit paths).result tree = (tree, .finished (TreeView.text limit
        (TreeView.list TreeView.pathView (min maxDepth (((paths.filterMap fun path =>
            (path.relativeTo? d.path).map (·.parts)).map List.length).foldl max 0))
          limit.value.toNat title (paths.filterMap fun path =>
            (path.relativeTo? d.path).map (·.parts))))) := by
  unfold treeOfPaths
  rw [result_bind_of_finished (result_check _ _), result_bind_of_finished (result_checkTimes _ _ _)]
  exact result_writeTree limit _

theorem result_treeOfFiles (title : Text) (maxDepth : Nat) (limit : Numeral) :
    (d.treeOfFiles title maxDepth limit).result tree = (tree, .finished (TreeView.text limit
        (TreeView.list (TreeView.fileView tree) (min maxDepth (TreeView.levelBound tree))
          limit.value.toNat title d.path))) := by
  unfold treeOfFiles
  rw [result_bind_of_finished (result_get _)]
  exact result_writeTree limit _

theorem mem_inside_iff {paths : List Path} {rest : List Name} :
    rest ∈ (paths.filterMap fun path => (path.relativeTo? d.path).map (·.parts)) ↔
      ⟨d.path.parts ++ rest⟩ ∈ paths := by
  rw [List.mem_filterMap]
  constructor
  · rintro ⟨path, hpath, hrest⟩
    unfold Path.relativeTo? Path.isWithin at hrest
    split at hrest
    · rename_i hwithin
      obtain ⟨below, hbelow⟩ := List.isPrefixOf_iff_prefix.mp hwithin
      rw [← hbelow, List.drop_left] at hrest
      obtain rfl : below = rest := by simpa using hrest
      rwa [hbelow]
    · cases hrest
  · intro hpath
    exact ⟨_, hpath, by simp [Path.relativeTo?, Path.isWithin]⟩

theorem leadsToFiles_inside {paths : List Path}
    (hpaths : ∀ path : Path, path ∈ paths ↔ d.path.parts <+: path.parts ∧
      ∃ content, tree.node? path.parts = some (.file content)) :
    TreeView.LeadsToFiles tree d.path.parts (paths.filterMap fun path =>
        (path.relativeTo? d.path).map (·.parts)) := by
  intro rest
  rw [mem_inside_iff, hpaths, and_iff_right (List.prefix_append _ _)]

theorem length_le_of_mem {path : List Name}
    (hpath : path ∈ paths) : path.length ≤ (paths.map List.length).foldl max 0 := by
  have hmax : (paths.map List.length).foldl max 0 =
      (paths.map List.length).foldr max ⊥ := List.foldl_eq_foldr
  rw [hmax]
  exact List.le_max_of_le (List.mem_map_of_mem hpath) le_rfl

/-- The longest of the paths to the files is as long as anything goes down, and
no longer than the levels a tree can have. -/
theorem depth_of_paths (hlist : TreeView.Listable tree d.path)
    (hpaths : TreeView.LeadsToFiles tree d.path.parts paths) :
    (∀ rest node, tree.node? (d.path.parts ++ rest) = some node →
      rest.length ≤ (paths.map List.length).foldl max 0) ∧
    (paths.map List.length).foldl max 0 ≤ TreeView.levelBound tree := by
  have hfiles : ∀ rest content, tree.node? (d.path.parts ++ rest) = some (.file content) →
      rest.length ≤ (paths.map List.length).foldl max 0 := fun rest content hfile =>
    length_le_of_mem ((hpaths rest).mpr ⟨content, hfile⟩)
  constructor
  · intro rest node hnode
    cases node with
    | file content => exact hfiles rest content hnode
    | link target => exact absurd hnode (hlist.noLink _ target (List.prefix_append _ _))
    | directory =>
      by_cases hrest : rest = []
      · simp [hrest]
      · obtain ⟨below, content, hfile⟩ := hlist.inhabited _
          (List.prefix_append _ rest) (by simpa using hrest) hnode
        rw [List.append_assoc] at hfile
        have hlong := hfiles _ content hfile
        rw [List.length_append] at hlong
        omega
  · rw [show (paths.map List.length).foldl max 0 =
      (paths.map List.length).foldr max ⊥ from List.foldl_eq_foldr]
    refine List.max_le_of_forall_le _ _ ?_
    intro n hn
    obtain ⟨rest, hrest, rfl⟩ := List.mem_map.mp hn
    obtain ⟨content, hfile⟩ := (hpaths rest).mp hrest
    have hlength := hlist.sound.length_le hfile
    rw [List.length_append] at hlength
    unfold TreeView.levelBound FileTree.maxLinks
    omega

/-- A directory is listed from the paths of its files, in any order, as it is
listed from the file system: the same lines, cut at the same place. -/
theorem treeOfPaths_treeOfFiles (hlist : TreeView.Listable tree d.path)
    {paths : List Path}
    (hpaths : ∀ path : Path, path ∈ paths ↔ d.path.parts <+: path.parts ∧
      ∃ content, tree.node? path.parts = some (.file content))
    (title : Text) (maxDepth : Nat) (limit : Numeral) :
    ∃ text,
      ((d.treeOfPaths title maxDepth limit paths).run none tree).ending =
        .finished text ∧
      ((d.treeOfFiles title maxDepth limit).run none tree).ending =
        .finished text := by
  have hinside := leadsToFiles_inside hpaths
  obtain ⟨hheight, hbound⟩ := depth_of_paths hlist hinside
  have halike := hlist.alike (List.prefix_refl _) hlist.isDirectory hheight
    hinside
  rw [Action.ending_run_none, Action.ending_run_none, result_treeOfPaths,
    result_treeOfFiles]
  refine ⟨_, rfl, congrArg Ending.finished ?_⟩
  exact (TreeView.list_same halike (by omega) _ title).text limit

/-! ## A file at the end of a chain of directories -/

section Chain

variable {parts : List Name} {content : Content}

theorem file_of_chain_iff (hne : parts ≠ []) {place : List Name} :
    (∃ found, (FileTree.chain parts (.file content)).node? place =
      some (.file found)) ↔ place = parts := by
  constructor
  · rintro ⟨found, hfound⟩
    have hplace : place ≠ [] := by
      rintro rfl
      rw [node?_nil] at hfound
      cases hfound
    obtain ⟨-, hnode⟩ := (node?_chain_iff hplace).mp hfound
    by_contra hother
    rw [if_neg hother] at hnode
    cases hnode
  · rintro rfl
    exact ⟨content, node?_chain_end hne⟩

theorem mem_file_of_chain_iff {root : Path} (hne : parts ≠ []) (hroot : root.parts <+: parts)
    (path : Path) : path ∈ [(⟨parts⟩ : Path)] ↔ root.parts <+: path.parts ∧
      ∃ found, (FileTree.chain parts (.file content)).node? path.parts = some (.file found) := by
  rw [file_of_chain_iff hne, List.mem_singleton]
  constructor
  · rintro rfl
    exact ⟨hroot, rfl⟩
  · rintro ⟨-, hparts⟩
    exact congrArg Path.mk hparts

theorem filled_chain {root : Path} (hroot : root.parts <+: parts)
    (hshort : root.parts.length < parts.length) (hnamed : ∀ name ∈ parts, Name.Proper name) :
    TreeView.Filled (FileTree.chain parts (.file content)) root := by
  have hne : parts ≠ [] := List.ne_nil_of_length_pos (Nat.zero_lt_of_lt hshort)
  refine ⟨sound_chain hnamed, node?_chain_above hroot hshort, ?_, ?_, ?_⟩
  · intro place target _ hlink
    have hplace : place ≠ [] := by
      rintro rfl
      rw [node?_nil] at hlink
      cases hlink
    have hnode := ((node?_chain_iff hplace).mp hlink).2
    split at hnode <;> cases hnode
  · intro place a b nodeA nodeB _ hnodeA hnodeB _
    have hsame := List.prefix_or_prefix_of_prefix (prefix_of_node?_chain hnodeA)
      (prefix_of_node?_chain hnodeB)
    simpa [List.append_cancel_left_eq, eq_comm] using hsame
  · intro place _ _ hnode
    obtain ⟨rest, hrest⟩ := prefix_of_node?_chain hnode
    refine ⟨rest, content, ?_⟩
    rw [hrest]
    exact node?_chain_end hne

end Chain

theorem listable_note : TreeView.Listable
    (.chain ["docs", "sub", "note.txt"] (.file (.text []))) ⟨["docs"]⟩ := by
  have hnamed : ∀ name ∈ ["docs", "sub", "note.txt"], Name.Proper name := by
    intro name hname
    simp only [List.mem_cons, List.not_mem_nil, or_false] at hname
    rcases hname with rfl | rfl | rfl <;>
      exact ⟨⟨by decide, by decide, by decide⟩, by decide, by decide⟩
  have hfits : Path.fits ⟨["docs", "sub", "note.txt"]⟩ = true := by decide
  refine ⟨filled_chain (by decide) (by decide) hnamed, ?_⟩
  intro place node _ hnode
  exact Path.fits_of_isPrefix (prefix_of_node?_chain hnode) hfits

/-- Two directories and a file in writing, cut after the second line. -/
theorem cut_tree_of_one_file :
    ∃ text,
      ((treeOfPaths ⟨0, ⟨["docs"]⟩, true⟩ "docs/".toList 5 (.number 2)
          [⟨["docs", "sub", "note.txt"]⟩]).run none
        (.chain ["docs", "sub", "note.txt"] (.file (.text [])))).ending =
          .finished text ∧
      ((treeOfFiles ⟨0, ⟨["docs"]⟩, true⟩ "docs/".toList 5 (.number 2)).run
          none
        (.chain ["docs", "sub", "note.txt"] (.file (.text [])))).ending =
          .finished text := by
  exact treeOfPaths_treeOfFiles listable_note (mem_file_of_chain_iff (by decide) (by decide)) _ _ _

/-- A directory whose path is short enough and a file in it whose path is not. -/
def deep : Directory := ⟨0, ⟨List.replicate 15 (Name.ofSize 255)⟩, true⟩

def deepFile : Path := ⟨List.replicate 16 (Name.ofSize 255)⟩

def deepTree : FileTree := .chain deepFile.parts (.file (.text []))

theorem fits_deep : deep.path.fits = true := by
  refine (Path.fits_iff (by simp)).mpr ?_
  simp [Name.utf8ByteSize_ofSize, FileTree.maxPathBytes, FileTree.maxNameBytes]

theorem fits_deepFile : deepFile.fits = false := by
  rw [← Bool.not_eq_true, deepFile, Path.fits_iff (by simp)]
  simp [Name.utf8ByteSize_ofSize, FileTree.maxPathBytes]

theorem child_deep : deep.path.child (Name.ofSize 255) = deepFile :=
  congrArg Path.mk List.replicate_succ'.symm

theorem parts_deepFile : deepFile.parts = deep.path.parts ++ [Name.ofSize 255] :=
  congrArg Path.parts child_deep.symm

theorem filled_deep : TreeView.Filled deepTree deep.path := by
  refine filled_chain ⟨_, parts_deepFile.symm⟩ (by simp [parts_deepFile]) ?_
  intro name hname
  rw [List.eq_of_mem_replicate hname]
  exact Name.proper_ofSize (by decide)

/-- A directory is not listed from the file system if something in it has a path
that is too long, but it is listed from the paths of its files. -/
theorem deep_listed_by_paths_only :
    TreeView.Filled deepTree deep.path ∧
      (∀ path : Path, path ∈ [deepFile] ↔ deep.path.parts <+: path.parts ∧
        ∃ content, deepTree.node? path.parts = some (.file content)) ∧
      ∃ ofPaths ofFiles,
        ((deep.treeOfPaths "d/".toList 1 (.number 9) [deepFile]).run none
          deepTree).ending = .finished ofPaths ∧
        ((deep.treeOfFiles "d/".toList 1 (.number 9)).run none
          deepTree).ending = .finished ofFiles ∧
        ofPaths ≠ ofFiles := by
  have hne : deepFile.parts ≠ [] := by simp [parts_deepFile]
  refine ⟨filled_deep, mem_file_of_chain_iff hne ⟨_, parts_deepFile.symm⟩, ?_⟩
  rw [Action.ending_run_none, Action.ending_run_none, result_treeOfPaths,
    result_treeOfFiles]
  refine ⟨_, _, rfl, rfl, ?_⟩
  have hend : deepTree.node? deepFile.parts = some (.file (.text [])) :=
    FileTree.node?_chain_end hne
  obtain ⟨e, hview⟩ := TreeView.fileEntries_out_of_reach filled_deep.sound
    filled_deep.isDirectory fits_deep (child_deep ▸ hend) rfl
    (child_deep ▸ fits_deepFile)
  have hinside : ([deepFile].filterMap fun path =>
      (path.relativeTo? deep.path).map (·.parts)) = [[Name.ofSize 255]] := by
    simp [Path.relativeTo?, Path.isWithin, parts_deepFile]
  have hlevels : min 1 (TreeView.levelBound deepTree) = 1 := by
    unfold TreeView.levelBound FileTree.maxLinks
    omega
  rw [← TreeView.entries_fileView] at hview
  rw [hinside, hlevels, TreeView.text_list_unreadable hview 0 _ "d/".toList]
  refine ne_of_eq_of_ne
    (TreeView.text_list_one_file _ 0 (by decide) "d/".toList _) ?_
  -- One line starts with a letter, the other one with a bracket.
  have hletter : (Name.ofSize 255).toList = 'a' :: List.replicate 254 'a' :=
    Name.toList_ofSize 255
  intro hsame
  have hline := List.append_cancel_left hsame
  rw [hletter, List.append_assoc, List.append_assoc, List.cons_inj_right,
    List.append_cancel_left_eq] at hline
  have hbracket : "[unreadable: ".toList = '[' :: "unreadable: ".toList := by
    decide
  rw [hbracket] at hline
  exact absurd (List.cons.inj hline).1 (by decide)

end Directory

end Folio
