import Folio.Proofs.CalmActions
import Folio.Proofs.TreeListing
import Mathlib.Data.Prod.Lex

/-!
# Listings that are cut

The whole listing of a directory has a line for everything below it down to a
depth.  A directory comes right before what is in it, directories come before
files, and names count in lower case: this is the lexicographic order of the ways
to the entries.

The limit on the lines of a listing only cuts it.  A walk that comes to an open
listing with a number of lines adds the next lines of the whole listing, stops as
soon as there is one more line than the limit, and then stops everywhere at once.
-/

namespace Folio

variable {item : Item} {limit : Nat} {p : Progress} {paths : List (List Name)}

namespace TreeView

variable {ν : Type}

/-! ## The whole listing -/

/-- An entry somewhere below a directory: the directories on the way to it, its
own name and whether it is a directory itself. -/
structure Item where
  way : List Name
  name : Name
  isDirectory : Bool

def rank (isDirectory : Bool) (name : Name) : Bool ×ₗ Text :=
  toLex (!isDirectory, Text.lower name.toList)

namespace Item

/-- The ranks of the names on the way to an entry, and its own. -/
def key (item : Item) : List (Bool ×ₗ Text) :=
  item.way.map (rank true) ++ [rank item.isDirectory item.name]

/-- The line of an entry, two blanks further in on each level. -/
def line (item : Item) (depth : Nat) : Text :=
  indent (depth + item.way.length + 1) ++ item.name.toList ++
    if item.isDirectory then ['/'] else []

def inside (name : Name) (item : Item) : Item :=
  { item with way := name :: item.way }

theorem key_inside (name : Name) (item : Item) :
    (item.inside name).key = rank true name :: item.key := rfl

theorem line_inside (name : Name) (item : Item) (depth : Nat) :
    (item.inside name).line depth = item.line (depth + 1) := by
  have hdepth : depth + (item.way.length + 1) + 1 = depth + 1 + item.way.length + 1 := by omega
  unfold line inside
  rw [List.length_cons, hdepth]

end Item

/-- The entries that are shown down to a depth, each of them once, in the order of
a listing. -/
structure Outline (shown : Item → Prop) (depth : Nat) (items : List Item) : Prop where
  mem : ∀ item, item ∈ items ↔ shown item ∧ item.way.length < depth
  sorted : items.Pairwise fun a b => a.key < b.key

/-- The lines of a listing up to a limit, and what is said if there are more. -/
def cut (limit : Numeral) (lines : List Text) : List Text :=
  lines.take limit.value.toNat ++
    if limit.value.toNat < lines.length then
      ["... truncated after ".toList ++ limit.text ++ " entries".toList]
    else []

/-- The lines that an entry and what is in it have, in the view's own terms. -/
def block (below : ν → List Item) (entry : Entry ν) : List Item :=
  ⟨[], entry.name, entry.directory.isSome⟩ ::
    (entry.directory.toList.flatMap below).map (Item.inside entry.name)

/-- Everything that a view shows below a directory, down to a number of levels. -/
def outline (view : View ν) : Nat → ν → List Item
  | 0, _ => []
  | levels + 1, directory =>
    match view.entries directory with
    | .error _ => []
    | .ok entries => (arrange entries).flatMap (block (outline view levels))

/-- The entries of a directory say what is shown below it, one level at a time. -/
structure Level (good : ν → Prop) (shown : ν → Item → Prop) (directory : ν)
    (entries : List (Entry ν)) : Prop where
  ranks : entries.Pairwise fun a b =>
    rank a.directory.isSome a.name ≠ rank b.directory.isSome b.name
  inner : ∀ entry ∈ entries, ∀ inner ∈ entry.directory, good inner
  here : ∀ name isDirectory, shown directory ⟨[], name, isDirectory⟩ ↔
    ∃ entry ∈ entries, entry.name = name ∧ entry.directory.isSome = isDirectory
  below : ∀ name item, shown directory (item.inside name) ↔
    ∃ entry ∈ entries, entry.name = name ∧ ∃ inner ∈ entry.directory, shown inner item

/-- A view in which the directories of a set can be read and have names that can be
told apart. -/
def Presents (view : View ν) (good : ν → Prop) (shown : ν → Item → Prop) : Prop :=
  ∀ directory, good directory →
    ∃ entries, view.entries directory = .ok entries ∧ Level good shown directory entries

theorem outline_succ {view : View ν} {directory : ν} {entries : List (Entry ν)}
    (hentries : view.entries directory = .ok entries) (levels : Nat) :
    outline view (levels + 1) directory =
      (arrange entries).flatMap (block (outline view levels)) := by
  rw [outline, hentries]

/-! ## Its order -/

theorem mem_arrange {entries : List (Entry ν)} {entry : Entry ν} :
    entry ∈ arrange entries ↔ entry ∈ entries := by
  unfold arrange sortEntries
  rw [List.mem_append, List.mem_mergeSort, List.mem_mergeSort, List.mem_filter, List.mem_filter]
  cases entry.directory <;> simp

theorem sorted_sortEntries {entries : List (Entry ν)} {isDirectory : Bool}
    (hkind : ∀ entry ∈ entries, entry.directory.isSome = isDirectory)
    (hranks : entries.Pairwise fun a b =>
      rank a.directory.isSome a.name ≠ rank b.directory.isSome b.name) :
    (sortEntries entries).Pairwise fun a b =>
      rank a.directory.isSome a.name < rank b.directory.isSome b.name := by
  have hsorted := pairwise_mergeSort_key (fun e : Entry ν => Text.lower e.name.toList) entries
  have hapart := ((List.mergeSort_perm entries fun a b =>
    !(Text.lower b.name.toList < Text.lower a.name.toList)).pairwise_iff Ne.symm).mpr hranks
  refine (hsorted.and hapart).imp_of_mem fun {a b} ha hb hab => ?_
  obtain ⟨hle, hne⟩ := hab
  have hkinds := (hkind a (List.mem_mergeSort.mp ha)).trans
    (hkind b (List.mem_mergeSort.mp hb)).symm
  unfold rank at hne ⊢
  rw [hkinds] at hne ⊢
  refine Prod.Lex.toLex_lt_toLex.mpr (.inr ⟨rfl, ?_⟩)
  by_contra hlt
  exact hne (by rw [List.le_antisymm (List.not_lt.mp hle) (List.not_lt.mp hlt)])

theorem sorted_arrange {entries : List (Entry ν)} (hranks : entries.Pairwise fun a b =>
      rank a.directory.isSome a.name ≠ rank b.directory.isSome b.name) :
    (arrange entries).Pairwise fun a b =>
      rank a.directory.isSome a.name < rank b.directory.isSome b.name := by
  have hdirectories : ∀ entry ∈ entries.filter (·.directory.isSome),
      entry.directory.isSome = true := fun entry => List.of_mem_filter
  have hfiles : ∀ entry ∈ entries.filter (·.directory.isNone),
      entry.directory.isSome = false := fun entry hentry => by
    simpa using List.of_mem_filter hentry
  unfold arrange
  refine List.pairwise_append.mpr ⟨sorted_sortEntries hdirectories (hranks.filter _),
    sorted_sortEntries hfiles (hranks.filter _), fun a ha b hb => ?_⟩
  rw [hdirectories a (List.mem_mergeSort.mp ha), hfiles b (List.mem_mergeSort.mp hb)]
  exact Prod.Lex.toLex_lt_toLex.mpr (.inl Bool.false_lt_true)

theorem exists_key_eq_of_mem_block {below : ν → List Item} {entry : Entry ν}
    (hitem : item ∈ block below entry) :
    ∃ rest, item.key = rank entry.directory.isSome entry.name :: rest := by
  rcases List.mem_cons.mp hitem with rfl | hitem
  · exact ⟨[], rfl⟩
  · obtain ⟨inner, hinner, rfl⟩ := List.mem_map.mp hitem
    obtain ⟨directory, hdirectory, -⟩ := List.mem_flatMap.mp hinner
    rw [Option.mem_toList] at hdirectory
    rw [hdirectory]
    exact ⟨_, Item.key_inside _ _⟩

theorem sorted_block {below : ν → List Item} {entry : Entry ν} (hbelow : ∀ inner ∈ entry.directory,
      (below inner).Pairwise fun a b => a.key < b.key) :
    (block below entry).Pairwise fun a b => a.key < b.key := by
  unfold block
  cases hentry : entry.directory with
  | none => simp
  | some inner =>
    rw [Option.toList_some, List.flatMap_singleton, List.pairwise_cons]
    constructor
    · intro item hitem
      obtain ⟨found, -, rfl⟩ := List.mem_map.mp hitem
      rw [Item.key_inside]
      refine List.cons_lt_cons_iff.mpr (.inr ⟨rfl, ?_⟩)
      unfold Item.key
      cases found.way <;> exact List.nil_lt_cons _ _
    · rw [List.pairwise_map]
      refine (hbelow inner hentry).imp fun {a b} hab => ?_
      rw [Item.key_inside, Item.key_inside]
      exact List.cons_lt_cons_iff.mpr (.inr ⟨rfl, hab⟩)

section Presents

variable {view : View ν} {good : ν → Prop} {shown : ν → Item → Prop}
  (hview : Presents view good shown)

include hview

theorem Presents.sorted_outline {directory : ν} (hgood : good directory) (levels : Nat) :
    (outline view levels directory).Pairwise fun a b => a.key < b.key := by
  induction levels generalizing directory with
  | zero => exact .nil
  | succ levels ih =>
    obtain ⟨entries, hentries, hlevel⟩ := hview directory hgood
    rw [outline_succ hentries, List.pairwise_flatMap]
    constructor
    · intro entry hentry
      exact sorted_block fun inner hin =>
        ih (hlevel.inner entry (mem_arrange.mp hentry) inner hin)
    · refine (sorted_arrange hlevel.ranks).imp fun {a b} hab x hx y hy => ?_
      obtain ⟨restX, hkeyX⟩ := exists_key_eq_of_mem_block hx
      obtain ⟨restY, hkeyY⟩ := exists_key_eq_of_mem_block hy
      rw [hkeyX, hkeyY]
      exact List.cons_lt_cons_iff.mpr (.inl hab)

theorem Presents.mem_outline {directory : ν} (hgood : good directory) (levels : Nat) (item : Item) :
    item ∈ outline view levels directory ↔ shown directory item ∧ item.way.length < levels := by
  induction levels generalizing directory item with
  | zero => simp [outline]
  | succ levels ih =>
    obtain ⟨entries, hentries, hlevel⟩ := hview directory hgood
    rw [outline_succ hentries, List.mem_flatMap]
    simp only [mem_arrange, block, List.mem_cons, List.mem_map, List.mem_flatMap, Option.mem_toList]
    obtain ⟨way, name, isDirectory⟩ := item
    cases way with
    | nil =>
      rw [hlevel.here]
      constructor
      · rintro ⟨entry, hentry, hitem | ⟨found, -, hitem⟩⟩
        · cases hitem
          exact ⟨⟨entry, hentry, rfl, rfl⟩, Nat.succ_pos levels⟩
        · cases hitem
      · rintro ⟨⟨entry, hentry, rfl, rfl⟩, -⟩
        exact ⟨entry, hentry, .inl rfl⟩
    | cons first way =>
      rw [show Item.mk (first :: way) name isDirectory =
        (Item.mk way name isDirectory).inside first from rfl, hlevel.below]
      constructor
      · rintro ⟨entry, hentry, hitem | ⟨found, ⟨inner, hinner, hfound⟩, hitem⟩⟩
        · cases hitem
        · cases hitem
          obtain ⟨hshown, hshort⟩ := (ih (hlevel.inner entry hentry inner hinner) _).mp hfound
          exact ⟨⟨entry, hentry, rfl, inner, hinner, hshown⟩, Nat.succ_lt_succ hshort⟩
      · rintro ⟨⟨entry, hentry, rfl, inner, hinner, hshown⟩, hshort⟩
        exact ⟨entry, hentry, .inr ⟨_, ⟨inner, hinner,
          (ih (hlevel.inner entry hentry inner hinner) _).mpr
            ⟨hshown, Nat.lt_of_succ_lt_succ hshort⟩⟩, rfl⟩⟩

end Presents

/-! ## Walks that are cut -/

/-- A listing that is not cut yet. -/
structure Progress.Open (limit : Nat) (p : Progress) : Prop where
  short : p.lines.length ≤ limit
  whole : p.truncated = false

/-- What a part of a walk does to the lines of a listing when there are lines to add: as
many are added as there is room for, and if there are more, the listing is cut and the walk
ends. -/
structure Adds (limit : Nat) (before added : List Text) (next : Progress × Bool) : Prop where
  lines : next.1.lines.reverse = (before.reverse ++ added).take limit
  truncated : next.1.truncated = decide (limit < before.length + added.length)
  goes : next.2 = !next.1.truncated

theorem Progress.Open.adds_nil (hopen : p.Open limit) : Adds limit p.lines [] (p, true) := by
  refine ⟨?_, ?_, by rw [hopen.whole]; rfl⟩
  · rw [List.append_nil, List.take_of_length_le (by simpa using hopen.short)]
  · simpa [hopen.whole] using hopen.short

theorem Adds.of_line {before added : List Text} {t : Text} {next : Progress × Bool}
    (hadds : Adds limit (t :: before) added next) : Adds limit before (t :: added) next := by
  refine ⟨?_, ?_, hadds.goes⟩
  · rw [hadds.lines, List.reverse_cons, List.append_assoc]
    rfl
  · rw [hadds.truncated, List.length_cons, List.length_cons, Nat.add_right_comm, Nat.add_assoc]

theorem visitAll_adds {α : Type} {visit : Progress → α → Progress × Bool} {linesOf : α → List Text}
    {items : List α}
    (hvisit : ∀ a ∈ items, ∀ p, p.Open limit → Adds limit p.lines (linesOf a) (visit p a))
    (hopen : p.Open limit) :
    Adds limit p.lines (items.flatMap linesOf) (visitAll visit p items) := by
  induction items generalizing p with
  | nil => exact hopen.adds_nil
  | cons a items ih =>
    have hstep := hvisit a List.mem_cons_self p hopen
    unfold visitAll
    rw [List.flatMap_cons]
    generalize visit p a = next at hstep
    obtain ⟨q, go⟩ := next
    obtain ⟨hlines, htruncated, hgoes⟩ := hstep
    dsimp only at hlines htruncated hgoes
    cases go with
    | true =>
      have hwhole : q.truncated = false := by simpa using hgoes.symm
      have hroom : p.lines.length + (linesOf a).length ≤ limit := by
        rw [hwhole] at htruncated
        simpa using htruncated.symm
      rw [List.take_of_length_le (by simpa using hroom)] at hlines
      have hlength : q.lines.length = p.lines.length + (linesOf a).length := by
        simpa using congrArg List.length hlines
      obtain ⟨hrest, hcut, hgo⟩ := ih (fun b hb => hvisit b (List.mem_cons_of_mem a hb))
        (p := q) ⟨by omega, hwhole⟩
      refine ⟨?_, ?_, hgo⟩
      · rw [hrest, hlines, List.append_assoc]
      · rw [hcut, hlength, List.length_append, Nat.add_assoc]
    | false =>
      have hcut : q.truncated = true := by simpa using hgoes.symm
      have hfull : limit < p.lines.length + (linesOf a).length := by
        rw [hcut] at htruncated
        simpa using htruncated.symm
      refine ⟨?_, ?_, hgoes⟩
      · rw [← List.append_assoc]
        exact hlines.trans (List.take_append_of_le_length (by simpa using hfull.le)).symm
      · rw [hcut, List.length_append, eq_comm, decide_eq_true_iff]
        omega

theorem visit_adds {view : View ν} {depth : Nat} {below : ν → List Item}
    {enter : Progress → ν → Progress × Bool} {entry : Entry ν}
    (henter : ∀ inner ∈ entry.directory, ∀ p : Progress, p.Open limit →
      Adds limit p.lines ((below inner).map (·.line (depth + 1))) (enter p inner))
    (hopen : p.Open limit) : Adds limit p.lines ((block below entry).map (·.line depth))
      (visit view limit depth enter p entry) := by
  obtain ⟨name, directory⟩ := entry
  unfold visit
  dsimp only [Progress.pass]
  by_cases hfull : limit ≤ p.lines.length
  · have hlength : limit = p.lines.reverse.length := by
      rw [List.length_reverse]
      exact le_antisymm hfull hopen.short
    rw [if_pos hfull]
    refine ⟨?_, ?_, rfl⟩
    · rw [List.take_append_of_le_length hlength.le, List.take_of_length_le hlength.ge]
    · rw [List.length_reverse] at hlength
      simp only [block, List.map_cons, List.length_cons]
      rw [eq_comm, decide_eq_true_iff]
      omega
  · rw [if_neg hfull]
    have hopenLine : ∀ passed t, Progress.Open limit ⟨t :: p.lines, passed, p.truncated⟩ :=
      fun passed t => ⟨Nat.lt_of_not_le hfull, hopen.whole⟩
    cases directory with
    | none =>
      simpa [block, Item.line, Progress.line] using (hopenLine (view.atFile :: p.passed)
          (indent (depth + 1) ++ name.toList)).adds_nil.of_line
    | some inner =>
      have hinner := henter inner rfl _ (hopenLine (view.atDirectory :: p.passed)
        (indent (depth + 1) ++ name.toList ++ ['/']))
      have hbelow : ((below inner).map (Item.inside name)).map (·.line depth) =
          (below inner).map (·.line (depth + 1)) := by
        rw [List.map_map]
        exact List.map_congr_left fun item _ => item.line_inside name depth
      unfold block
      rw [List.map_cons, Option.toList_some, List.flatMap_singleton, hbelow]
      exact hinner.of_line

theorem Presents.walk_adds {view : View ν} {good : ν → Prop} {shown : ν → Item → Prop}
    (hview : Presents view good shown) {directory : ν} (hgood : good directory) (levels depth : Nat)
    (hopen : p.Open limit) : Adds limit p.lines ((outline view levels directory).map (·.line depth))
      (walk view limit levels depth p directory) := by
  have hpass : (p.pass view.enter).Open limit := ⟨hopen.short, hopen.whole⟩
  induction levels generalizing directory depth p with
  | zero => exact hpass.adds_nil
  | succ levels ih =>
    obtain ⟨entries, hentries, hlevel⟩ := hview directory hgood
    unfold walk
    rw [hentries, outline_succ hentries, List.map_flatMap]
    refine visitAll_adds (fun entry hentry q hq => ?_) hpass
    exact visit_adds (fun inner hin r hr =>
      ih (hlevel.inner entry (mem_arrange.mp hentry) inner hin) (depth + 1) hr
        ⟨hr.short, hr.whole⟩) hq

theorem Presents.text_list {view : View ν} {good : ν → Prop} {shown : ν → Item → Prop}
    (hview : Presents view good shown) {directory : ν} (hgood : good directory) (levels : Nat)
    {limit : Numeral} (hlimit : 1 ≤ limit.value) (title : Text) :
    text limit (list view levels limit.value.toNat title directory) = Text.joinWith ['\n']
        (cut limit (title :: (outline view levels directory).map (·.line 0))) := by
  have hopen : Progress.Open limit.value.toNat ⟨[title], [], false⟩ :=
    ⟨show 1 ≤ limit.value.toNat by omega, rfl⟩
  have hadds := hview.walk_adds hgood levels 0 hopen
  unfold text list cut
  dsimp only
  rw [hadds.lines, hadds.truncated, List.reverse_singleton, List.singleton_append,
    List.length_singleton, List.length_cons, Nat.add_comm 1]
  congr 1
  by_cases hlong : limit.value.toNat < ((outline view levels directory).map (·.line 0)).length + 1
  · rw [if_pos (decide_eq_true hlong), if_pos hlong]
  · rw [if_neg (by simpa using hlong), if_neg hlong, List.append_nil]

/-! ## The two views -/

/-- Names in one directory can be told apart in lower case. -/
def Told (shown : Item → Prop) : Prop :=
  ∀ a b, shown a → shown b → a.way = b.way →
    Text.lower a.name.toList = Text.lower b.name.toList → a.name = b.name

theorem lower_eq_of_rank_eq {a b : Name} {isDirectory isDirectory' : Bool}
    (hrank : rank isDirectory a = rank isDirectory' b) :
    Text.lower a.toList = Text.lower b.toList := (Prod.mk.inj (toLex.injective hrank)).2

def ShownIn (tree : FileTree) (place : List Name) (item : Item) : Prop :=
  ∃ node, tree.node? (place ++ item.way ++ [item.name]) = some node ∧
    item.isDirectory = decide (node = .directory)

def ShownBy (paths : List (List Name)) (item : Item) : Prop :=
  ∃ rest, item.way ++ item.name :: rest ∈ paths ∧ item.isDirectory = !rest.isEmpty

theorem shownBy_inside_iff {name : Name} :
    ShownBy paths (item.inside name) ↔ ShownBy (pathsInto paths name) item := by
  unfold ShownBy
  simp only [mem_pathsInto_iff]
  simp [Item.inside]

theorem mem_pathEntries_iff {entry : Entry (List (List Name))} : entry ∈ pathEntries paths ↔
      entry.name ∈ directoryNames paths ∧ entry.directory = some (pathsInto paths entry.name) ∨
      entry.name ∈ fileNames paths ∧ entry.directory = none := by
  change entry ∈ (directoryNames paths).map
      (fun name => (⟨name, some (pathsInto paths name)⟩ : Entry _)) ++
    (fileNames paths).map (fun name => ⟨name, none⟩) ↔ _
  rw [List.mem_append, List.mem_map, List.mem_map]
  obtain ⟨name, directory⟩ := entry
  refine or_congr ⟨?_, ?_⟩ ⟨?_, ?_⟩
  · rintro ⟨found, hfound, hentry⟩
    cases hentry
    exact ⟨hfound, rfl⟩
  · rintro ⟨hname, hdirectory⟩
    exact ⟨name, hname, congrArg (Entry.mk name) hdirectory.symm⟩
  · rintro ⟨found, hfound, hentry⟩
    cases hentry
    exact ⟨hfound, rfl⟩
  · rintro ⟨hname, hdirectory⟩
    exact ⟨name, hname, congrArg (Entry.mk name) hdirectory.symm⟩

theorem ranks_pathEntries (htold : Told (ShownBy paths)) : (pathEntries paths).Pairwise fun a b =>
      rank a.directory.isSome a.name ≠ rank b.directory.isSome b.name := by
  have hdirectory : ∀ name ∈ directoryNames paths, ShownBy paths ⟨[], name, true⟩ := by
    intro name hname
    obtain ⟨next, rest, hpath⟩ := mem_directoryNames_iff.mp hname
    exact ⟨next :: rest, hpath, rfl⟩
  have hfile : ∀ name ∈ fileNames paths, ShownBy paths ⟨[], name, false⟩ := fun name hname =>
    ⟨[], mem_fileNames_iff.mp hname, rfl⟩
  change ((directoryNames paths).map
      (fun name => (⟨name, some (pathsInto paths name)⟩ : Entry _)) ++
    (fileNames paths).map (fun name => (⟨name, none⟩ : Entry _))).Pairwise _
  refine List.pairwise_append.mpr ⟨?_, ?_, ?_⟩
  · refine List.pairwise_map.mpr ((nodup_eraseDups _).imp_of_mem fun {a b} ha hb hne hrank => ?_)
    exact hne (htold _ _ (hdirectory a ha) (hdirectory b hb) rfl (lower_eq_of_rank_eq hrank))
  · refine List.pairwise_map.mpr ((nodup_eraseDups _).imp_of_mem fun {a b} ha hb hne hrank => ?_)
    exact hne (htold _ _ (hfile a ha) (hfile b hb) rfl (lower_eq_of_rank_eq hrank))
  · intro a ha b hb
    obtain ⟨_, -, rfl⟩ := List.mem_map.mp ha
    obtain ⟨_, -, rfl⟩ := List.mem_map.mp hb
    simp [rank]

theorem presents_pathView : Presents pathView (fun paths => Told (ShownBy paths)) ShownBy := by
  intro paths htold
  refine ⟨pathEntries paths, rfl, ranks_pathEntries htold, ?_, ?_, ?_⟩
  · intro entry hentry inner hinner a b ha hb hway
    rcases mem_pathEntries_iff.mp hentry with ⟨-, hdirectory⟩ | ⟨-, hdirectory⟩
    · obtain rfl := Option.some.inj (hdirectory.symm.trans hinner)
      exact htold (a.inside entry.name) (b.inside entry.name) (shownBy_inside_iff.mpr ha)
        (shownBy_inside_iff.mpr hb) (congrArg (entry.name :: ·) hway)
    · cases hdirectory.symm.trans hinner
  · intro name isDirectory
    constructor
    · rintro ⟨rest, hpath, hkind⟩
      cases rest with
      | nil =>
        exact ⟨⟨name, none⟩, mem_pathEntries_iff.mpr
          (.inr ⟨mem_fileNames_iff.mpr hpath, rfl⟩), rfl, hkind.symm⟩
      | cons next rest =>
        exact ⟨⟨name, some (pathsInto paths name)⟩, mem_pathEntries_iff.mpr
          (.inl ⟨mem_directoryNames_iff.mpr ⟨next, rest, hpath⟩, rfl⟩), rfl, hkind.symm⟩
    · rintro ⟨entry, hentry, rfl, rfl⟩
      rcases mem_pathEntries_iff.mp hentry with ⟨hname, hdirectory⟩ | ⟨hname, hdirectory⟩
      · obtain ⟨next, rest, hpath⟩ := mem_directoryNames_iff.mp hname
        exact ⟨next :: rest, hpath, by rw [hdirectory]; rfl⟩
      · exact ⟨[], mem_fileNames_iff.mp hname, by rw [hdirectory]; rfl⟩
  · intro name item
    rw [shownBy_inside_iff]
    constructor
    · intro hitem
      have hname : name ∈ directoryNames paths := by
        obtain ⟨rest, hpath, -⟩ := hitem
        obtain ⟨hne, hpath⟩ := mem_pathsInto_iff.mp hpath
        obtain ⟨next, more, hmore⟩ := List.exists_cons_of_ne_nil hne
        rw [hmore] at hpath
        exact mem_directoryNames_iff.mpr ⟨next, more, hpath⟩
      exact ⟨⟨name, some _⟩, mem_pathEntries_iff.mpr (.inl ⟨hname, rfl⟩), rfl, _, rfl, hitem⟩
    · rintro ⟨entry, hentry, rfl, inner, hinner, hitem⟩
      rcases mem_pathEntries_iff.mp hentry with ⟨-, hdirectory⟩ | ⟨-, hdirectory⟩
      · obtain rfl := Option.some.inj (hdirectory.symm.trans hinner)
        exact hitem
      · cases hdirectory.symm.trans hinner

section FileSystem

variable {tree : FileTree} {root : Path} {place : List Name}

/-- A directory without links in which every directory can be read. -/
structure Walkable (tree : FileTree) (root : Path) : Prop where
  sound : tree.Sound
  isDirectory : tree.node? root.parts = some .directory
  noLink : ∀ place target, root.parts <+: place → tree.node? place ≠ some (.link target)
  readable : ∀ place, root.parts <+: place → tree.node? place = some .directory →
    ∃ entries, fileEntries tree ⟨place⟩ = .ok entries

theorem fits_of_readable (hsound : tree.Sound) (hplace : tree.node? place = some .directory)
    {entries : List (Entry Path)} (hread : fileEntries tree ⟨place⟩ = .ok entries) :
    Path.fits ⟨place⟩ = true := by
  by_contra hlong
  have hlocate : tree.locate ⟨place⟩ = .error .nameTooLong := by
    unfold FileTree.locate
    rw [hsound.walkPath_entry hplace rfl, if_neg hlong]
  unfold fileEntries FileTree.follow at hread
  rw [hlocate] at hread
  cases hread

theorem Walkable.isLink_eq_false (hwalk : Walkable tree root) (hbelow : root.parts <+: place)
    {node : Node} (hnode : tree.node? place = some node) : node.isLink = false := by
  cases node with
  | link target => exact absurd hnode (hwalk.noLink place target hbelow)
  | directory => rfl
  | file content => rfl

theorem Walkable.fileEntries_eq (hwalk : Walkable tree root) (hbelow : root.parts <+: place)
    (hplace : tree.node? place = some .directory) : fileEntries tree ⟨place⟩ =
      .ok ((tree.names place).map (entryAt tree place)) := by
  obtain ⟨entries, hread⟩ := hwalk.readable place hbelow hplace
  have hfits := fits_of_readable hwalk.sound hplace hread
  refine TreeView.fileEntries_eq hwalk.sound hplace hfits fun name node hnode => ?_
  have hlink := hwalk.isLink_eq_false (hbelow.trans (List.prefix_append _ _)) hnode
  refine ⟨hlink, ?_⟩
  by_contra hlong
  obtain ⟨e, herror⟩ := fileEntries_out_of_reach hwalk.sound
    (show tree.node? (Path.mk place).parts = _ from hplace) hfits hnode hlink
    (Bool.eq_false_iff.mpr hlong)
  cases hread.symm.trans herror

theorem shownIn_inside_iff {name : Name} :
    ShownIn tree place (item.inside name) ↔ ShownIn tree (place ++ [name]) item := by
  simp [ShownIn, Item.inside]

theorem Walkable.presents (hwalk : Walkable tree root) : Presents (fileView tree)
      (fun path => root.parts <+: path.parts ∧
        tree.node? path.parts = some .directory ∧ Told (ShownIn tree path.parts))
      fun path => ShownIn tree path.parts := by
  rintro ⟨place⟩ ⟨hbelow, hplace, htold⟩
  dsimp only at hbelow hplace htold
  have hshown : ∀ name ∈ tree.names place, ∃ isDirectory,
      ShownIn tree place ⟨[], name, isDirectory⟩ := by
    intro name hname
    obtain ⟨node, hnode⟩ := hwalk.sound.mem_names_iff.mp hname
    exact ⟨_, node, by simpa using hnode, rfl⟩
  refine ⟨_, hwalk.fileEntries_eq hbelow hplace, ?_, ?_, ?_, ?_⟩
  · refine List.pairwise_map.mpr
      ((hwalk.sound.nodup_names place).imp_of_mem fun {a b} ha hb hne hrank => ?_)
    obtain ⟨_, hshownA⟩ := hshown a ha
    obtain ⟨_, hshownB⟩ := hshown b hb
    exact hne (htold _ _ hshownA hshownB rfl (lower_eq_of_rank_eq hrank))
  · intro entry hentry inner hinner
    obtain ⟨name, -, rfl⟩ := List.mem_map.mp hentry
    unfold entryAt at hinner
    obtain ⟨hdirectory, hsame⟩ := Option.ite_none_right_eq_some.mp hinner
    obtain rfl := Option.some.inj hsame
    refine ⟨hbelow.trans (List.prefix_append _ _), hdirectory, fun a b ha hb hway => ?_⟩
    exact htold (a.inside name) (b.inside name) (shownIn_inside_iff.mpr ha)
      (shownIn_inside_iff.mpr hb) (congrArg (name :: ·) hway)
  · intro name isDirectory
    constructor
    · rintro ⟨node, hnode, hkind⟩
      dsimp only at hnode hkind
      rw [List.append_nil] at hnode
      refine ⟨_, List.mem_map_of_mem (hwalk.sound.mem_names_iff.mpr ⟨node, hnode⟩), rfl, ?_⟩
      rw [hkind, entryAt, hnode]
      by_cases hdirectory : node = .directory <;> simp [hdirectory]
    · rintro ⟨entry, hentry, rfl, rfl⟩
      obtain ⟨name, hname, rfl⟩ := List.mem_map.mp hentry
      obtain ⟨node, hnode⟩ := hwalk.sound.mem_names_iff.mp hname
      refine ⟨node, by simpa [entryAt] using hnode, ?_⟩
      rw [entryAt, hnode]
      by_cases hdirectory : node = .directory <;> simp [hdirectory]
  · intro name item
    rw [shownIn_inside_iff]
    constructor
    · intro hitem
      obtain ⟨node, hnode, -⟩ := id hitem
      have hdirectory : tree.node? (place ++ [name]) = some .directory :=
        hwalk.sound.directory_above hnode (by simp) (by simp)
      refine ⟨_, List.mem_map_of_mem (hwalk.sound.mem_names_iff.mpr ⟨_, hdirectory⟩), rfl,
        ⟨place ++ [name]⟩, ?_, hitem⟩
      rw [entryAt, if_pos hdirectory]
      rfl
    · rintro ⟨entry, hentry, rfl, inner, hinner, hitem⟩
      obtain ⟨name, -, rfl⟩ := List.mem_map.mp hentry
      unfold entryAt at hinner
      obtain ⟨-, hsame⟩ := Option.ite_none_right_eq_some.mp hinner
      obtain rfl := Option.some.inj hsame
      exact hitem

end FileSystem

/-- A limit on the depth beyond everything that is shown makes no difference. -/
theorem Outline.of_min {shown : Item → Prop} {depth bound : Nat} {items : List Item}
    (houtline : Outline shown (min depth bound) items)
    (hbound : ∀ item, shown item → item.way.length < bound) : Outline shown depth items := by
  refine ⟨fun item => (houtline.mem item).trans ?_, houtline.sorted⟩
  rw [lt_min_iff]
  exact and_congr_right fun hshown => and_iff_left (hbound item hshown)

theorem Presents.outline {view : View ν} {good : ν → Prop} {shown : ν → Item → Prop}
    (hview : Presents view good shown) {directory : ν} (hgood : good directory)
    (levels : Nat) : Outline (shown directory) levels (outline view levels directory) :=
  ⟨hview.mem_outline hgood levels, hview.sorted_outline hgood levels⟩

end TreeView

namespace Directory

open TreeView

variable {d : Directory} {tree : FileTree}

/-- What a directory shows: what is on the way to the documents of its index, or else
what is in the file system. -/
def Shows (d : Directory) (tree : FileTree) : Option (List Path) → Item → Prop
  | some paths, item => ∃ rest,
    ⟨d.path.parts ++ item.way ++ item.name :: rest⟩ ∈ paths ∧
      item.isDirectory = !rest.isEmpty
  | none, item => ShownIn tree d.path.parts item

theorem shows_some {paths : List Path} : d.Shows tree (some paths) =
      ShownBy (paths.filterMap fun path => (path.relativeTo? d.path).map (·.parts)) := by
  funext item
  simp only [Shows, ShownBy, mem_inside_iff, List.append_assoc]

theorem exists_outline_of_paths {paths : List Path} (htold : Told (d.Shows tree (some paths)))
    (title : Text) (maxDepth : Nat) {limit : Numeral} (hlimit : 1 ≤ limit.value) :
    ∃ items, Outline (d.Shows tree (some paths)) maxDepth items ∧
      (d.treeOfPaths title maxDepth limit paths).result tree = (tree, .finished
        (Text.joinWith ['\n'] (cut limit (title :: items.map (·.line 0))))) := by
  rw [shows_some] at htold ⊢
  rw [result_treeOfPaths]
  generalize (paths.filterMap fun path => (path.relativeTo? d.path).map (·.parts)) = inside
    at htold ⊢
  have hbound : ∀ item, ShownBy inside item →
      item.way.length < (inside.map List.length).foldl max 0 := by
    rintro item ⟨rest, hpath, -⟩
    have hlength := length_le_of_mem hpath
    rw [List.length_append, List.length_cons] at hlength
    omega
  refine ⟨_, (presents_pathView.outline htold _).of_min hbound, ?_⟩
  rw [presents_pathView.text_list htold _ hlimit]

theorem exists_outline_of_files (hwalk : Walkable tree d.path) (htold : Told (d.Shows tree none))
    (title : Text) (maxDepth : Nat) {limit : Numeral} (hlimit : 1 ≤ limit.value) :
    ∃ items, Outline (d.Shows tree none) maxDepth items ∧
      (d.treeOfFiles title maxDepth limit).result tree = (tree, .finished
        (Text.joinWith ['\n'] (cut limit (title :: items.map (·.line 0))))) := by
  have hgood : d.path.parts <+: d.path.parts ∧ tree.node? d.path.parts = some .directory ∧
      Told (ShownIn tree d.path.parts) := ⟨List.prefix_refl _, hwalk.isDirectory, htold⟩
  have hbound : ∀ item, ShownIn tree d.path.parts item → item.way.length < levelBound tree := by
    rintro item ⟨node, hnode, -⟩
    have hlength := hwalk.sound.length_le hnode
    rw [List.length_append, List.length_append, List.length_singleton] at hlength
    unfold levelBound FileTree.maxLinks
    omega
  refine ⟨_, (hwalk.presents.outline hgood _).of_min hbound, ?_⟩
  rw [result_treeOfFiles, hwalk.presents.text_list hgood _ hlimit]

/-- The limits only cut a listing: it has the first lines of the list of everything down to
the depth, and says so at the end if there are more. -/
theorem tree_cut (s : Setting) {paths : Option (List Path)} {title : Text}
    (hpaths : ((Index.directoryPaths? d.path true).run none tree).ending = .finished paths)
    (htitle : ((s.shown d.path).run none tree).ending = .finished title)
    (hwalk : paths = none → Walkable tree d.path) (htold : Told (d.Shows tree paths))
    (maxDepth : Nat) {limit : Numeral} (hlimit : 1 ≤ limit.value) :
    ∃ items, Outline (d.Shows tree paths) maxDepth items ∧
      ((d.tree s maxDepth limit).run none tree).ending = .finished
        (Text.joinWith ['\n'] (cut limit ((title ++ ['/']) :: items.map (·.line 0)))) := by
  have hlooked := Action.result_of_run hpaths
  rw [(Index.calm_directoryPaths? d.path true).state_run tree none] at hlooked
  have hsame : ((s.shown d.path).run none tree).state = tree :=
    (TreeAction.calm_shown s.cwd d.path).state_run tree none
  have hnamed := Action.result_of_run htitle
  rw [hsame] at hnamed
  rw [Action.ending_run_none]
  unfold Directory.tree
  rw [Action.result_bind_of_finished hlooked, Action.result_bind_of_finished hnamed]
  cases paths with
  | some paths =>
      obtain ⟨items, houtline, hresult⟩ :=
        exists_outline_of_paths htold (title ++ ['/']) maxDepth hlimit
      exact ⟨items, houtline, congrArg Prod.snd hresult⟩
  | none =>
      obtain ⟨items, houtline, hresult⟩ :=
        exists_outline_of_files (hwalk rfl) htold (title ++ ['/']) maxDepth hlimit
      exact ⟨items, houtline, congrArg Prod.snd hresult⟩

/-- Two directories and a file are cut after the second line. -/
theorem tree_of_one_file_cut :
    ∃ items, Outline (Shows ⟨0, ⟨["docs"]⟩, true⟩
        (.chain ["docs", "sub", "note.txt"] (.file (.text []))) none) 5 items ∧
      ((Directory.tree ⟨0, ⟨["docs"]⟩, true⟩ ⟨⟨[]⟩, ⟨[]⟩, ⟨false, false, false⟩⟩ 5
          (.number 2)).run none
          (.chain ["docs", "sub", "note.txt"] (.file (.text [])))).ending = .finished
        (Text.joinWith ['\n']
          (cut (.number 2) ("docs/".toList :: items.map (·.line 0)))) := by
  have hlist := listable_note
  have hpaths : ((Index.directoryPaths? ⟨["docs"]⟩ true).run none
      (.chain ["docs", "sub", "note.txt"] (.file (.text [])))).ending = .finished none := rfl
  have htitle : ((Setting.shown ⟨⟨[]⟩, ⟨[]⟩, ⟨false, false, false⟩⟩ ⟨["docs"]⟩).run none
      (.chain ["docs", "sub", "note.txt"] (.file (.text [])))).ending =
        .finished "docs".toList := rfl
  refine tree_cut (d := ⟨0, ⟨["docs"]⟩, true⟩) _ hpaths htitle
    (fun _ => ⟨hlist.sound, hlist.isDirectory, hlist.noLink,
      fun place hbelow hplace => ⟨_, hlist.fileEntries_eq hbelow hplace⟩⟩) ?_ 5
    (show 1 ≤ Numeral.value (.number 2) by decide)
  rintro a b ⟨nodeA, hnodeA, -⟩ ⟨nodeB, hnodeB, -⟩ hway hlower
  rw [hway] at hnodeA
  exact hlist.distinct _ _ _ nodeA nodeB (List.prefix_append _ _) hnodeA hnodeB hlower

end Directory

end Folio
