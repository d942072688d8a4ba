import Folio.FileTree
import Mathlib.Tactic

/-!
# Sound file trees

A tree is sound if it could be the tree of an operating system: every place has
one entry, every entry stands in a directory, and no name is empty, a dot, two
dots or has a slash or a null character in it.  Above an entry of a sound tree there are directories
only, so the way to it meets no link.

Looking a place up, resolving it and listing what is below it are described here
for such trees, and so is what remains sound when an entry is put into a tree.
What is listed is put in order by a text; the order is one and the same for all
lists with the same members.
-/

namespace Folio

variable {parts place here rest : List Name} {name part : Name} {node : Node} {content : Content}
  {tree tree' : FileTree} {path : Path}

/-! ## Sorting by a text -/

section Sorting

variable {α : Type} (key : α → Text)

theorem pairwise_mergeSort_key (items : List α) :
    (items.mergeSort fun a b => !(key b < key a)).Pairwise fun a b => ¬ key b < key a := by
  have htrans : ∀ a b c : α, (!(key b < key a : Bool)) = true →
      (!(key c < key b : Bool)) = true → (!(key c < key a : Bool)) = true := by
    intro a b c hab hbc
    simp only [Bool.not_eq_true', decide_eq_false_iff_not, List.not_lt] at *
    exact List.le_trans hab hbc
  have htotal : ∀ a b : α, (!(key b < key a : Bool) || !(key a < key b : Bool)) = true := by
    intro a b
    simp only [Bool.or_eq_true, Bool.not_eq_true', decide_eq_false_iff_not, List.not_lt]
    exact List.le_total _ _
  refine (List.pairwise_mergeSort htrans htotal items).imp fun hle => ?_
  simpa using hle

variable {key}

theorem eq_of_pairwise_key {first second : List α}
    (hfirst : first.Pairwise fun a b => ¬ key b < key a)
    (hsecond : second.Pairwise fun a b => ¬ key b < key a)
    (hkeys : ∀ a ∈ first, ∀ b ∈ first, key a = key b → a = b)
    (hperm : first.Perm second) : first = second := by
  refine hperm.eq_of_pairwise (fun a b ha hb hab hba => ?_) hfirst hsecond
  apply hkeys a ha b (hperm.mem_iff.mpr hb)
  exact List.le_antisymm (List.not_lt.mp hab) (List.not_lt.mp hba)

theorem mergeSort_key_congr {first second : List α} (hfirst : first.Nodup) (hsecond : second.Nodup)
    (hmem : ∀ a, a ∈ first ↔ a ∈ second) (hkeys : ∀ a ∈ first, ∀ b ∈ first, key a = key b → a = b) :
    (first.mergeSort fun a b => !(key b < key a)) =
      second.mergeSort fun a b => !(key b < key a) := by
  have hperm : first.Perm second := (List.perm_ext_iff_of_nodup hfirst hsecond).mpr hmem
  refine eq_of_pairwise_key (pairwise_mergeSort_key key first)
    (pairwise_mergeSort_key key second) ?_ ?_
  · intro a ha b hb
    rw [List.mem_mergeSort] at ha hb
    exact hkeys a ha b hb
  · exact (List.mergeSort_perm _ _).trans (hperm.trans (List.mergeSort_perm _ _).symm)

theorem nodup_eraseDups [DecidableEq α] (items : List α) : items.eraseDups.Nodup := by
  induction hlength : items.length using Nat.strong_induction_on generalizing items with
  | _ n ih =>
    cases items with
    | nil => simp
    | cons a items =>
      have hshort : (items.filter fun b => !b == a).length < n := by
        have hle := List.length_filter_le (fun b => !b == a) items
        rw [List.length_cons] at hlength
        omega
      rw [List.eraseDups_cons, List.nodup_cons, List.mem_eraseDups]
      exact ⟨by simp, ih _ hshort _ rfl⟩

end Sorting

/-- A name that is read as one part of a path. -/
structure Name.Plain (name : Name) : Prop where
  nonempty : name ≠ ""
  notHere : name ≠ "."
  noSlash : '/' ∉ name.toList

/-- A name that an entry may have. -/
structure Name.Proper (name : Name) : Prop extends Name.Plain name where
  notUp : name ≠ ".."
  noNull : '\x00' ∉ name.toList

instance : DecidablePred Name.Proper := fun name =>
  decidable_of_iff ((name ≠ "" ∧ name ≠ "." ∧ '/' ∉ name.toList) ∧
      name ≠ ".." ∧ '\x00' ∉ name.toList)
    ⟨fun h => ⟨⟨h.1.1, h.1.2.1, h.1.2.2⟩, h.2.1, h.2.2⟩,
      fun h => ⟨⟨h.nonempty, h.notHere, h.noSlash⟩, h.notUp, h.noNull⟩⟩

/-! ## Paths in writing -/

section Writing

variable {separator : Char}

theorem splitAll_go_append {t : Text} (ht : separator ∉ t) (piece : Text) (pieces : List Text)
    (rest : Text) : Text.splitAll.go separator piece pieces (t ++ rest) =
      Text.splitAll.go separator (t.reverse ++ piece) pieces rest := by
  induction t generalizing piece with
  | nil => rfl
  | cons c t ih =>
    rw [List.mem_cons, not_or] at ht
    have hc : (c == separator) = false := beq_eq_false_iff_ne.mpr (Ne.symm ht.1)
    rw [List.cons_append, Text.splitAll.go, hc, List.reverse_cons, List.append_assoc]
    exact ih ht.2 (c :: piece)

theorem splitAll_joinWith {parts : List Text} (hne : parts ≠ [])
    (hparts : ∀ part ∈ parts, separator ∉ part) :
    Text.splitAll separator (Text.joinWith [separator] parts) = parts := by
  have hgo : ∀ pieces : List Text, Text.splitAll.go separator [] pieces
        (Text.joinWith [separator] parts) = pieces.reverse ++ parts := by
    induction parts with
    | nil => exact absurd rfl hne
    | cons part parts ih =>
      intro pieces
      have hpart := hparts part (by simp)
      cases parts with
      | nil =>
        have hgo := splitAll_go_append hpart [] pieces []
        simpa [Text.joinWith, Text.splitAll.go] using hgo
      | cons next parts =>
        have hjoin : Text.joinWith [separator] (part :: next :: parts) =
            part ++ separator :: Text.joinWith [separator] (next :: parts) := by
          simp [Text.joinWith, List.intercalate]
        rw [hjoin, splitAll_go_append hpart, Text.splitAll.go, if_pos (by simp),
          ih (by simp) fun p hp => hparts p (List.mem_cons_of_mem _ hp)]
        simp
  exact hgo []

theorem WrittenPath.filter_plain (hplain : ∀ name ∈ parts, Name.Plain name) :
    (parts.map String.toList).filter (fun part =>
      !part.isEmpty && part != ['.']) = parts.map String.toList := by
  rw [List.filter_eq_self]
  intro part hpart
  obtain ⟨name, hname, rfl⟩ := List.mem_map.mp hpart
  have hempty : name.toList ≠ [] := by simpa using (hplain name hname).nonempty
  have hdot : name.toList ≠ ['.'] := fun heq =>
    (hplain name hname).notHere (String.toList_inj.mp heq)
  simp [hempty, hdot]

theorem WrittenPath.ofText_text (hplain : ∀ name ∈ parts, Name.Plain name) :
    ofText (text ⟨false, parts⟩) = ⟨false, parts⟩ := by
  cases parts with
  | nil => decide
  | cons first rest =>
    have hsplit : Text.splitAll '/' (Text.joinWith ['/'] ((first :: rest).map String.toList)) =
          (first :: rest).map String.toList := by
      refine splitAll_joinWith (by simp) ?_
      intro part hpart
      obtain ⟨name, hname, rfl⟩ := List.mem_map.mp hpart
      exact (hplain name hname).noSlash
    have hhead : (Text.joinWith ['/'] ((first :: rest).map String.toList)).head? ≠ some '/' := by
      have hfirst := hplain first (by simp)
      cases hchars : first.toList with
      | nil => exact absurd (by simpa using hchars) hfirst.nonempty
      | cons c chars =>
        have hc : c ≠ '/' := by
          rintro rfl
          exact hfirst.noSlash (by simp [hchars])
        cases rest <;> simpa [Text.joinWith, List.intercalate, hchars] using hc
    have htext : text ⟨false, first :: rest⟩ =
        Text.joinWith ['/'] ((first :: rest).map String.toList) := rfl
    unfold ofText
    rw [htext, hsplit, filter_plain hplain, beq_eq_false_iff_ne.mpr hhead]
    simp

theorem Path.inside_inj {folder p q : Path} (hp : folder.parts <+: p.parts)
    (hq : folder.parts <+: q.parts) (hpnames : ∀ name ∈ p.parts, Name.Plain name)
    (hqnames : ∀ name ∈ q.parts, Name.Plain name)
    (hinside : p.inside folder = q.inside folder) : p = q := by
  have hback : ∀ r : Path, (∀ name ∈ r.parts, Name.Plain name) →
      WrittenPath.ofText (r.inside folder) =
        ⟨false, r.parts.drop folder.parts.length⟩ := fun r hr =>
    WrittenPath.ofText_text fun name hname => hr name (List.mem_of_mem_drop hname)
  have hdrop : p.parts.drop folder.parts.length = q.parts.drop folder.parts.length := by
    have hparts := congrArg WrittenPath.ofText hinside
    rw [hback p hpnames, hback q hqnames] at hparts
    exact congrArg WrittenPath.parts hparts
  have hparts : p.parts = q.parts := by
    rw [← List.prefix_iff_eq_append.mp hp, ← List.prefix_iff_eq_append.mp hq, hdrop]
  exact congrArg Path.mk hparts

end Writing

/-- Is a path short enough to be looked up, and so are its names? -/
def Path.fits (path : Path) : Bool :=
  decide ((String.ofList path.text).utf8ByteSize ≤ FileTree.maxPathBytes) &&
    path.parts.all FileTree.nameFits

theorem Path.text_eq_flatMap (hne : parts ≠ []) :
    Path.text ⟨parts⟩ = parts.flatMap fun name => '/' :: name.toList := by
  change '/' :: Text.joinWith ['/'] (parts.map String.toList) = _
  induction parts with
  | nil => exact absurd rfl hne
  | cons name parts ih =>
    cases parts with
    | nil => simp [Text.joinWith]
    | cons next parts =>
      rw [List.flatMap_cons, ← ih (by simp), Text.joinWith, List.map_cons, List.map_cons,
        List.intercalate_cons_cons]
      simp [Text.joinWith]

theorem Path.fits_child_of_isPrefix {p q : Path} (hbelow : p.parts <+: q.parts)
    (hfits : (q.child name).fits = true) : (p.child name).fits = true := by
  obtain ⟨rest, hrest⟩ := hbelow
  unfold fits at hfits ⊢
  rw [Bool.and_eq_true, decide_eq_true_eq] at hfits ⊢
  obtain ⟨hsize, hnames⟩ := hfits
  unfold child at hsize hnames ⊢
  rw [← hrest, text_eq_flatMap (by simp)] at hsize
  rw [text_eq_flatMap (by simp)]
  simp only [List.flatMap_append, String.ofList_append, String.utf8ByteSize_append, List.all_append,
    Bool.and_eq_true, ← hrest] at hsize hnames ⊢
  exact ⟨by omega, hnames.1.1, hnames.2⟩

namespace FileTree

structure Sound (tree : FileTree) : Prop where
  distinct : (tree.entries.map Prod.fst).Nodup
  nonempty : ∀ entry ∈ tree.entries, entry.1 ≠ []
  inDirectory : ∀ entry ∈ tree.entries, tree.node? entry.1.dropLast = some .directory
  named : ∀ entry ∈ tree.entries, ∀ name ∈ entry.1, Name.Proper name

instance : DecidablePred Sound := fun tree =>
  decidable_of_iff ((tree.entries.map Prod.fst).Nodup ∧
      (∀ entry ∈ tree.entries, entry.1 ≠ []) ∧
      (∀ entry ∈ tree.entries, tree.node? entry.1.dropLast = some .directory) ∧
      ∀ entry ∈ tree.entries, ∀ name ∈ entry.1, Name.Proper name)
    ⟨fun h => ⟨h.1, h.2.1, h.2.2.1, h.2.2.2⟩,
      fun h => ⟨h.distinct, h.nonempty, h.inDirectory, h.named⟩⟩

/-! ## Entries -/

theorem node?_nil (tree : FileTree) : tree.node? [] = some .directory := rfl

theorem node?_of_ne_nil (tree : FileTree)
    (hplace : place ≠ []) : tree.node? place = tree.entries.lookup place := by
  unfold node?
  rw [if_neg (by simpa using hplace)]

theorem mem_entries_of_node? (hnode : tree.node? place = some node) (hplace : place ≠ []) :
    (place, node) ∈ tree.entries := by
  rw [node?_of_ne_nil tree hplace] at hnode
  obtain ⟨before, after, hentries, -⟩ := List.lookup_eq_some_iff.mp hnode
  simp [hentries]

theorem lookup_of_mem {α β : Type} [BEq α] [LawfulBEq α] {entries : List (α × β)} {place : α}
    {node : β} (hdistinct : (entries.map Prod.fst).Nodup)
    (hmem : (place, node) ∈ entries) : entries.lookup place = some node := by
  induction entries with
  | nil => simp at hmem
  | cons entry entries ih =>
    rw [List.map_cons, List.nodup_cons] at hdistinct
    rcases List.mem_cons.mp hmem with rfl | hmem
    · simp
    · have hne : (place == entry.1) = false := by
        rw [beq_eq_false_iff_ne]
        rintro rfl
        exact hdistinct.1 (List.mem_map.mpr ⟨_, hmem, rfl⟩)
      rw [List.lookup_cons, hne]
      exact ih hdistinct.2 hmem

theorem Sound.node?_of_mem (hsound : tree.Sound)
    (hmem : (place, node) ∈ tree.entries) : tree.node? place = some node := by
  rw [node?_of_ne_nil tree (hsound.nonempty _ hmem)]
  exact lookup_of_mem hsound.distinct hmem

theorem Sound.directory_above (hsound : tree.Sound) {above : List Name}
    (hnode : tree.node? place = some node) (habove : above <+: place)
    (hne : above ≠ place) : tree.node? above = some .directory := by
  obtain ⟨rest, rfl⟩ := habove
  induction rest using List.reverseRecOn generalizing node with
  | nil => simp at hne
  | append_singleton rest name ih =>
    have hmem := mem_entries_of_node? hnode (by simp)
    have hparent := hsound.inDirectory _ hmem
    rw [← List.append_assoc, List.dropLast_concat] at hparent
    by_cases hrest : rest = []
    · subst hrest
      simpa using hparent
    · exact ih hparent (by simpa using hrest)

theorem Sound.named_of_node? (hsound : tree.Sound)
    (hnode : tree.node? place = some node) : ∀ name ∈ place, Name.Proper name := by
  by_cases hplace : place = []
  · simp [hplace]
  · exact hsound.named _ (mem_entries_of_node? hnode hplace)

/-! ## Putting entries into a tree -/

theorem lookup_filter_key (entries : List (List Name × Node)) (keep : List Name → Bool)
    (other : List Name) : (entries.filter fun entry => keep entry.1).lookup other =
      if keep other then entries.lookup other else none := by
  induction entries with
  | nil => simp
  | cons entry entries ih =>
    obtain ⟨key, node⟩ := entry
    cases hkeep : keep key with
    | true =>
      rw [List.filter_cons_of_pos (by simpa using hkeep), List.lookup_cons, List.lookup_cons, ih]
      by_cases hkey : other = key
      · rw [hkey, beq_self_eq_true, hkeep]
        rfl
      · rw [beq_eq_false_iff_ne.mpr hkey]
    | false =>
      rw [List.filter_cons_of_neg (by simp [hkeep]), ih, List.lookup_cons]
      by_cases hkey : other = key
      · rw [hkey, hkeep]
        rfl
      · rw [beq_eq_false_iff_ne.mpr hkey]

theorem node?_put_self (tree : FileTree) (node : Node)
    (hplace : place ≠ []) : (tree.put place node).node? place = some node := by
  have hnone : (tree.entries.filter (·.1 != place)).lookup place = none := by
    rw [lookup_filter_key _ (· != place), if_neg (by simp)]
  rw [node?_of_ne_nil _ hplace, put, List.lookup_append, hnone]
  simp

theorem node?_put_of_ne (tree : FileTree) {other : List Name} (node : Node)
    (hne : other ≠ place) : (tree.put place node).node? other = tree.node? other := by
  by_cases hother : other = []
  · subst hother
    rfl
  · have hlast : (other == place) = false := by simpa using hne
    rw [node?_of_ne_nil _ hother, node?_of_ne_nil _ hother, put, List.lookup_append,
      lookup_filter_key _ (· != place), if_pos (by simpa using hne)]
    simp [List.lookup_cons, hlast]

theorem mem_entries_put {entry : List Name × Node} : entry ∈ (tree.put place node).entries ↔
      entry ∈ tree.entries ∧ entry.1 ≠ place ∨ entry = (place, node) := by
  simp [put]

theorem Sound.put (hsound : tree.Sound) (hname : Name.Proper name)
    (hparent : tree.node? place = some .directory)
    (hkept : node = .directory ∨ tree.node? (place ++ [name]) ≠ some .directory) :
    (tree.put (place ++ [name]) node).Sound := by
  -- A directory of the old tree is one of the new tree.
  have hdirectory : ∀ other, tree.node? other = some .directory →
      (tree.put (place ++ [name]) node).node? other = some .directory := by
    intro other hother
    by_cases heq : other = place ++ [name]
    · rcases hkept with rfl | hkept
      · rw [heq, node?_put_self _ _ (by simp)]
      · exact absurd (heq ▸ hother) hkept
    · rw [node?_put_of_ne _ _ heq, hother]
  refine ⟨?_, ?_, ?_, ?_⟩
  · have hfilter : ((tree.entries.filter (·.1 != place ++ [name])).map Prod.fst).Nodup :=
      hsound.distinct.sublist (List.filter_sublist.map Prod.fst)
    simp only [FileTree.put, List.map_append, List.map_cons, List.map_nil]
    rw [List.nodup_append]
    refine ⟨hfilter, by simp, ?_⟩
    intro old hold new hnew
    obtain ⟨entry, hentry, rfl⟩ := List.mem_map.mp hold
    rw [List.mem_singleton.mp hnew]
    simpa using (List.mem_filter.mp hentry).2
  · intro entry hentry
    rcases mem_entries_put.mp hentry with ⟨hold, -⟩ | rfl
    · exact hsound.nonempty entry hold
    · simp
  · intro entry hentry
    rcases mem_entries_put.mp hentry with ⟨hold, -⟩ | rfl
    · exact hdirectory _ (hsound.inDirectory entry hold)
    · rw [List.dropLast_concat]
      exact hdirectory _ hparent
  · intro entry hentry
    rcases mem_entries_put.mp hentry with ⟨hold, -⟩ | rfl
    · exact hsound.named entry hold
    · intro other hother
      rcases List.mem_append.mp hother with hother | hother
      · exact hsound.named_of_node? hparent other hother
      · rwa [List.mem_singleton.mp hother]

theorem node?_remove (tree : FileTree) (hplace : place ≠ [])
    (other : List Name) : (tree.remove place).node? other =
      if place <+: other then none else tree.node? other := by
  by_cases hother : other = []
  · have hnot : ¬ place <+: other := by
      rw [hother, List.prefix_nil]
      exact hplace
    rw [if_neg hnot, hother, node?_nil, node?_nil]
  · rw [node?_of_ne_nil _ hother, node?_of_ne_nil _ hother]
    refine (lookup_filter_key tree.entries (fun p => !place.isPrefixOf p) other).trans ?_
    by_cases hbelow : place <+: other
    · rw [if_pos hbelow, if_neg (by simpa using hbelow)]
    · rw [if_neg hbelow, if_pos (by simpa [← Bool.not_eq_true] using hbelow)]

theorem Sound.remove (hsound : tree.Sound) (hplace : place ≠ []) : (tree.remove place).Sound := by
  have hsub : (tree.remove place).entries.Sublist tree.entries := List.filter_sublist
  refine ⟨hsound.distinct.sublist (hsub.map _),
    fun entry hentry => hsound.nonempty entry (hsub.subset hentry), ?_,
    fun entry hentry => hsound.named entry (hsub.subset hentry)⟩
  intro entry hentry
  have hstays : ¬ place <+: entry.1 := by
    have hkept := (List.mem_filter.mp hentry).2
    rwa [Bool.not_eq_true', ← Bool.not_eq_true, List.isPrefixOf_iff_prefix] at hkept
  rw [node?_remove tree hplace, if_neg fun habove =>
    hstays (habove.trans (List.dropLast_prefix _))]
  exact hsound.inDirectory entry (hsub.subset hentry)

/-! ## The way to an entry -/

section Walking

variable {new : Bool}
  {onLink : List Name → Text → List Name → Except SystemReason (List Name)}

theorem advance_cons (hdirectory : tree.node? here = some .directory) (hpart : Name.Proper part)
    (hfits : nameFits part = true) (hnode : tree.node? (here ++ [part]) = some node)
    (hlink : node.isLink = false) : advance tree new onLink here (part :: rest) =
      advance tree new onLink (here ++ [part]) rest := by
  rw [advance, hdirectory]
  simp only [beq_eq_false_iff_ne.mpr hpart.notHere, beq_eq_false_iff_ne.mpr hpart.notUp, hfits,
    hnode]
  cases node with
  | link target => cases hlink
  | directory => rfl
  | file content => rfl

theorem advance_missing (hdirectory : tree.node? here = some .directory) (hpart : Name.Proper part)
    (hfits : nameFits part = true)
    (hnode : tree.node? (here ++ [part]) = none) : advance tree new onLink here [part] =
      if new then .ok (here ++ [part]) else .error .missing := by
  rw [advance, hdirectory]
  simp only [beq_eq_false_iff_ne.mpr hpart.notHere, beq_eq_false_iff_ne.mpr hpart.notUp, hfits,
    hnode]
  cases new <;> rfl

theorem advance_nameTooLong (hdirectory : tree.node? here = some .directory)
    (hpart : Name.Proper part) (hfits : nameFits part = false) :
    advance tree new onLink here (part :: rest) = .error .nameTooLong := by
  rw [advance, hdirectory]
  simp only [beq_eq_false_iff_ne.mpr hpart.notHere, beq_eq_false_iff_ne.mpr hpart.notUp, hfits]
  rfl

section

variable (hsound : tree.Sound)

include hsound

theorem Sound.advance_append (hnode : tree.node? place = some node)
    (hlink : node.isLink = false) (rest : List Name) : advance tree new onLink [] (place ++ rest) =
      if place.all nameFits then advance tree new onLink place rest
      else .error .nameTooLong := by
  induction place using List.reverseRecOn generalizing node rest with
  | nil => rfl
  | append_singleton place name ih =>
    have hplace : tree.node? place = some .directory :=
      hsound.directory_above hnode (List.prefix_append _ _) (by simp)
    have hname : Name.Proper name := hsound.named_of_node? hnode name (by simp)
    rw [List.append_assoc, List.singleton_append, ih hplace rfl]
    by_cases hfits : nameFits name = true
    · rw [advance_cons hplace hname hfits hnode hlink]
      simp [hfits]
    · rw [advance_nameTooLong hplace hname (by simpa using hfits)]
      simp [hfits]

theorem Sound.walkPath_append (hnode : tree.node? place = some node)
    (hlink : node.isLink = false) {found : Except SystemReason (List Name)}
    (hrest : ∀ onLink, advance tree new onLink place rest = found)
    (hfits : rest.all nameFits = true) : tree.walkPath new ⟨place ++ rest⟩ =
      if Path.fits ⟨place ++ rest⟩ then found else .error .nameTooLong := by
  unfold walkPath Path.fits
  by_cases hsize : maxPathBytes < (String.ofList (Path.text ⟨place ++ rest⟩)).utf8ByteSize
  · rw [if_pos hsize, decide_eq_false (by omega)]
    rfl
  · rw [if_neg hsize, decide_eq_true (by omega), Bool.true_and]
    change advance tree new _ [] (place ++ rest) = _
    rw [hsound.advance_append hnode hlink rest, hrest, List.all_append, hfits, Bool.and_true]

theorem Sound.walkPath_entry (hnode : tree.node? path.parts = some node)
    (hlink : node.isLink = false) :
    tree.walkPath new path = if path.fits then .ok path.parts else .error .nameTooLong := by
  have hwalk : tree.walkPath new ⟨path.parts ++ []⟩ =
      if Path.fits ⟨path.parts ++ []⟩ then .ok path.parts
      else .error .nameTooLong := hsound.walkPath_append hnode hlink (fun _ => rfl) rfl
  rwa [List.append_nil] at hwalk

theorem Sound.walkPath_missing
    (hdirectory : tree.node? place = some .directory) (hname : Name.Proper name)
    (hnode : tree.node? (place ++ [name]) = none) :
    tree.walkPath new ⟨place ++ [name]⟩ = if Path.fits ⟨place ++ [name]⟩ then
        if new then .ok (place ++ [name]) else .error .missing
      else .error .nameTooLong := by
  by_cases hfits : nameFits name = true
  · exact hsound.walkPath_append hdirectory rfl
      (fun _ => advance_missing hdirectory hname hfits hnode) (by simpa)
  · have hpath : Path.fits ⟨place ++ [name]⟩ = false := by simp [Path.fits, hfits]
    rw [hpath]
    unfold walkPath
    split
    · rfl
    · change advance tree new _ [] (place ++ [name]) = _
      rw [hsound.advance_append hdirectory rfl,
        advance_nameTooLong hdirectory hname (by simpa using hfits)]
      split <;> rfl

theorem Sound.walkPath_below_file (hnode : tree.node? place = some (.file content))
    (hfits : nameFits name = true) : tree.walkPath new ⟨place ++ [name]⟩ =
      if Path.fits ⟨place ++ [name]⟩ then .error .notDirectory
      else .error .nameTooLong := by
  refine hsound.walkPath_append hnode rfl ?_ (by simpa)
  intro onLink
  rw [advance, hnode]

/-! ## Questions about a path -/

theorem Sound.test_entry (hnode : tree.node? path.parts = some node)
    (hlink : node.isLink = false) (p : Node → Bool) :
    tree.test p path = if path.fits then .ok (p node) else .error ⟨.nameTooLong, path.text⟩ := by
  unfold test follow locate
  rw [hsound.walkPath_entry hnode hlink]
  cases path.fits
  · rfl
  · simp [bind, Except.bind, hnode]

theorem Sound.isFile?_file (hnode : tree.node? path.parts = some (.file content))
    (hfits : path.fits = true) : tree.isFile? path = .ok true := by
  unfold isFile?
  rw [hsound.test_entry hnode rfl, if_pos hfits]

theorem Sound.isFile?_directory (hnode : tree.node? path.parts = some .directory)
    (hfits : path.fits = true) : tree.isFile? path = .ok false := by
  unfold isFile?
  rw [hsound.test_entry hnode rfl, if_pos hfits]

theorem Sound.isDirectory?_directory (hnode : tree.node? path.parts = some .directory)
    (hfits : path.fits = true) : tree.isDirectory? path = .ok true := by
  unfold isDirectory?
  rw [hsound.test_entry hnode rfl, if_pos hfits]

theorem Sound.test_missing (hdirectory : tree.node? place = some .directory)
    (hname : Name.Proper name) (hnode : tree.node? (place ++ [name]) = none) (p : Node → Bool) :
    tree.test p ⟨place ++ [name]⟩ = if Path.fits ⟨place ++ [name]⟩ then .ok false
      else .error ⟨.nameTooLong, Path.text ⟨place ++ [name]⟩⟩ := by
  unfold test follow locate
  rw [hsound.walkPath_missing hdirectory hname hnode]
  cases Path.fits ⟨place ++ [name]⟩ <;> rfl

theorem Sound.test_below_file
    (hnode : tree.node? place = some (.file content)) (hfits : nameFits name = true)
    (p : Node → Bool) : tree.test p ⟨place ++ [name]⟩ =
      if Path.fits ⟨place ++ [name]⟩ then .ok false
      else .error ⟨.nameTooLong, Path.text ⟨place ++ [name]⟩⟩ := by
  unfold test follow locate
  rw [hsound.walkPath_below_file hnode hfits]
  cases Path.fits ⟨place ++ [name]⟩ <;> rfl

end

theorem isDirectory?_pathTooLong (hlong : maxPathBytes < (String.ofList path.text).utf8ByteSize) :
    tree.isDirectory? path = .error ⟨.nameTooLong, path.text⟩ := by
  unfold isDirectory? test follow locate walkPath
  rw [if_pos hlong]
  rfl

theorem Sound.read_file (hsound : tree.Sound) (hnode : tree.node? path.parts = some (.file content))
    (hfits : path.fits = true) : tree.read path = .ok content := by
  unfold read follow locate
  rw [hsound.walkPath_entry hnode rfl, hfits]
  simp [bind, Except.bind, hnode]

/-! ## Changes at a path -/

theorem Sound.write_eq_ok_iff (hsound : tree.Sound)
    (hdirectory : tree.node? place = some .directory) (hname : Name.Proper name)
    (hnode : tree.node? (place ++ [name]) = none ∨
      ∃ content, tree.node? (place ++ [name]) = some (.file content))
    {t : Text} : tree.write ⟨place ++ [name]⟩ t = .ok tree' ↔ Path.fits ⟨place ++ [name]⟩ = true ∧
        tree' = tree.put (place ++ [name]) (.file (.text t)) := by
  have hwalk : tree.destination ⟨place ++ [name]⟩ =
      if Path.fits ⟨place ++ [name]⟩ then .ok (place ++ [name])
      else .error .nameTooLong := by
    rcases hnode with hnone | ⟨content, hfile⟩
    · exact hsound.walkPath_missing hdirectory hname hnone
    · exact hsound.walkPath_entry hfile rfl
  unfold write
  rw [hwalk]
  cases Path.fits ⟨place ++ [name]⟩ with
  | false => simp
  | true =>
    rcases hnode with hnone | ⟨content, hfile⟩
    · simp [hnone, eq_comm]
    · simp [hfile, eq_comm]

theorem Sound.makeDirectory_eq_ok_iff (hsound : tree.Sound)
    (hdirectory : tree.node? place = some .directory) (hname : Name.Proper name)
    (hnode : tree.node? (place ++ [name]) = none) :
    tree.makeDirectory ⟨place ++ [name]⟩ = .ok tree' ↔
      Path.fits ⟨place ++ [name]⟩ = true ∧ Path.fits ⟨place⟩ = true ∧
        tree' = tree.put (place ++ [name]) .directory := by
  have hlast : Path.name ⟨place ++ [name]⟩ = name := by simp [Path.name]
  have hparent : Path.parent ⟨place ++ [name]⟩ = ⟨place⟩ := by simp [Path.parent]
  have habove : tree.locate ⟨place⟩ =
      if Path.fits ⟨place⟩ then .ok place else .error .nameTooLong :=
    hsound.walkPath_entry hdirectory rfl
  have hwalk : tree.locate ⟨place ++ [name]⟩ = if Path.fits ⟨place ++ [name]⟩ then .error .missing
      else .error .nameTooLong := hsound.walkPath_missing hdirectory hname hnode
  unfold makeDirectory
  rw [hwalk, hparent, habove, hlast]
  cases Path.fits ⟨place ++ [name]⟩ <;> cases Path.fits ⟨place⟩ <;> simp [hnode, eq_comm]

theorem Sound.makeDirectory_entry (hsound : tree.Sound)
    (hnode : tree.node? (place ++ [name]) = some node) (hlink : node.isLink = false) :
    tree.makeDirectory ⟨place ++ [name]⟩ = .ok tree' → node = .directory ∧ tree' = tree := by
  have hlast : Path.name ⟨place ++ [name]⟩ = name := by simp [Path.name]
  have hparent : Path.parent ⟨place ++ [name]⟩ = ⟨place⟩ := by simp [Path.parent]
  have hdirectory : tree.node? place = some .directory :=
    hsound.directory_above hnode (List.prefix_append _ _) (by simp)
  have habove : tree.locate ⟨place⟩ =
      if Path.fits ⟨place⟩ then .ok place else .error .nameTooLong :=
    hsound.walkPath_entry hdirectory rfl
  have hwalk : tree.locate ⟨place ++ [name]⟩ =
      if Path.fits ⟨place ++ [name]⟩ then .ok (place ++ [name])
      else .error .nameTooLong := hsound.walkPath_entry hnode hlink
  unfold makeDirectory
  rw [hwalk, hparent, habove, hlast]
  cases Path.fits ⟨place ++ [name]⟩ <;> cases Path.fits ⟨place⟩ <;> cases node <;>
    simp [hnode, eq_comm]

theorem Sound.write_directory (hsound : tree.Sound)
    (hnode : tree.node? path.parts = some .directory) (t : Text)
    (tree' : FileTree) : tree.write path t ≠ .ok tree' := by
  have hwalk : tree.destination path = if path.fits then .ok path.parts else .error .nameTooLong :=
    hsound.walkPath_entry hnode rfl
  unfold write
  rw [hwalk]
  cases path.fits <;> simp [hnode]

end Walking

/-! ## Directories that are made -/

theorem node?_ensureDirectory_of_ne (tree : FileTree) {other : List Name}
    (hne : other ≠ place) : (tree.ensureDirectory place).node? other = tree.node? other := by
  unfold ensureDirectory
  split
  · rfl
  · exact node?_put_of_ne tree _ hne

theorem node?_ensureDirectory_self (hplace : place ≠ [])
    (hnode : tree.node? place = none ∨ tree.node? place = some .directory) :
    (tree.ensureDirectory place).node? place = some .directory := by
  unfold ensureDirectory
  rcases hnode with hnone | hdirectory
  · rw [hnone]
    exact node?_put_self tree _ hplace
  · rw [hdirectory]
    exact hdirectory

theorem Sound.ensureDirectory (hsound : tree.Sound) (hname : Name.Proper name)
    (hdirectory : tree.node? place = some .directory) :
    (tree.ensureDirectory (place ++ [name])).Sound := by
  unfold FileTree.ensureDirectory
  split
  · exact hsound
  · exact hsound.put hname hdirectory (.inl rfl)

/-! ## Resolved paths -/

def Straight (tree : FileTree) (place : List Name) : Prop :=
  ∀ above target, above <+: place → tree.node? above ≠ some (.link target)

theorem Straight.above {place above : List Name} (hstraight : tree.Straight place)
    (habove : above <+: place) : tree.Straight above :=
  fun higher target hhigher => hstraight higher target (hhigher.trans habove)

theorem Straight.resolveParts {onLink : List Name → Text → Except (List Name) (List Name)}
    (hstraight : tree.Straight (here ++ rest)) (hrest : ∀ name ∈ rest, name ≠ "..") :
    resolveParts tree onLink here rest = .ok (here ++ rest) := by
  induction rest generalizing here with
  | nil =>
    rw [List.append_nil]
    rfl
  | cons part rest ih =>
    have hnext : FileTree.resolveParts tree onLink (here ++ [part]) rest =
        .ok (here ++ part :: rest) := by
      rw [List.append_cons here part rest] at hstraight ⊢
      exact ih hstraight fun name hname => hrest name (by simp [hname])
    have hpart : (part == "..") = false := beq_eq_false_iff_ne.mpr (hrest part (by simp))
    rw [FileTree.resolveParts]
    simp only [hpart]
    cases hnode : tree.node? (here ++ [part]) with
    | none => exact hnext
    | some node =>
      cases node with
      | link target => exact absurd hnode (hstraight _ target (by simp))
      | directory => exact hnext
      | file content => exact hnext

theorem Straight.resolve (hstraight : tree.Straight path.parts)
    (hnames : ∀ name ∈ path.parts, name ≠ "..") : tree.resolve path = .path path := by
  have hplace : resolveFrom tree (tree.linkCount + 1) [] [] path.parts =
      .ok path.parts := @Straight.resolveParts [] path.parts tree _ hstraight hnames
  unfold FileTree.resolve
  rw [hplace]

theorem Sound.straight (hsound : tree.Sound) (hnode : tree.node? place = some node)
    (hlink : node.isLink = false) : tree.Straight place := by
  intro above target habove htarget
  by_cases hsame : above = place
  · subst hsame
    rw [hnode] at htarget
    cases htarget
    cases hlink
  · rw [hsound.directory_above hnode habove hsame] at htarget
    cases htarget

theorem Sound.resolve_entry (hsound : tree.Sound) (hnode : tree.node? path.parts = some node)
    (hlink : node.isLink = false) : tree.resolve path = .path path :=
  (hsound.straight hnode hlink).resolve fun name hname =>
    (hsound.named_of_node? hnode name hname).notUp

/-! ## Paths into a folder without links -/

def LinkFree (tree : FileTree) (place : List Name) : Prop :=
  ∀ below target, place <+: below → tree.node? below ≠ some (.link target)

theorem LinkFree.below {place below : List Name} (hfree : tree.LinkFree place)
    (hbelow : place <+: below) : tree.LinkFree below :=
  fun deeper target hdeeper => hfree deeper target (hbelow.trans hdeeper)

theorem LinkFree.isLink_eq_false {below : List Name} (hfree : tree.LinkFree place)
    (hnode : tree.node? below = some node) (hbelow : place <+: below) : node.isLink = false := by
  cases node with
  | link target => exact absurd hnode (hfree below target hbelow)
  | directory => rfl
  | file content => rfl

theorem Sound.node?_below_eq_none (hsound : tree.Sound)
    (hplace : tree.node? place ≠ some .directory)
    (hrest : rest ≠ []) : tree.node? (place ++ rest) = none := by
  cases hnode : tree.node? (place ++ rest) with
  | none => rfl
  | some node =>
    refine absurd (hsound.directory_above hnode (List.prefix_append _ _) ?_) hplace
    simpa using hrest

/-- Without links, a walk ends where it leads, or there is nothing, or a name on
the way is too long. -/
theorem Sound.advance_linkFree (hsound : tree.Sound)
    (onLink : List Name → Text → List Name → Except SystemReason (List Name))
    (hhere : tree.node? here = some node) (hfree : tree.LinkFree here)
    (hnamed : ∀ name ∈ rest, Name.Proper name) : (∃ last, tree.node? (here ++ rest) = some last ∧
      advance tree false onLink here rest = .ok (here ++ rest)) ∨
    (tree.node? (here ++ rest) = none ∧ ∃ reason, reason ≠ .nameTooLong ∧
      advance tree false onLink here rest = .error reason) ∨ (rest.all nameFits = false ∧
      advance tree false onLink here rest = .error .nameTooLong) := by
  induction rest generalizing here node with
  | nil =>
    rw [List.append_nil]
    exact .inl ⟨node, hhere, rfl⟩
  | cons part rest ih =>
    have hpart := hnamed part (by simp)
    cases node with
    | link target => exact absurd hhere (hfree here target (List.prefix_refl _))
    | file content =>
      refine .inr (.inl ⟨?_, .notDirectory, by decide, ?_⟩)
      · exact hsound.node?_below_eq_none (by simp [hhere]) (by simp)
      · rw [advance, hhere]
    | directory =>
      by_cases hfits : nameFits part = true
      · cases hnext : tree.node? (here ++ [part]) with
        | none =>
          refine .inr (.inl ⟨?_, .missing, by decide, ?_⟩)
          · by_cases hrest : rest = []
            · rw [hrest, hnext]
            · rw [List.append_cons]
              exact hsound.node?_below_eq_none (by simp [hnext]) hrest
          · rw [advance, hhere]
            simp only [beq_eq_false_iff_ne.mpr hpart.notHere, beq_eq_false_iff_ne.mpr hpart.notUp,
              hfits, hnext]
            rfl
        | some next =>
          have hlink := hfree.isLink_eq_false hnext (List.prefix_append _ _)
          rw [advance_cons hhere hpart hfits hnext hlink, List.append_cons, List.all_cons, hfits,
            Bool.true_and]
          exact ih hnext (hfree.below (List.prefix_append _ _))
            fun name hname => hnamed name (by simp [hname])
      · refine .inr (.inr ⟨by simp [hfits], ?_⟩)
        exact advance_nameTooLong hhere hpart (by simpa using hfits)

section InFolder

variable {root : Path}

/-- A question about a path in a folder without links is answered by what stands
there, unless the path is too long. -/
theorem Sound.test_linkFree (hsound : tree.Sound) (hroot : tree.node? root.parts = some .directory)
    (hfree : tree.LinkFree root.parts) (hbelow : root.parts <+: path.parts)
    (hnamed : ∀ name ∈ path.parts, Name.Proper name) (p : Node → Bool) :
    tree.test p path = .ok ((tree.node? path.parts).any p) ∨ path.fits = false ∧
        tree.test p path = .error ⟨.nameTooLong, path.text⟩ := by
  obtain ⟨parts⟩ := path
  obtain ⟨rest, rfl⟩ := hbelow
  have hlong : tree.locate ⟨root.parts ++ rest⟩ = .error .nameTooLong →
      tree.test p ⟨root.parts ++ rest⟩ = .error ⟨.nameTooLong, Path.text ⟨root.parts ++ rest⟩⟩ := by
    intro hlocate
    unfold test follow
    rw [hlocate]
    rfl
  by_cases hsize : maxPathBytes < (String.ofList (Path.text ⟨root.parts ++ rest⟩)).utf8ByteSize
  · refine .inr ⟨?_, hlong ?_⟩
    · unfold Path.fits
      rw [decide_eq_false (by omega), Bool.false_and]
    · unfold locate walkPath
      rw [if_pos hsize]
  · have hlocate : ∃ onLink, tree.locate ⟨root.parts ++ rest⟩ =
        if root.parts.all nameFits then advance tree false onLink root.parts rest
        else .error .nameTooLong := by
      unfold locate walkPath
      rw [if_neg hsize]
      exact ⟨_, hsound.advance_append hroot rfl rest⟩
    obtain ⟨onLink, hlocate⟩ := hlocate
    have hnames : Path.fits ⟨root.parts ++ rest⟩ =
        (root.parts.all nameFits && rest.all nameFits) := by
      unfold Path.fits
      rw [decide_eq_true (by omega), Bool.true_and, List.all_append]
    by_cases hrootFits : root.parts.all nameFits = true
    · rw [if_pos hrootFits] at hlocate
      have hrest : ∀ name ∈ rest, Name.Proper name :=
        fun name hname => hnamed name (by simp [hname])
      rcases hsound.advance_linkFree onLink hroot hfree hrest with
        ⟨last, hlast, hwalk⟩ | ⟨hnone, reason, hreason, hwalk⟩ | ⟨hfits, hwalk⟩
      · left
        unfold test follow
        rw [hlocate, hwalk]
        simp [bind, Except.bind, hlast]
      · left
        unfold test follow
        rw [hlocate, hwalk, hnone]
        cases reason <;> first | rfl | exact absurd rfl hreason
      · right
        rw [hnames, hfits, Bool.and_false]
        exact ⟨rfl, hlong (hlocate.trans hwalk)⟩
    · right
      rw [if_neg hrootFits] at hlocate
      rw [hnames, Bool.eq_false_of_not_eq_true hrootFits, Bool.false_and]
      exact ⟨rfl, hlong hlocate⟩

theorem Sound.isDirectory?_linkFree (hsound : tree.Sound)
    (hroot : tree.node? root.parts = some .directory) (hfree : tree.LinkFree root.parts)
    (hbelow : root.parts <+: path.parts) (hnamed : ∀ name ∈ path.parts, Name.Proper name)
    (hnot : tree.node? path.parts ≠ some .directory) : tree.isDirectory? path = .ok false ∨
      path.fits = false ∧ tree.isDirectory? path = .error ⟨.nameTooLong, path.text⟩ := by
  refine (hsound.test_linkFree hroot hfree hbelow hnamed _).imp_left fun hok => hok.trans ?_
  cases hnode : tree.node? path.parts with
  | none => rfl
  | some node =>
    cases node with
    | directory => exact absurd hnode hnot
    | file content => rfl
    | link target => rfl

theorem Sound.resolve_linkFree (hsound : tree.Sound)
    (hroot : tree.node? root.parts = some .directory) (hfree : tree.LinkFree root.parts)
    (hbelow : root.parts <+: path.parts)
    (hnamed : ∀ name ∈ path.parts, Name.Proper name) : tree.resolve path = .path path := by
  refine Straight.resolve (fun above target habove => ?_)
    fun name hname => (hnamed name hname).notUp
  rcases List.prefix_or_prefix_of_prefix habove hbelow with hup | hdown
  · exact hsound.straight hroot rfl above target hup
  · exact hfree above target hdown

end InFolder

/-! ## What is below a directory -/

section

variable (hsound : tree.Sound)

include hsound

theorem Sound.mem_below_iff {folder : Path} (hdirectory : tree.node? folder.parts = some .directory)
    (hfits : folder.fits = true) : path ∈ tree.below folder ↔
      (∃ node, tree.node? path.parts = some node) ∧
        folder.parts <+: path.parts ∧ path.parts ≠ folder.parts := by
  have hlocate : tree.locate folder = .ok folder.parts := by
    unfold locate
    rw [hsound.walkPath_entry hdirectory rfl, hfits]
    rfl
  unfold below
  rw [hlocate]
  simp only [hdirectory, List.mem_filterMap, Option.ite_none_right_eq_some, Bool.and_eq_true,
    bne_iff_ne, ne_eq, List.isPrefixOf_iff_prefix, Option.some.injEq, Prod.exists]
  constructor
  · rintro ⟨place, node, hmem, ⟨hbelow, hne⟩, rfl⟩
    obtain ⟨rest, rfl⟩ := hbelow
    rw [List.drop_left]
    exact ⟨⟨node, hsound.node?_of_mem hmem⟩, List.prefix_append _ _, fun h => hne h.symm⟩
  · rintro ⟨⟨node, hnode⟩, ⟨rest, hrest⟩, hne⟩
    have hplace : path.parts ≠ [] := by
      intro hnil
      rw [hnil] at hrest hne
      exact hne (by rw [(List.append_eq_nil_iff.mp hrest).1])
    refine ⟨path.parts, node, mem_entries_of_node? hnode hplace,
      ⟨⟨rest, hrest⟩, fun h => hne h.symm⟩, ?_⟩
    rw [← hrest, List.drop_left]
    exact congrArg Path.mk hrest

theorem Sound.locate_directory (hdirectory : tree.node? path.parts = some .directory)
    (hfits : path.fits = true) : tree.locate path = .ok path.parts := by
  unfold locate
  rw [hsound.walkPath_entry hdirectory rfl, if_pos hfits]

theorem Sound.mem_names_iff : name ∈ tree.names place ↔
      ∃ node, tree.node? (place ++ [name]) = some node := by
  unfold names
  simp only [List.mem_filterMap, Option.ite_none_right_eq_some, beq_iff_eq, Prod.exists]
  constructor
  · rintro ⟨key, node, hmem, hparent, hlast⟩
    have hkey : place ++ [name] = key := by
      rw [← hparent]
      exact List.dropLast_append_getLast? name hlast
    exact ⟨node, hkey ▸ hsound.node?_of_mem hmem⟩
  · rintro ⟨node, hnode⟩
    exact ⟨place ++ [name], node, mem_entries_of_node? hnode (by simp), by simp, by simp⟩

theorem Sound.nodup_names (place : List Name) : (tree.names place).Nodup := by
  unfold names
  change (tree.entries.filterMap ((fun key : List Name =>
    if key.dropLast == place then key.getLast? else none) ∘ Prod.fst)).Nodup
  rw [← List.filterMap_map]
  refine hsound.distinct.filterMap ?_
  intro p q name hp hq
  simp only [Option.mem_def, Option.ite_none_right_eq_some, beq_iff_eq] at hp hq
  rw [← List.dropLast_append_getLast? name hp.2, ← List.dropLast_append_getLast? name hq.2, hp.1,
    hq.1]

/-- A place is not deeper than the tree has entries, since those above it are
entries too. -/
theorem Sound.length_le (hnode : tree.node? place = some node) :
    place.length ≤ tree.entries.length := by
  have hsubset : (List.range place.length).map (fun i => place.take (i + 1)) ⊆
      tree.entries.map Prod.fst := by
    intro above habove
    obtain ⟨i, hi, rfl⟩ := List.mem_map.mp habove
    rw [List.mem_range] at hi
    have hne : place.take (i + 1) ≠ [] := by
      rw [Ne, List.take_eq_nil_iff]
      rintro (hzero | rfl)
      · omega
      · simp at hi
    by_cases hsame : place.take (i + 1) = place
    · exact List.mem_map_of_mem (mem_entries_of_node? (hsame.symm ▸ hnode) hne)
    · exact List.mem_map_of_mem (mem_entries_of_node?
        (hsound.directory_above hnode (List.take_prefix _ _) hsame) hne)
  have hnodup : ((List.range place.length).map fun i => place.take (i + 1)).Nodup := by
    refine List.Nodup.map_on ?_ List.nodup_range
    intro i hi j hj heq
    have hlength := congrArg List.length heq
    rw [List.mem_range] at hi hj
    rw [List.length_take, List.length_take] at hlength
    omega
  simpa using (hnodup.subperm hsubset).length_le

theorem Sound.nodup_below (folder : Path) : (tree.below folder).Nodup := by
  unfold below
  split
  · rename_i place hplace
    split
    · -- Two entries of one place are one, so only the places matter.
      change (tree.entries.filterMap ((fun key : List Name =>
        if place.isPrefixOf key && place != key then
          some (Path.mk (folder.parts ++ key.drop place.length))
        else none) ∘ Prod.fst)).Nodup
      rw [← List.filterMap_map]
      refine hsound.distinct.filterMap ?_
      intro p q path hp hq
      simp only [Option.mem_def, Option.ite_none_right_eq_some, Bool.and_eq_true,
        List.isPrefixOf_iff_prefix, Option.some.injEq] at hp hq
      obtain ⟨⟨⟨rest, rfl⟩, -⟩, rfl⟩ := hp
      obtain ⟨⟨⟨rest', rfl⟩, -⟩, hpath⟩ := hq
      simp only [List.drop_left, Path.mk.injEq, List.append_cancel_left_eq] at hpath
      rw [hpath]
    · simp
  · simp

end

end FileTree

end Folio
