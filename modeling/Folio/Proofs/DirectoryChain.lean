import Folio.Proofs.SoundTree

/-!
# Chains of directories

A path can be too long to be looked up though every name on it is short enough.
The sizes of paths are added up from their names here, and a chain of directories,
each in the one before, gives a tree for every path.
-/

namespace Folio

variable {place : List Name} {node : Node}

namespace Path

theorem utf8ByteSize_text {parts : List Name} (hne : parts ≠ []) :
    (String.ofList (Path.text ⟨parts⟩)).utf8ByteSize =
      (parts.map fun name => 1 + String.utf8ByteSize name).sum := by
  have hslash : String.utf8ByteSize (String.singleton '/') = 1 := by decide
  have hpieces : ∀ names : List Name, (String.ofList (names.flatMap fun name =>
        '/' :: name.toList)).utf8ByteSize =
          (names.map fun name => 1 + String.utf8ByteSize name).sum := by
    intro names
    induction names with
    | nil => rfl
    | cons name names ih =>
      rw [List.flatMap_cons, String.ofList_append, String.utf8ByteSize_append, ih,
        String.ofList_cons, String.utf8ByteSize_append, hslash, String.ofList_toList, List.map_cons,
        List.sum_cons]
  rw [text_eq_flatMap hne, hpieces]

theorem fits_iff {parts : List Name} (hne : parts ≠ []) : fits ⟨parts⟩ = true ↔
      (parts.map fun name => 1 + String.utf8ByteSize name).sum ≤ FileTree.maxPathBytes ∧
      ∀ name ∈ parts, String.utf8ByteSize name ≤ FileTree.maxNameBytes := by
  unfold fits
  rw [utf8ByteSize_text hne, Bool.and_eq_true, decide_eq_true_eq, List.all_eq_true]
  simp [FileTree.nameFits]

theorem fits_of_isPrefix {p q : Path} (habove : p.parts <+: q.parts)
    (hfits : q.fits = true) : p.fits = true := by
  by_cases hp : p.parts = []
  · obtain ⟨parts⟩ := p
    obtain rfl : parts = [] := hp
    decide
  · obtain ⟨rest, hrest⟩ := habove
    have hq : q.parts ≠ [] := by
      rw [← hrest]
      exact List.append_ne_nil_of_left_ne_nil hp rest
    obtain ⟨hsize, hnames⟩ := (fits_iff hq).mp hfits
    rw [← hrest, List.map_append, List.sum_append] at hsize
    refine (fits_iff hp).mpr ⟨by omega, fun name hname => hnames name ?_⟩
    rw [← hrest]
    exact List.mem_append_left _ hname

end Path

def Name.ofSize (size : Nat) : Name :=
  String.ofList (List.replicate size 'a')

theorem Name.utf8ByteSize_ofSize (size : Nat) : String.utf8ByteSize (Name.ofSize size) = size := by
  unfold Name.ofSize
  induction size with
  | zero => rfl
  | succ size ih =>
    have hletter : String.utf8ByteSize (String.singleton 'a') = 1 := by decide
    rw [List.replicate_succ, String.ofList_cons, String.utf8ByteSize_append, ih, hletter,
      Nat.add_comm]

theorem Name.toList_ofSize (size : Nat) : (Name.ofSize size).toList = List.replicate size 'a' := by
  unfold Name.ofSize
  rw [String.toList_ofList]

theorem Name.proper_ofSize {size : Nat} (hsize : 0 < size) : Name.Proper (Name.ofSize size) := by
  have hne : ∀ other : Name, other.toList ≠ List.replicate size 'a' → Name.ofSize size ≠ other := by
    rintro other hother rfl
    exact hother (Name.toList_ofSize size)
  obtain ⟨n, rfl⟩ : ∃ n, size = n + 1 := ⟨size - 1, by omega⟩
  refine ⟨⟨hne _ ?_, hne _ ?_, ?_⟩, hne _ ?_, ?_⟩
  all_goals simp [Name.toList_ofSize, List.replicate_succ, List.mem_replicate]

namespace FileTree

/-- A chain of directories, each in the one before, with something at its end. -/
def chain (parts : List Name) (last : Node) : FileTree :=
  ⟨(List.range parts.length).map fun i =>
    (parts.take (i + 1), if i + 1 = parts.length then last else .directory)⟩

variable {parts : List Name} {last : Node}

theorem mem_entries_chain_iff :
    (place, node) ∈ (chain parts last).entries ↔ place ≠ [] ∧ place <+: parts ∧
        node = if place = parts then last else .directory := by
  unfold chain
  rw [List.mem_map]
  constructor
  · rintro ⟨i, hi, hentry⟩
    rw [List.mem_range] at hi
    obtain ⟨rfl, rfl⟩ := Prod.mk.inj hentry
    have hwhole : parts.take (i + 1) = parts ↔ i + 1 = parts.length := by
      rw [List.take_eq_self_iff]
      omega
    refine ⟨?_, List.take_prefix _ _, by simp only [hwhole]⟩
    rw [Ne, List.take_eq_nil_iff]
    simp [List.ne_nil_of_length_pos (Nat.zero_lt_of_lt hi)]
  · rintro ⟨hne, hbelow, rfl⟩
    have hpos := List.length_pos_of_ne_nil hne
    have htake := List.prefix_iff_eq_take.mp hbelow
    have hlength := hbelow.length_le
    refine ⟨place.length - 1, List.mem_range.mpr (by omega), ?_⟩
    have hwhole : place = parts ↔ place.length = parts.length := ⟨congrArg _, hbelow.eq_of_length⟩
    rw [Nat.sub_add_cancel hpos, ← htake]
    simp only [hwhole]

theorem nodup_chain : ((chain parts last).entries.map Prod.fst).Nodup := by
  unfold chain
  rw [List.map_map]
  refine List.Nodup.map_on ?_ List.nodup_range
  intro i hi j hj htake
  rw [List.mem_range] at hi hj
  have hlength := congrArg List.length htake
  simp only [Function.comp_apply, List.length_take] at hlength
  omega

theorem node?_chain_iff (hne : place ≠ []) : (chain parts last).node? place = some node ↔
      place <+: parts ∧ node = if place = parts then last else .directory := by
  rw [node?_of_ne_nil _ hne]
  constructor
  · intro hnode
    rw [← node?_of_ne_nil _ hne] at hnode
    exact (mem_entries_chain_iff.mp (mem_entries_of_node? hnode hne)).2
  · intro hentry
    exact lookup_of_mem nodup_chain (mem_entries_chain_iff.mpr ⟨hne, hentry⟩)

theorem prefix_of_node?_chain
    (hnode : (chain parts last).node? place = some node) : place <+: parts := by
  by_cases hne : place = []
  · rw [hne]
    exact List.nil_prefix
  · exact ((node?_chain_iff hne).mp hnode).1

theorem node?_chain_above (hbelow : place <+: parts)
    (hlength : place.length < parts.length) : (chain parts last).node? place = some .directory := by
  by_cases hne : place = []
  · rw [hne]
    rfl
  · have hpart : place ≠ parts := by
      rintro rfl
      exact lt_irrefl _ hlength
    exact (node?_chain_iff hne).mpr ⟨hbelow, (if_neg hpart).symm⟩

theorem node?_chain_end (hne : parts ≠ []) : (chain parts last).node? parts = some last :=
  (node?_chain_iff hne).mpr ⟨List.prefix_refl _, (if_pos rfl).symm⟩

theorem sound_chain (hnamed : ∀ name ∈ parts, Name.Proper name) : (chain parts last).Sound := by
  refine ⟨nodup_chain, ?_, ?_, ?_⟩ <;> rintro ⟨place, node⟩ hentry <;>
    obtain ⟨hne, hbelow, -⟩ := mem_entries_chain_iff.mp hentry
  · exact hne
  · refine node?_chain_above ((List.dropLast_prefix _).trans hbelow) ?_
    have hpos := List.length_pos_of_ne_nil hne
    have hlength := hbelow.length_le
    dsimp only at hlength ⊢
    rw [List.length_dropLast]
    omega
  · exact fun name hname => hnamed name (hbelow.subset hname)

end FileTree
end Folio
