import Folio.Index.Store
import Folio.Proofs.JsonRoundTrip

/-!
# Records read back

The records that are written for the pages of documents are read back as they
were.  The pages of a document are found under its path, in their order, if no
other document has the same path.
-/

namespace Folio.Index

variable {records : List Record}

/-! ## The record of a page -/

theorem isTooLong_iff {n : Nat} : Decimal.isTooLong n = true ↔ 10 ^ Decimal.maxDigits ≤ n := by
  unfold Decimal.isTooLong
  rw [decide_eq_true_iff, Nat.pow_eq, Int.natAbs_natCast]

theorem isTooLong_one : Decimal.isTooLong (1 : Nat) = false := by
  rw [← Bool.not_eq_true, isTooLong_iff, not_le]
  exact Nat.one_lt_pow (by decide) (by decide)

section Page

variable (path name : Text) (page : Nat) (text : Text)

@[simp]
theorem Record.path?_ofPage : (Record.ofPage path name page text).path? = some path := rfl

@[simp]
theorem Record.page?_ofPage : (Record.ofPage path name page text).page? = some (.number page) := rfl

theorem Record.isTooLong_ofPage : (Record.ofPage path name page text).isTooLong =
      Decimal.isTooLong page := by
  simp only [Record.isTooLong, Record.page?_ofPage, Option.map_some, Option.getD_some,
    Numeral.value]

theorem Record.stored_ofPage (hshort : (Record.ofPage path name page text).isTooLong = false) :
    Json.Stored (.object (Record.ofPage path name page text).fields) := by
  have hpage : (Text.ofNat page).length ≤ Decimal.maxDigits := by
    rw [Text.ofNat, Nat.length_toDigits_le_iff (by decide) (by decide)]
    by_contra hlong
    have htrue : Decimal.isTooLong page = true := isTooLong_iff.mpr (not_lt.mp hlong)
    rw [Record.isTooLong_ofPage, htrue] at hshort
    cases hshort
  refine ⟨?_, ?_⟩
  · simp [Record.ofPage]
  · simpa [Record.ofPage, Json.StoredFields, Json.Stored] using hpage

end Page

/-! ## The file of the records -/

theorem storedItems_map (hstored : ∀ r ∈ records, Json.Stored (.object r.fields)) :
    Json.StoredItems (records.map fun r => .object r.fields) := by
  induction records with
  | nil => trivial
  | cons r records ih => exact ⟨hstored r (by simp), ih fun other h => hstored other (by simp [h])⟩

theorem recordsOf?_map (records : List Record) :
    recordsOf? (.array (records.map fun r => .object r.fields)) = some records := by
  simp [recordsOf?, List.filterMap_map]

theorem readJson_recordsText {tree : FileTree} {path : Path}
    (hread : tree.read path = .ok (.text (recordsText records)))
    (hstored : ∀ r ∈ records, Json.Stored (.object r.fields)) :
    readJson tree path = .ok (.array (records.map fun r => .object r.fields)) := by
  have hvalue : Json.Stored (.array (records.map fun r => .object r.fields)) :=
    storedItems_map hstored
  have hparse := Json.parse_unixNewlines_render hvalue
  unfold readJson
  rw [hread]
  simp only [Content.strictText, recordsText, hparse]

/-! ## Collecting by keys -/

variable {α : Type}

def addTo (groups : List (Text × List α)) (key : Text) (item : α) :
    List (Text × List α) :=
  if groups.any (·.1 == key) then
    groups.map fun (k, items) =>
      if k == key then (k, items ++ [item]) else (k, items)
  else groups ++ [(key, [item])]

theorem collect_append_singleton (pairs : List (Text × α)) (key : Text) (item : α) :
    collect (pairs ++ [(key, item)]) = addTo (collect pairs) key item := by
  unfold collect
  rw [List.foldl_append]
  rfl

theorem lookup_map_snd {β : Type} (f : α → β) (groups : List (Text × α)) (key : Text) :
    (groups.map fun (k, a) => (k, f a)).lookup key = (groups.lookup key).map f := by
  induction groups with
  | nil => rfl
  | cons group groups ih =>
    obtain ⟨k, a⟩ := group
    rw [List.map_cons, List.lookup_cons, List.lookup_cons, ih]
    cases key == k <;> rfl

theorem any_eq_isSome_lookup (groups : List (Text × α)) (key : Text) :
    groups.any (·.1 == key) = (groups.lookup key).isSome := by
  induction groups with
  | nil => rfl
  | cons group groups ih =>
    obtain ⟨k, a⟩ := group
    rw [List.any_cons, List.lookup_cons, ih, BEq.comm]
    cases key == k <;> rfl

theorem lookup_map_append (groups : List (Text × List α)) (key other : Text) (item : α) :
    (groups.map fun (k, items) =>
        if k == key then (k, items ++ [item]) else (k, items)).lookup other =
      if other = key then (groups.lookup key).map (· ++ [item])
      else groups.lookup other := by
  induction groups with
  | nil => simp
  | cons group groups ih =>
    obtain ⟨k, old⟩ := group
    by_cases hk : k = key
    · subst hk
      by_cases hother : other = k
      · subst hother
        simp
      · have hne : (other == k) = false := by simpa using hother
        simpa [List.lookup_cons, hother, hne] using ih
    · have hne : (key == k) = false := beq_eq_false_iff_ne.mpr (Ne.symm hk)
      have hhead : (k == key) = false := by simpa using hk
      simp only [List.map_cons, hhead, Bool.false_eq_true, if_false, List.lookup_cons, ih, hne]
      by_cases hother : other = key
      · subst hother
        simp [hne]
      · simp [hother]

theorem lookup_addTo (groups : List (Text × List α)) (key other : Text) (item : α) :
    (addTo groups key item).lookup other =
      if other = key then some ((groups.lookup key).getD [] ++ [item])
      else groups.lookup other := by
  unfold addTo
  rw [any_eq_isSome_lookup]
  cases hkey : groups.lookup key with
  | none =>
    rw [if_neg (by simp), List.lookup_append]
    by_cases hother : other = key
    · subst hother
      simp [hkey]
    · have hne : (other == key) = false := by simpa using hother
      simp [hother, List.lookup_cons, hne]
  | some items =>
    rw [if_pos Option.isSome_some, lookup_map_append, hkey]
    rfl

theorem lookup_collect (pairs : List (Text × α)) (key : Text) : (collect pairs).lookup key =
      match (pairs.filter (·.1 == key)).map Prod.snd with
      | [] => none
      | items => some items := by
  induction pairs using List.reverseRecOn with
  | nil => rfl
  | append_singleton pairs pair ih =>
    obtain ⟨k, item⟩ := pair
    rw [collect_append_singleton, lookup_addTo, List.filter_append, List.map_append]
    by_cases hkey : key = k
    · subst hkey
      rw [if_pos rfl, ih]
      cases (pairs.filter (·.1 == key)).map Prod.snd <;> simp
    · have hne : (k == key) = false := beq_eq_false_iff_ne.mpr (Ne.symm hkey)
      rw [if_neg hkey, ih]
      simp [hne]

/-! ## The pages of a document -/

theorem map_snd_filter_filterMap (records : List Record) (path : Text) (g : Record → α) :
    ((records.filterMap fun r => r.path?.map fun p => (p, g r)).filter (·.1 == path)).map Prod.snd =
      (records.filter fun r => r.path? == some path).map g := by
  induction records with
  | nil => rfl
  | cons r records ih =>
    cases hpath : r.path? with
    | none => simpa [List.filterMap_cons, hpath] using ih
    | some p =>
      by_cases hp : p = path
      · subst hp
        simpa [List.filterMap_cons, hpath] using ih
      · have hne : (p == path) = false := by simpa using hp
        simpa [List.filterMap_cons, hpath, hne, hp] using ih

theorem pairwise_zipIdx_number (pages : List Text) :
    (pages.zipIdx.map fun (text, i) => ((↑(i + 1) : Int), text)).Pairwise
      fun a b => decide (a.1 ≤ b.1) = true := by
  rw [List.pairwise_iff_getElem]
  intro i j hi hj hij
  simp
  omega

theorem lookup_pagesByPath {path name : Text} {pages : List Text} (hne : pages ≠ [])
    (hrecords : (records.filter fun r => r.path? == some path) =
      pages.zipIdx.map fun (text, i) => Record.ofPage path name (i + 1) text) :
    (pagesByPath records).lookup path =
      some (pages.zipIdx.map fun (text, i) => ((↑(i + 1) : Int), text)) := by
  have hitems : (records.filter fun r => r.path? == some path).map
      (fun r => ((r.page?.map (·.value)).getD 0, r.text)) =
      pages.zipIdx.map fun (text, i) => ((↑(i + 1) : Int), text) := by
    rw [hrecords, List.map_map]
    rfl
  refine (lookup_map_snd (fun pages : List (Int × Text) =>
    pages.mergeSort fun a b => a.1 ≤ b.1) _ path).trans ?_
  rw [lookup_collect, map_snd_filter_filterMap, hitems]
  have hsorted := List.mergeSort_of_pairwise (pairwise_zipIdx_number pages)
  cases hpages : pages.zipIdx.map fun (text, i) => ((↑(i + 1) : Int), text) with
  | nil => simp [hne] at hpages
  | cons first rest =>
    rw [hpages] at hsorted
    exact congrArg some hsorted

theorem exists_mem_pagesByPath_iff {path : Text} :
    (∃ pages, (path, pages) ∈ pagesByPath records) ↔ ∃ r ∈ records, r.path? = some path := by
  have hlookup : (pagesByPath records).lookup path = none ↔
      (records.filter fun r => r.path? == some path) = [] := by
    unfold pagesByPath
    rw [lookup_map_snd (fun pages : List (Int × Text) =>
      pages.mergeSort fun a b => a.1 ≤ b.1), lookup_collect,
      map_snd_filter_filterMap]
    cases records.filter fun r => r.path? == some path <;> simp
  rw [List.lookup_eq_none_iff, List.filter_eq_nil_iff] at hlookup
  constructor
  · rintro ⟨pages, hpages⟩
    by_contra hnone
    have hgroups := hlookup.mpr fun r hr hpath =>
      hnone ⟨r, hr, eq_of_beq hpath⟩
    simpa using hgroups _ hpages
  · rintro ⟨r, hr, hpath⟩
    by_contra hnone
    refine hlookup.mp (fun group hgroup => ?_) r hr (beq_iff_eq.mpr hpath)
    rw [bne_iff_ne]
    rintro rfl
    exact hnone ⟨_, hgroup⟩

theorem lookup_pagesByPath_eq_none {path : Text}
    (hpath : ∀ r ∈ records, r.path? ≠ some path) : (pagesByPath records).lookup path = none := by
  rw [List.lookup_eq_none_iff]
  intro group hgroup
  rw [bne_iff_ne]
  rintro rfl
  obtain ⟨r, hr, hr'⟩ := exists_mem_pagesByPath_iff.mp ⟨_, hgroup⟩
  exact hpath r hr hr'

end Folio.Index
