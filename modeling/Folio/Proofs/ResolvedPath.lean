import Folio.Proofs.IndexedListing

/-!
# Resolved paths

What is read and written at a path is read and written at one place.  Resolving a
path leaves no step up in it, also where links go round in a circle.
-/

namespace Folio

/-- A name that is no step: neither empty, nor a dot, nor two dots. -/
structure Name.Settled (name : Name) : Prop extends Name.Plain name where
  notUp : name ≠ ".."

/-! ## Paths in writing -/

theorem notMem_of_mem_splitAll {separator : Char} {t piece : Text}
    (hpiece : piece ∈ Text.splitAll separator t) : separator ∉ piece := by
  have hgo : ∀ (t begun : Text) (pieces : List Text), separator ∉ begun →
      (∀ piece ∈ pieces, separator ∉ piece) →
      ∀ piece ∈ Text.splitAll.go separator begun pieces t, separator ∉ piece := by
    intro t
    induction t with
    | nil =>
      intro begun pieces hbegun hpieces piece hpiece
      rcases List.mem_cons.mp (List.mem_reverse.mp hpiece) with rfl | hpiece
      · rwa [List.mem_reverse]
      · exact hpieces piece hpiece
    | cons c t ih =>
      intro begun pieces hbegun hpieces
      unfold Text.splitAll.go
      split
      · refine ih [] _ (by simp) fun piece hpiece => ?_
        rcases List.mem_cons.mp hpiece with rfl | hpiece
        · rwa [List.mem_reverse]
        · exact hpieces piece hpiece
      · rename_i hother
        refine ih _ _ (fun hmem => ?_) hpieces
        rcases List.mem_cons.mp hmem with rfl | hmem
        · simp at hother
        · exact hbegun hmem
  exact hgo t [] [] (by simp) (by simp) piece hpiece

theorem WrittenPath.plain_ofText (t : Text) : ∀ name ∈ (ofText t).parts, Name.Plain name := by
  intro name hname
  obtain ⟨piece, hpiece, rfl⟩ := List.mem_map.mp hname
  obtain ⟨hpiece, hkept⟩ := List.mem_filter.mp hpiece
  simp only [Bool.and_eq_true, Bool.not_eq_true', List.isEmpty_eq_false_iff, bne_iff_ne] at hkept
  refine ⟨fun hnil => hkept.1 ?_, fun hdot => hkept.2 ?_, ?_⟩
  · exact String.ofList_inj.mp hnil
  · exact String.ofList_inj.mp hdot
  · rw [String.toList_ofList]
    exact notMem_of_mem_splitAll hpiece

namespace FileTree

variable {tree tree' : FileTree} {path : Path} {place : List Name}

/-! ## Places that are read and written -/

theorem exists_place_of_read {content : Content} (hread : tree.read path = .ok content) :
    ∃ place, tree.locate path = .ok place ∧ tree.node? place = some (.file content) := by
  unfold read follow at hread
  cases hplace : tree.locate path with
  | error reason =>
    rw [hplace] at hread
    cases hread
  | ok place =>
    rw [hplace] at hread
    simp only [bind, Except.bind] at hread
    refine ⟨place, rfl, ?_⟩
    cases hnode : tree.node? place with
    | none =>
      rw [hnode] at hread
      cases hread
    | some node =>
      rw [hnode] at hread
      cases node with
      | file stored =>
        cases hread
        rfl
      | directory => cases hread
      | link target => cases hread

theorem exists_place_of_write {t : Text} (hwrite : tree.write path t = .ok tree') :
    ∃ place, tree.walkPath true path = .ok place ∧ tree.node? place ≠ some .directory ∧
      tree' = tree.put place (.file (.text t)) := by
  unfold FileTree.write destination at hwrite
  cases hplace : tree.walkPath true path with
  | error reason =>
    rw [hplace] at hwrite
    cases hwrite
  | ok place =>
    rw [hplace] at hwrite
    dsimp only at hwrite
    split at hwrite
    · cases hwrite
    · rename_i hnot
      cases hwrite
      exact ⟨place, rfl, hnot, rfl⟩

/-! ## Resolved paths -/

/-- A result of resolving: a settled place, or what is left of a path. -/
def Settles : Except (List Name) (List Name) → Prop
  | .ok place => ∀ name ∈ place, Name.Settled name
  | .error left => ∀ name ∈ left, Name.Plain name

theorem settles_resolveParts {onLink : List Name → Text → Except (List Name) (List Name)}
    (honLink : ∀ link target, (∀ name ∈ link, Name.Settled name) → Settles (onLink link target))
    {here rest : List Name} (hhere : ∀ name ∈ here, Name.Settled name)
    (hrest : ∀ name ∈ rest, Name.Plain name) : Settles (resolveParts tree onLink here rest) := by
  induction rest generalizing here with
  | nil => exact hhere
  | cons part rest ih =>
    have hnext := fun name hname => hrest name (List.mem_cons_of_mem part hname)
    rw [resolveParts]
    split
    · exact ih (fun name hname => hhere name (List.mem_of_mem_dropLast hname)) hnext
    · rename_i hup
      have hpart : Name.Settled part := ⟨hrest part List.mem_cons_self, by simpa using hup⟩
      have hlonger : ∀ name ∈ here ++ [part], Name.Settled name :=
        List.forall_mem_append.mpr ⟨hhere, List.forall_mem_singleton.mpr hpart⟩
      split
      · rename_i target _
        have hlink := honLink (here ++ [part]) target hlonger
        split
        · rename_i there hthere
          rw [hthere] at hlink
          exact ih hlink hnext
        · rename_i left hleft
          rw [hleft] at hlink
          exact List.forall_mem_append.mpr ⟨hlink, hnext⟩
      · exact ih hlonger hnext

theorem settles_resolveFrom (fuel : Nat) (followed : List (List Name)) {here rest : List Name}
    (hhere : ∀ name ∈ here, Name.Settled name) (hrest : ∀ name ∈ rest, Name.Plain name) :
    Settles (resolveFrom tree fuel followed here rest) := by
  induction fuel generalizing followed here rest with
  | zero => exact List.forall_mem_append.mpr ⟨fun name hname => (hhere name hname).toPlain, hrest⟩
  | succ fuel ih =>
    refine settles_resolveParts (fun link target hlink => ?_) hhere hrest
    split
    · exact fun name hname => (hlink name hname).toPlain
    · refine ih _ (fun name hname => ?_) (WrittenPath.plain_ofText target)
      unfold targetBase at hname
      split at hname
      · cases hname
      · exact hlink name (List.mem_of_mem_dropLast hname)

theorem settled_collapse {parts : List Name} (hparts : ∀ name ∈ parts, Name.Plain name) :
    ∀ name ∈ collapse parts, Name.Settled name := by
  have hfold : ∀ done : List Name, (∀ name ∈ done, Name.Settled name) →
      ∀ name ∈ parts.foldl (fun done part =>
        if part == ".." then done.dropLast else done ++ [part]) done,
        Name.Settled name := by
    induction parts with
    | nil => exact fun done hdone => hdone
    | cons part parts ih =>
      intro done hdone
      refine ih (fun name hname => hparts name (List.mem_cons_of_mem _ hname)) _ ?_
      dsimp only
      split
      · exact fun name hname => hdone name (List.mem_of_mem_dropLast hname)
      · rename_i hup
        have hpart : Name.Settled part := ⟨hparts part List.mem_cons_self, by simpa using hup⟩
        exact List.forall_mem_append.mpr ⟨hdone, List.forall_mem_singleton.mpr hpart⟩
  exact hfold [] (by simp)

theorem parts_resolved_of_ok
    (hplace : resolveFrom tree (tree.linkCount + 1) [] [] path.parts = .ok place) :
    (tree.resolved path).parts = place := by
  unfold resolved resolve
  rw [hplace]

theorem parts_resolved_of_error {left : List Name}
    (hleft : resolveFrom tree (tree.linkCount + 1) [] [] path.parts = .error left) :
    (tree.resolved path).parts = collapse left := by
  unfold resolved resolve
  rw [hleft]
  dsimp only
  split
  · rename_i p hp
    split at hp
    · cases hp
    · cases hp
      rfl
  · rename_i p hp
    split at hp
    · cases hp
      rfl
    · cases hp

theorem settled_resolved (tree : FileTree) (hnames : ∀ name ∈ path.parts, Name.Plain name) :
    ∀ name ∈ (tree.resolved path).parts, Name.Settled name := by
  have hsettles : Settles (resolveFrom tree (tree.linkCount + 1) [] []
      path.parts) := settles_resolveFrom _ _ (by simp) hnames
  cases hresult : resolveFrom tree (tree.linkCount + 1) [] [] path.parts with
  | ok place =>
    rw [hresult] at hsettles
    rw [parts_resolved_of_ok hresult]
    exact hsettles
  | error left =>
    rw [hresult] at hsettles
    rw [parts_resolved_of_error hresult]
    exact settled_collapse hsettles

end FileTree

end Folio
