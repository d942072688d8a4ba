import Folio.Program
import Folio.Proofs.ResolvedPath

/-!
# Displayed paths

A file or directory is displayed by its path as seen from the directory of the
program: some steps up, and then down.  A program can name the path like this again.
It comes to the path that the handle resolves to, unless links went round in a
circle there: what is left of a path then may have links, which are followed now.
-/

namespace Folio

namespace FileTree

variable {tree : FileTree} {here rest place : List Name} {base path found : Path}

/-! ## Paths without links -/

/-- No circle of links is met where the path is resolved. -/
def Untangled (tree : FileTree) (path : Path) : Prop :=
  ∃ place, resolveFrom tree (tree.linkCount + 1) [] [] path.parts = .ok place

theorem straight_nil (tree : FileTree) : tree.Straight [] := by
  intro above target habove hlink
  rw [List.prefix_nil.mp habove] at hlink
  cases hlink

theorem Straight.concat {part : Name} (hhere : tree.Straight here)
    (hpart : ∀ target, tree.node? (here ++ [part]) ≠ some (.link target)) :
    tree.Straight (here ++ [part]) := by
  intro above target habove
  rcases List.prefix_concat_iff.mp habove with rfl | habove
  · exact hpart target
  · exact hhere above target habove

theorem straight_of_resolveParts {onLink : List Name → Text → Except (List Name) (List Name)}
    (honLink : ∀ here part target there, tree.Straight here →
      onLink (here ++ [part]) target = .ok there → tree.Straight there) (hhere : tree.Straight here)
    (hplace : resolveParts tree onLink here rest = .ok place) : tree.Straight place := by
  induction rest generalizing here with
  | nil =>
    cases hplace
    exact hhere
  | cons part rest ih =>
    rw [resolveParts] at hplace
    split at hplace
    · exact ih (hhere.above (List.dropLast_prefix here)) hplace
    · split at hplace
      · split at hplace
        · rename_i there hthere
          exact ih (honLink _ _ _ there hhere hthere) hplace
        · cases hplace
      · rename_i hother
        exact ih (hhere.concat hother) hplace

/-- What a path resolves to has no links, if no circle is met. -/
theorem straight_of_resolveFrom (fuel : Nat) (followed : List (List Name))
    (hhere : tree.Straight here) (hplace : resolveFrom tree fuel followed here rest = .ok place) :
    tree.Straight place := by
  induction fuel generalizing followed here rest place with
  | zero => cases hplace
  | succ fuel ih =>
    refine straight_of_resolveParts (fun here part target there hhere hthere => ?_) hhere hplace
    split at hthere
    · cases hthere
    · rw [List.dropLast_concat] at hthere
      refine ih _ ?_ hthere
      unfold targetBase
      split
      · exact straight_nil tree
      · exact hhere

/-! ## Up and down -/

theorem resolveParts_append (onLink : List Name → Text → Except (List Name) (List Name))
    (hrest : resolveParts tree onLink here rest = .ok place) (more : List Name) :
    resolveParts tree onLink here (rest ++ more) = resolveParts tree onLink place more := by
  induction rest generalizing here with
  | nil =>
    cases hrest
    rfl
  | cons part rest ih =>
    rw [List.cons_append]
    rw [resolveParts] at hrest ⊢
    split at hrest
    · rename_i hup
      rw [if_pos hup]
      exact ih hrest
    · rename_i hdown
      rw [if_neg hdown]
      split at hrest
      · split at hrest
        · exact ih hrest
        · cases hrest
      · exact ih hrest

theorem resolveParts_up (onLink : List Name → Text → Except (List Name) (List Name))
    (here up rest : List Name) :
    resolveParts tree onLink (here ++ up) (List.replicate up.length ".." ++ rest) =
      resolveParts tree onLink here rest := by
  induction up using List.reverseRecOn with
  | nil => rw [List.append_nil]; rfl
  | append_singleton up name ih =>
    rw [List.length_append, List.length_singleton, List.replicate_succ, List.cons_append,
      resolveParts, ← List.append_assoc, List.dropLast_concat]
    exact ih

theorem exists_shared (ps bs : List Name) :
    ∃ shared up down, bs = shared ++ up ∧ ps = shared ++ down ∧
      Path.seenFrom.sharedLength ps bs = shared.length := by
  induction ps, bs using Path.seenFrom.sharedLength.induct with
  | case1 a as b bs hsame ih =>
    obtain ⟨shared, up, down, hbs, has, hlength⟩ := ih
    refine ⟨b :: shared, up, down, congrArg (b :: ·) hbs, ?_, ?_⟩
    · rw [eq_of_beq hsame, has, List.cons_append]
    · rw [Path.seenFrom.sharedLength, if_pos hsame, hlength, List.length_cons]
  | case2 a as b bs hother =>
    exact ⟨[], _, _, rfl, rfl, by rw [Path.seenFrom.sharedLength, if_neg hother]; rfl⟩
  | case3 ps bs hnone =>
    refine ⟨[], _, _, rfl, rfl, ?_⟩
    rw [Path.seenFrom.sharedLength]
    · rfl
    · exact hnone

theorem exists_seenFrom (path base : Path) :
    ∃ shared up down, base.parts = shared ++ up ∧ path.parts = shared ++ down ∧
      path.seenFrom base = ⟨false, List.replicate up.length ".." ++ down⟩ := by
  obtain ⟨shared, up, down, hbase, hpath, hlength⟩ := exists_shared path.parts base.parts
  refine ⟨shared, up, down, hbase, hpath, ?_⟩
  rw [Path.seenFrom, hlength, hbase, hpath, List.drop_left, List.length_append,
    Nat.add_sub_cancel_left]

/-- From a directory that no link leads to, a path as seen from there is the path. -/
theorem resolve_join_seenFrom (hbase : tree.Straight base.parts)
    (hnames : ∀ name ∈ base.parts, name ≠ "..") (found : Path) :
    tree.resolve (base.join (found.seenFrom base)) = tree.resolve found := by
  obtain ⟨shared, up, down, hbaseParts, hfound, hseen⟩ := exists_seenFrom found base
  rw [hbaseParts] at hbase hnames
  have hshared : ∀ onLink, resolveParts tree onLink [] shared = .ok shared := fun onLink =>
    @Straight.resolveParts [] shared tree onLink (hbase.above (List.prefix_append shared up))
      fun name hname => hnames name (List.mem_append_left _ hname)
  have hsame : ∀ fuel, resolveFrom tree (fuel + 1) [] [] (base.join (found.seenFrom base)).parts =
        resolveFrom tree (fuel + 1) [] [] found.parts := by
    intro fuel
    have hjoin : (base.join (found.seenFrom base)).parts =
        shared ++ up ++ (List.replicate up.length ".." ++ down) := by
      rw [hseen, ← hbaseParts]
      rfl
    have hwhole : ∀ onLink, resolveParts tree onLink [] (shared ++ up) =
        .ok (shared ++ up) := fun onLink =>
      @Straight.resolveParts [] (shared ++ up) tree onLink hbase hnames
    rw [hjoin, hfound, resolveFrom, resolveParts_append _ (hwhole _), resolveParts_up,
      resolveParts_append _ (hshared _)]
  unfold resolve
  rw [hsame]

/-- A path that resolves without a circle resolves to itself then. -/
theorem Untangled.resolve_resolved (huntangled : tree.Untangled path)
    (hnames : ∀ name ∈ path.parts, Name.Plain name)
    (hfound : tree.resolve path = .path found) : tree.resolve found = .path found := by
  obtain ⟨place, hplace⟩ := huntangled
  have hparts : found.parts = place := by rw [← parts_resolved_of_ok hplace, resolved, hfound]
  have hsettled := settled_resolved tree hnames
  rw [resolved, hfound] at hsettled
  refine Straight.resolve ?_ fun name hname => (hsettled name hname).notUp
  rw [hparts]
  exact straight_of_resolveFrom _ _ (straight_nil tree) hplace

end FileTree

/-! ## Naming a displayed path -/

section Named

variable {s : Setting} {tree : FileTree} {path found : Path}

theorem Setting.displayed_eq (hnull : path.NoNull) (hfound : tree.resolve path = .path found) :
    s.displayed tree path = .ok (found.seenFrom s.cwd).text := by
  rw [displayed, hnull.any_eq_false, if_neg (by decide), hfound, display, FileTree.resolved, hfound]

theorem Setting.result_shown (hnull : path.NoNull) (hfound : tree.resolve path = .path found)
    (hcwd : s.cwd.NoNull) (hbase : tree.resolve s.cwd = .path s.cwd) :
    (s.shown path).result tree = (tree, .finished (found.seenFrom s.cwd).text) := by
  rw [shown, TreeAction.shown,
    Action.result_bind_of_finished (TreeAction.resolve_eq_finished_iff.mpr
      ⟨rfl, hnull.any_eq_false, hfound⟩),
    Action.result_bind_of_finished (TreeAction.resolve_eq_finished_iff.mpr
      ⟨rfl, hcwd.any_eq_false, hbase⟩)]
  rfl

theorem Setting.result_locate (hcwd : ∀ name ∈ s.cwd.parts, Name.Proper name)
    (hstraight : tree.Straight s.cwd.parts) (hnull : found.NoNull)
    (hnames : ∀ name ∈ found.parts, Name.Plain name) {again : Path}
    (hagain : tree.resolve found = .path again) :
    (s.locate (found.seenFrom s.cwd).text).result tree =
      (if again.isWithin s.sandbox then (pure again : TreeAction Path)
        else s.shown again >>= fun shown => s.shown s.sandbox >>= fun box =>
          TreeAction.complain (.accessDenied shown box)).result tree := by
  obtain ⟨shared, up, down, hbase, hfound, hseen⟩ := FileTree.exists_seenFrom found s.cwd
  have hplain : ∀ name ∈ List.replicate up.length ".." ++ down, Name.Plain name := by
    refine List.forall_mem_append.mpr ⟨fun name hname => ?_, fun name hname => ?_⟩
    · rw [List.eq_of_mem_replicate hname]
      exact ⟨by decide, by decide, by decide⟩
    · exact hnames name (by rw [hfound]; exact List.mem_append_right _ hname)
  have hread : WrittenPath.ofText (found.seenFrom s.cwd).text = found.seenFrom s.cwd := by
    rw [hseen]
    exact WrittenPath.ofText_text hplain
  have hclean : (s.cwd.join (found.seenFrom s.cwd)).NoNull := by
    intro name hname
    rw [hseen] at hname
    rcases List.mem_append.mp hname with hname | hname
    · exact (hcwd name hname).noNull
    · rcases List.mem_append.mp hname with hname | hname
      · rw [List.eq_of_mem_replicate hname]
        decide
      · exact hnull name (by rw [hfound]; exact List.mem_append_right _ hname)
  rw [locate, hread]
  refine (Action.result_bind_of_finished (TreeAction.resolve_eq_finished_iff.mpr
    ⟨rfl, hclean.any_eq_false, (FileTree.resolve_join_seenFrom hstraight
      (fun name hname => (hcwd name hname).notUp) found).trans hagain⟩)).trans ?_
  rfl

end Named

/-- A displayed path can be named again.  For a file or directory at a path that
resolves to another, the text shown leads to what the latter resolves to; this is the
same, unless links went round in a circle, and outside of the sandbox access to the
text is denied. -/
theorem displayed_path_found_again (s : Setting) (w : World)
    (hcwd : ∀ name ∈ s.cwd.parts, Name.Proper name)
    (hstraight : w.shelf.tree.Straight s.cwd.parts) {path found : Path}
    (hnames : ∀ name ∈ path.parts, Name.Plain name)
    (hfound : w.shelf.tree.resolve path = .path found) (hnull : path.NoNull)
    (hclean : found.NoNull) {box : Text}
    (hbox : ((s.shown s.sandbox).run none w.shelf.tree).ending = .finished box) :
    ∃ t : Text,
      (∀ id, (Value.file ⟨id, path⟩).shown s w = .ok t) ∧
      (∀ id recursive, (Value.directory ⟨id, path, recursive⟩).shown s w = .ok t) ∧
      (w.shelf.tree.Untangled path →
        ((s.locate t).run none w.shelf.tree).ending =
          if found.isWithin s.sandbox then .finished found
          else .failed (Complaint.accessDenied t box).fault) ∧
      ∀ again, w.shelf.tree.resolve found = .path again →
        again.isWithin s.sandbox = true →
          ((s.locate t).run none w.shelf.tree).ending = .finished again := by
  have hsettled := FileTree.settled_resolved w.shelf.tree hnames
  rw [FileTree.resolved, hfound] at hsettled
  have hplain : ∀ name ∈ found.parts, Name.Plain name := fun name hname =>
    (hsettled name hname).toPlain
  have hshown := Setting.displayed_eq (s := s) hnull hfound
  refine ⟨(found.seenFrom s.cwd).text, fun _ => hshown, fun _ _ => hshown, ?_, ?_⟩
  · intro huntangled
    have hsame := huntangled.resolve_resolved hnames hfound
    rw [Action.ending_run_none,
      Setting.result_locate hcwd hstraight hclean hplain hsame]
    split
    · rfl
    · have hbase : w.shelf.tree.resolve s.cwd = .path s.cwd :=
        hstraight.resolve fun name hname => (hcwd name hname).notUp
      rw [Action.result_bind_of_finished (Setting.result_shown hclean hsame
        (fun name hname => (hcwd name hname).noNull) hbase),
        Action.result_bind_of_finished (Action.result_of_run hbox)]
      rfl
  · intro again hagain hwithin
    rw [Action.ending_run_none,
      Setting.result_locate hcwd hstraight hclean hplain hagain, if_pos hwithin]
    rfl

/-! ### A link and a circle -/

namespace Circle

/-- A directory with a link to itself, a link to a note, and an index that names the
link by way of the circle. -/
def tree : FileTree :=
  ⟨[(["box"], .directory), (["box", "loop"], .link "loop".toList),
    (["box", "x"], .link "y.txt".toList), (["box", "y.txt"], .file (.text "why".toList)),
    (["box", ".fdsl_faiss"], .directory),
    (["box", ".fdsl_faiss", "records.json"], .file (.text
      ("[\x7b\"relative_path\": \"loop/../x\", \"file_name\": \"x\", " ++
        "\"page\": 1, \"text\": \"why\"\x7d]").toList))]⟩

def setting : Setting := Setting.make tree ⟨["box"]⟩ none ⟨true, true, true⟩

def source : Text :=
  "for f in Directory(\".\"):\n    print(f)\n    print(File(\"x\").path.name)\n".toList

end Circle

open Circle in
theorem linked_path_found_again :
    ∃ t : Text, (Value.file ⟨0, ⟨["box", "x"]⟩⟩).shown setting (World.ofTree tree) = .ok t ∧
      ((setting.locate t).run none tree).ending = .finished ⟨["box", "y.txt"]⟩ := by
  have hcwd : setting.cwd = ⟨["box"]⟩ := by decide +kernel
  have hstraight : tree.Straight setting.cwd.parts := by
    rw [hcwd]
    refine (FileTree.straight_nil tree).concat fun target hlink => ?_
    cases hlink
  have hx : ∀ name ∈ ["box", "x"], Name.Proper name := by decide
  have hy : ∀ name ∈ ["box", "y.txt"], Name.Proper name := by decide
  obtain ⟨t, hfile, -, hagain, -⟩ := @displayed_path_found_again setting (World.ofTree tree)
    (by rw [hcwd]; decide) hstraight ⟨["box", "x"]⟩ ⟨["box", "y.txt"]⟩
    (fun name hname => (hx name hname).toPlain) (by decide +kernel)
    (fun name hname => (hx name hname).noNull) (fun name hname => (hy name hname).noNull)
    ['.'] rfl
  refine ⟨t, hfile 0, (hagain ⟨["box", "y.txt"], by decide +kernel⟩).trans ?_⟩
  rw [if_pos (by decide +kernel)]

open Circle in
theorem path_lost_in_circle :
    (execute tree ⟨["box"]⟩ none ⟨true, true, true⟩ .unlimited source).toOption.map
        (fun o => (o.printed, o.state.shelf.handles.toList)) =
      some ("x\ny.txt\n".toList, [.directory ⟨["box"]⟩,
        .file ⟨["box", "loop", "..", "x"]⟩ none, .file ⟨["box", "y.txt"]⟩ none]) ∧
      tree.resolve ⟨["box", "loop", "..", "x"]⟩ = .path ⟨["box", "x"]⟩ := by
  decide +kernel

end Folio
