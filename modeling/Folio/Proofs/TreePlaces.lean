import Folio.Proofs.ResolvedPath

/-!
# Places of files

A path that a file may be written to leads to a place, over links or not.  The
place stays the same when files are written, here or at other places, so what is
read at a path afterwards depends on the last file written at its place alone.

Files may also be replaced or removed, and with them the links that lead to them.
Paths that led to different files then lead to different places still.
-/

namespace Folio.FileTree

variable {tree other : FileTree} {path : Path} {place here : List Name}

variable {new : Bool} {links : Nat} {content : Content} {rest spot : List Name} {part : Name}
   {paths : List Path}

variable {target : Text} {parts : List Name}

/-! ## Walks that arrive -/

def Sought (part : Name) : Prop :=
  part ≠ "." ∧ part ≠ ".." ∧ nameFits part = true

section Steps

variable {new : Bool} {links : Nat} {part : Name} {rest : List Name}
  (hhere : tree.node? here = some .directory)
include hhere

theorem walk_stay (hpart : part = ".") : tree.walk new (links + 1) here (part :: rest) =
      tree.walk new (links + 1) here rest := by
  rw [walk, advance, hhere]
  simp [hpart]

theorem walk_up (hpart : part = "..") : tree.walk new (links + 1) here (part :: rest) =
      tree.walk new (links + 1) here.dropLast rest := by
  rw [walk, advance, hhere]
  simp [hpart]

theorem walk_make (hpart : Sought part) (hnode : tree.node? (here ++ [part]) = none) :
    tree.walk new (links + 1) here [part] =
      if new then .ok (here ++ [part]) else .error .missing := by
  obtain ⟨hdot, hdots, hfits⟩ := hpart
  rw [walk, advance, hhere]
  simp [hdot, hdots, hfits, hnode]

theorem walk_follow (hpart : Sought part)
    (hnode : tree.node? (here ++ [part]) = some (.link target)) :
    tree.walk new (links + 1) here (part :: rest) = tree.walk new links (targetBase here target)
        (targetParts target ++ rest) := by
  obtain ⟨hdot, hdots, hfits⟩ := hpart
  rw [walk, advance, hhere]
  simp [hdot, hdots, hfits, hnode]

theorem walk_enter (hpart : Sought part) {node : Node}
    (hnode : tree.node? (here ++ [part]) = some node) (hkind : node.isLink = false) :
    tree.walk new (links + 1) here (part :: rest) =
      tree.walk new (links + 1) (here ++ [part]) rest := by
  obtain ⟨hdot, hdots, hfits⟩ := hpart
  rw [walk, advance, hhere]
  cases node with
  | link target => cases hkind
  | file content => simp [hdot, hdots, hfits, hnode]
  | directory => simp [hdot, hdots, hfits, hnode]

end Steps

/-- A walk that arrives at a place and follows at most a number of links. -/
inductive Walks (tree : FileTree) (new : Bool) : Nat → List Name → List Name → List Name → Prop
  | done {links : Nat} {here : List Name} : Walks tree new links here [] here
  | stay {links : Nat} {here rest place : List Name} {part : Name}
      (hhere : tree.node? here = some .directory) (hpart : part = ".")
      (hrest : Walks tree new links here rest place) :
      Walks tree new links here (part :: rest) place
  | up {links : Nat} {here rest place : List Name} {part : Name}
      (hhere : tree.node? here = some .directory) (hpart : part = "..")
      (hrest : Walks tree new links here.dropLast rest place) :
      Walks tree new links here (part :: rest) place
  | make {links : Nat} {here rest : List Name} {part : Name}
      (hhere : tree.node? here = some .directory) (hpart : Sought part)
      (hnode : tree.node? (here ++ [part]) = none) (hnew : new = true) (hlast : rest = []) :
      Walks tree new links here (part :: rest) (here ++ [part])
  | follow {links : Nat} {here rest place : List Name} {part : Name}
      {target : Text} (hhere : tree.node? here = some .directory) (hpart : Sought part)
      (hnode : tree.node? (here ++ [part]) = some (.link target))
      (hrest : Walks tree new links (targetBase here target) (targetParts target ++ rest) place) :
      Walks tree new (links + 1) here (part :: rest) place
  | enter {links : Nat} {here rest place : List Name} {part : Name}
      {node : Node} (hhere : tree.node? here = some .directory)
      (hpart : Sought part) (hnode : tree.node? (here ++ [part]) = some node)
      (hkind : node.isLink = false) (hrest : Walks tree new links (here ++ [part]) rest place) :
      Walks tree new links here (part :: rest) place

theorem walks_of_advance {onLink : List Name → Text → List Name → Except SystemReason (List Name)}
    (hlinks : ∀ {here : List Name} {part : Name} {target : Text} {rest : List Name},
      tree.node? here = some .directory → Sought part →
      tree.node? (here ++ [part]) = some (.link target) → onLink here target rest = .ok place →
      tree.Walks new links here (part :: rest) place)
    (hwalk : tree.advance new onLink here parts = .ok place) :
    tree.Walks new links here parts place := by
  induction parts generalizing here with
  | nil =>
    cases hwalk
    exact .done
  | cons part rest ih =>
    rw [advance] at hwalk
    cases hhere : tree.node? here with
    | none =>
      rw [hhere] at hwalk
      cases hwalk
    | some node =>
      rw [hhere] at hwalk
      cases node with
      | file content => cases hwalk
      | link target => cases hwalk
      | directory =>
        by_cases hdot : part = "."
        · exact .stay hhere hdot (ih (by simpa [hdot] using hwalk))
        by_cases hdots : part = ".."
        · exact .up hhere hdots (ih (by simpa [hdots] using hwalk))
        cases hfits : nameFits part with
        | false => simp [hdot, hdots, hfits] at hwalk
        | true =>
          have hpart : Sought part := ⟨hdot, hdots, hfits⟩
          simp only [beq_iff_eq, hdot, hdots, hfits, if_false, Bool.not_true,
            Bool.false_eq_true] at hwalk
          cases hnode : tree.node? (here ++ [part]) with
          | none =>
            rw [hnode] at hwalk
            dsimp only at hwalk
            split at hwalk
            · rename_i hlast
              simp only [Bool.and_eq_true, List.isEmpty_iff] at hlast
              cases hwalk
              exact .make hhere hpart hnode hlast.1 hlast.2
            · cases hwalk
          | some node =>
            rw [hnode] at hwalk
            cases node with
            | link target => exact hlinks hhere hpart hnode hwalk
            | file content => exact .enter hhere hpart hnode rfl (ih hwalk)
            | directory => exact .enter hhere hpart hnode rfl (ih hwalk)

theorem walk_eq_ok_iff :
    tree.walk new (links + 1) here parts = .ok place ↔ tree.Walks new links here parts place := by
  constructor
  · intro hwalk
    induction links generalizing here parts with
    | zero =>
      refine walks_of_advance ?_ hwalk
      intro here part target rest hhere hpart hnode hlink
      cases hlink
    | succ links ih =>
      refine walks_of_advance ?_ hwalk
      intro here part target rest hhere hpart hnode hlink
      exact .follow hhere hpart hnode (ih hlink)
  · intro hwalks
    induction hwalks with
    | done => rfl
    | stay hhere hpart hrest ih => rw [walk_stay hhere hpart, ih]
    | up hhere hpart hrest ih => rw [walk_up hhere hpart, ih]
    | make hhere hpart hnode hnew hlast => rw [hlast, walk_make hhere hpart hnode, if_pos hnew]
    | follow hhere hpart hnode hrest ih => rw [walk_follow hhere hpart hnode, ih]
    | enter hhere hpart hnode hkind hrest ih => rw [walk_enter hhere hpart hnode hkind, ih]

theorem walkPath_eq_ok_iff : tree.walkPath new path = .ok place ↔
      (String.ofList path.text).utf8ByteSize ≤ maxPathBytes ∧
        tree.Walks new maxLinks [] path.parts place := by
  rw [walkPath, ← walk_eq_ok_iff]
  split
  · rename_i hlong
    simp [Nat.not_le.mpr hlong]
  · rename_i hshort
    simp [Nat.not_lt.mp hshort]

namespace Walks

variable {new : Bool} {links : Nat}

theorem of_file (hwalks : tree.Walks new links here rest place)
    (hfile : tree.node? here = some (.file content)) : rest = [] ∧ place = here := by
  cases hwalks with
  | done => exact ⟨rfl, rfl⟩
  | stay hhere => simp [hhere] at hfile
  | up hhere => simp [hhere] at hfile
  | make hhere => simp [hhere] at hfile
  | follow hhere => simp [hhere] at hfile
  | enter hhere => simp [hhere] at hfile

/-- A walk along the first of some parts is the beginning of the walk along all
of them. -/
theorem after {mid : List Name} (hfirst : tree.Walks false links here parts mid) {more : Nat}
    (hwalks : tree.Walks new more here (parts ++ rest) place) :
    ∃ left, tree.Walks new left mid rest place := by
  induction hfirst generalizing more with
  | done => exact ⟨more, hwalks⟩
  | stay hhere hpart hrest ih =>
    cases hwalks with
    | stay _ _ hnext => exact ih hnext
    | up _ hdots => simp [hpart] at hdots
    | make _ hsought => exact absurd hpart hsought.1
    | follow _ hsought => exact absurd hpart hsought.1
    | enter _ hsought => exact absurd hpart hsought.1
  | up hhere hpart hrest ih =>
    cases hwalks with
    | stay _ hdot => simp [hpart] at hdot
    | up _ _ hnext => exact ih hnext
    | make _ hsought => exact absurd hpart hsought.2.1
    | follow _ hsought => exact absurd hpart hsought.2.1
    | enter _ hsought => exact absurd hpart hsought.2.1
  | make hhere hpart hnode hnew hlast => cases hnew
  | follow hhere hpart hnode hrest ih =>
    rw [List.cons_append] at hwalks
    cases hwalks with
    | stay _ hdot => exact absurd hdot hpart.1
    | up _ hdots => exact absurd hdots hpart.2.1
    | make _ _ hnone => simp [hnode] at hnone
    | follow _ _ hother hnext =>
      rw [hnode] at hother
      cases hother
      rw [← List.append_assoc] at hnext
      exact ih hnext
    | enter _ _ hother hkind =>
      rw [hnode] at hother
      cases hother
      cases hkind
  | enter hhere hpart hnode hkind hrest ih =>
    cases hwalks with
    | stay _ hdot => exact absurd hdot hpart.1
    | up _ hdots => exact absurd hdots hpart.2.1
    | make _ _ hnone => simp [hnode] at hnone
    | follow _ _ hother =>
      rw [hnode] at hother
      cases hother
      cases hkind
    | enter _ _ _ _ hnext => exact ih hnext

end Walks

/-! ## Walks to what is there -/

def Rooted (tree : FileTree) : Prop :=
  ∀ place node, tree.node? place = some node →
    tree.node? place.dropLast = some .directory

theorem Sound.rooted (hsound : tree.Sound) : tree.Rooted := by
  intro place node hnode
  by_cases hplace : place = []
  · subst hplace
    rfl
  · exact hsound.inDirectory _ (mem_entries_of_node? hnode hplace)

theorem Rooted.put (hrooted : tree.Rooted) (habove : tree.node? place.dropLast = some .directory)
    (hnot : tree.node? place ≠ some .directory) {node : Node} : (tree.put place node).Rooted := by
  intro q stored hnode
  by_cases hq : q = place
  · have hother : place.dropLast ≠ place := by
      intro hsame
      rw [hsame] at habove
      exact hnot habove
    rw [hq, node?_put_of_ne tree _ hother, habove]
  · rw [node?_put_of_ne tree _ hq] at hnode
    have hparent := hrooted _ _ hnode
    have hother : q.dropLast ≠ place := by
      intro hsame
      rw [hsame] at hparent
      exact hnot hparent
    rw [node?_put_of_ne tree _ hother, hparent]

def Stands (tree : FileTree) (place : List Name) : Prop :=
  ∃ node, tree.node? place = some node ∧ node.isLink = false

/-- Without making anything, a walk to a place arrives if something is there. -/
def Arrives (tree : FileTree) (place : List Name) :
    Except SystemReason (List Name) → Prop
  | .ok found => found = place ∧ tree.Stands place
  | .error reason => reason = .missing ∧ tree.node? place = none ∧
      tree.node? place.dropLast = some .directory

theorem stands_targetBase (hhere : tree.node? here = some .directory) :
    tree.Stands (targetBase here target) := by
  unfold targetBase
  split
  · exact ⟨.directory, rfl, rfl⟩
  · exact ⟨.directory, hhere, rfl⟩

theorem Walks.arrives (hwalks : tree.Walks true links here parts place) (hrooted : tree.Rooted)
    (hhere : tree.Stands here) : tree.Arrives place (tree.walk false (links + 1) here parts) := by
  induction hwalks with
  | done => exact ⟨rfl, hhere⟩
  | stay hnode hpart hrest ih =>
    rw [walk_stay hnode hpart]
    exact ih hhere
  | up hnode hpart hrest ih =>
    rw [walk_up hnode hpart]
    exact ih ⟨.directory, hrooted _ _ hnode, rfl⟩
  | make hnode hpart hnone hnew hlast =>
    rw [hlast, walk_make hnode hpart hnone]
    exact ⟨rfl, hnone, by rw [List.dropLast_concat, hnode]⟩
  | follow hnode hpart hlink hrest ih =>
    rw [walk_follow hnode hpart hlink]
    exact ih (stands_targetBase hnode)
  | enter hnode hpart hentry hkind hrest ih =>
    rw [walk_enter hnode hpart hentry hkind]
    exact ih ⟨_, hentry, hkind⟩

theorem arrives_locate (hrooted : tree.Rooted) (hplace : tree.destination path = .ok place) :
    tree.Arrives place (tree.locate path) := by
  obtain ⟨hshort, hwalks⟩ := walkPath_eq_ok_iff.mp hplace
  rw [locate, walkPath, if_neg (Nat.not_lt.mpr hshort)]
  exact hwalks.arrives hrooted ⟨.directory, rfl, rfl⟩

/-! ## Walks after files were replaced -/

def Free (tree : FileTree) (place : List Name) : Prop :=
  tree.node? place = none ∨ ∃ content, tree.node? place = some (.file content)

theorem Free.ne_nil (hfree : tree.Free place) : place ≠ [] := by
  rintro rfl
  rcases hfree with hnone | ⟨content, hfile⟩
  · cases hnone
  · cases hfile

/-- A walk whose last part is at a spot ends at a file: the one at the spot or
the one that the link at the spot leads to. -/
inductive Ends (tree : FileTree) (spot : List Name) : List Name → Prop
  | file {content : Content} (hfile : tree.node? spot = some (.file content)) : Ends tree spot spot
  | link {target : Text} {links : Nat} {place : List Name} {content : Content}
      (hnode : tree.node? spot = some (.link target))
      (hwalks : tree.Walks false links (targetBase spot.dropLast target) (targetParts target) place)
      (hfile : tree.node? place = some (.file content)) : Ends tree spot place

/-- Files were made, replaced or removed, also in the place of links to files.
All else is as it was. -/
def Alters (tree other : FileTree) : Prop :=
  ∀ place, other.node? place = tree.node? place ∨ other.Free place ∧
    (tree.node? place = none ∨ ∃ found, tree.Ends place found)

theorem alters_refl (tree : FileTree) : tree.Alters tree := fun _ => .inl rfl

theorem alters_put (hfree : tree.Free place) (content : Content) :
    tree.Alters (tree.put place (.file content)) := by
  intro q
  by_cases hq : q = place
  · subst hq
    refine .inr ⟨.inr ⟨content, node?_put_self tree _ hfree.ne_nil⟩, ?_⟩
    rcases hfree with hnone | ⟨stored, hfile⟩
    · exact .inl hnone
    · exact .inr ⟨q, .file hfile⟩
  · exact .inl (node?_put_of_ne tree _ hq)

namespace Ends

variable {spot : List Name}

theorem of_link (hnode : tree.node? (here ++ [part]) = some (.link target))
    (hwalks : tree.Walks false links (targetBase here target) (targetParts target) place)
    (hfile : tree.node? place = some (.file content)) : tree.Ends (here ++ [part]) place := by
  have hbase : (here ++ [part]).dropLast = here := List.dropLast_concat
  rw [← hbase] at hwalks
  exact .link hnode hwalks hfile

theorem unique {found : List Name} (hends : tree.Ends spot place)
    (hother : tree.Ends spot found) : found = place := by
  cases hends with
  | file hfile =>
    cases hother with
    | file => rfl
    | link hnode => simp [hfile] at hnode
  | link hnode hwalks hfile =>
    cases hother with
    | file hspot => simp [hnode] at hspot
    | link hnode' hwalks' =>
      rw [hnode] at hnode'
      cases hnode'
      rw [← List.append_nil (targetParts _)] at hwalks'
      obtain ⟨left, hrest⟩ := hwalks.after hwalks'
      exact (hrest.of_file hfile).2

theorem eq_of_free (hends : tree.Ends spot place) (hfree : tree.Free spot) : place = spot := by
  cases hends with
  | file => rfl
  | link hnode =>
    rcases hfree with hnone | ⟨content, hfile⟩
    · simp [hnode] at hnone
    · simp [hnode] at hfile

end Ends

theorem Walks.of_free (hhere : tree.node? here = some .directory) (hpart : Sought part)
    (hfree : tree.Free (here ++ [part])) : tree.Walks true links here [part] (here ++ [part]) := by
  rcases hfree with hnone | ⟨content, hfile⟩
  · exact .make hhere hpart hnone rfl rfl
  · exact .enter hhere hpart hfile rfl .done

namespace Alters

variable (halters : tree.Alters other)
include halters

theorem directory (hnode : tree.node? place = some .directory) :
    other.node? place = some .directory := by
  rcases halters place with hsame | ⟨-, hnone | ⟨found, hends⟩⟩
  · exact hsame.trans hnode
  · simp [hnode] at hnone
  · cases hends with
    | file hfile => simp [hnode] at hfile
    | link hlink => simp [hnode] at hlink

theorem free (hfree : tree.Free place) : other.Free place := by
  rcases halters place with hsame | ⟨hother, -⟩
  · rcases hfree with hnone | ⟨content, hfile⟩
    · exact .inl (hsame.trans hnone)
    · exact .inr ⟨content, hsame.trans hfile⟩
  · exact hother

theorem walks (hwalks : tree.Walks new links here parts place) :
    ∃ spot, other.Walks true links here parts spot ∧
      (spot = place ∨ other.Free spot ∧ tree.Ends spot place) := by
  induction hwalks with
  | done => exact ⟨_, .done, .inl rfl⟩
  | stay hhere hpart hrest ih =>
    obtain ⟨spot, hspot, hends⟩ := ih
    exact ⟨spot, .stay (halters.directory hhere) hpart hspot, hends⟩
  | up hhere hpart hrest ih =>
    obtain ⟨spot, hspot, hends⟩ := ih
    exact ⟨spot, .up (halters.directory hhere) hpart hspot, hends⟩
  | make hhere hpart hnode hnew hlast =>
    subst hlast
    exact ⟨_, .of_free (halters.directory hhere) hpart (halters.free (.inl hnode)), .inl rfl⟩
  | @follow links here rest place part target hhere hpart hnode hrest ih =>
    rcases halters (here ++ [part]) with hsame | ⟨hfree, hnone | ⟨found, hends⟩⟩
    · obtain ⟨spot, hspot, hends⟩ := ih
      exact ⟨spot, .follow (halters.directory hhere) hpart (hsame.trans hnode) hspot, hends⟩
    · simp [hnode] at hnone
    · -- The link was replaced, so the walk ends there now.
      cases hends with
      | file hfile => simp [hnode] at hfile
      | link hlink hfirst hfile =>
        rw [hnode] at hlink
        cases hlink
        rw [List.dropLast_concat] at hfirst
        obtain ⟨left, hleft⟩ := hfirst.after hrest
        obtain ⟨rfl, rfl⟩ := hleft.of_file hfile
        exact ⟨_, .of_free (halters.directory hhere) hpart hfree,
          .inr ⟨hfree, .of_link hnode hfirst hfile⟩⟩
  | @enter links here rest place part node hhere hpart hnode hkind hrest ih =>
    cases node with
    | link target => cases hkind
    | directory =>
      obtain ⟨spot, hspot, hends⟩ := ih
      exact ⟨spot, .enter (halters.directory hhere) hpart
        (halters.directory hnode) rfl hspot, hends⟩
    | file content =>
      obtain ⟨rfl, rfl⟩ := hrest.of_file hnode
      exact ⟨_, .of_free (halters.directory hhere) hpart
        (halters.free (.inr ⟨content, hnode⟩)), .inl rfl⟩

theorem walkPath (hplace : tree.walkPath new path = .ok place) :
    ∃ spot, other.destination path = .ok spot ∧
      (spot = place ∨ other.Free spot ∧ tree.Ends spot place) := by
  obtain ⟨hshort, hwalks⟩ := walkPath_eq_ok_iff.mp hplace
  obtain ⟨spot, hspot, hends⟩ := halters.walks hwalks
  exact ⟨spot, walkPath_eq_ok_iff.mpr ⟨hshort, hspot⟩, hends⟩

end Alters

/-! ## Paths to files -/

theorem destination_of_locate (hplace : tree.locate path = .ok place) :
    tree.destination path = .ok place := by
  obtain ⟨spot, hspot, rfl | ⟨hfree, hends⟩⟩ := (alters_refl tree).walkPath hplace
  · exact hspot
  · rw [hends.eq_of_free hfree]
    exact hspot

/-- A path leads to a place where a file is or may be made. -/
structure Leads (tree : FileTree) (path : Path) (place : List Name) : Prop where
  destination : tree.destination path = .ok place
  free : tree.Free place

theorem Leads.put (hleads : tree.Leads path place) (hspot : tree.Free spot)
    (content : Content) : (tree.put spot (.file content)).Leads path place := by
  have halters := alters_put hspot content
  refine ⟨?_, halters.free hleads.free⟩
  obtain ⟨found, hfound, rfl | ⟨hfree, hends⟩⟩ := halters.walkPath hleads.destination
  · exact hfound
  · have hbefore : tree.Free found := by
      by_cases hsame : found = spot
      · exact hsame ▸ hspot
      · rwa [Free, node?_put_of_ne tree _ hsame] at hfree
    rw [hends.eq_of_free hbefore]
    exact hfound

/-- Where a file is made or replaced, paths that lead to files have led there
before. -/
theorem Leads.destination_of_put (hspot : tree.Free spot)
    (hleads : (tree.put spot (.file content)).Leads path place) :
    tree.destination path = .ok place := by
  have hback : (tree.put spot (.file content)).Alters tree := by
    intro q
    by_cases hq : q = spot
    · subst hq
      exact .inr ⟨hspot, .inr ⟨q, .file (node?_put_self tree _ hspot.ne_nil)⟩⟩
    · exact .inl (node?_put_of_ne tree _ hq).symm
  obtain ⟨found, hfound, rfl | ⟨hfree, hends⟩⟩ := hback.walkPath hleads.destination
  · exact hfound
  · rw [hends.eq_of_free ((alters_put hspot content).free hfree)]
    exact hfound

theorem Leads.write (hleads : tree.Leads path place) (t : Text) :
    tree.write path t = .ok (tree.put place (.file (.text t))) := by
  rw [FileTree.write, hleads.destination]
  rcases hleads.free with hnone | ⟨stored, hfile⟩
  · simp [hnone]
  · simp [hfile]

theorem Leads.above (hrooted : tree.Rooted) (hleads : tree.Leads path place) :
    tree.node? place.dropLast = some .directory := by
  have harrives := arrives_locate hrooted hleads.destination
  cases hlocate : tree.locate path with
  | error reason =>
    rw [hlocate] at harrives
    exact harrives.2.2
  | ok found =>
    rw [hlocate] at harrives
    obtain ⟨-, node, hnode, -⟩ := harrives
    exact hrooted _ _ hnode

theorem Leads.rooted_put (hrooted : tree.Rooted) (hleads : tree.Leads path place)
    (content : Content) : (tree.put place (.file content)).Rooted := by
  apply hrooted.put (hleads.above hrooted)
  rcases hleads.free with hnone | ⟨stored, hfile⟩
  · simp [hnone]
  · simp [hfile]

theorem exists_leads_of_write (hrooted : tree.Rooted) {t : Text}
    (hwrite : tree.write path t = .ok other) : ∃ place, tree.Leads path place ∧
      other = tree.put place (.file (.text t)) := by
  obtain ⟨place, hplace, hnot, hput⟩ := exists_place_of_write hwrite
  refine ⟨place, ⟨hplace, ?_⟩, hput⟩
  have harrives := arrives_locate hrooted hplace
  cases hlocate : tree.locate path with
  | error reason =>
    rw [hlocate] at harrives
    exact .inl harrives.2.1
  | ok found =>
    rw [hlocate] at harrives
    obtain ⟨-, node, hnode, hkind⟩ := harrives
    cases node with
    | directory => exact absurd hnode hnot
    | file content => exact .inr ⟨content, hnode⟩
    | link target => cases hkind

theorem exists_leads_of_read (hread : tree.read path = .ok content) :
    ∃ place, tree.Leads path place ∧ tree.node? place = some (.file content) := by
  obtain ⟨place, hplace, hnode⟩ := exists_place_of_read hread
  refine ⟨place, ⟨destination_of_locate hplace, .inr ⟨content, hnode⟩⟩, hnode⟩

theorem isFile?_of_read (hread : tree.read path = .ok content) : tree.isFile? path = .ok true := by
  obtain ⟨place, hplace, hnode⟩ := exists_place_of_read hread
  simp [isFile?, test, follow, hplace, bind, Except.bind, hnode]

theorem Walks.exists_directory (hwalks : tree.Walks false links here (parts ++ [part]) place) :
    ∃ mid, tree.Walks false links here parts mid ∧ tree.node? mid = some .directory := by
  generalize hwhole : parts ++ [part] = whole at hwalks
  induction hwalks generalizing parts with
  | done => simp at hwhole
  | make hhere hpart hnode hnew hlast => cases hnew
  | stay hhere hpart hrest ih =>
    cases parts with
    | nil => exact ⟨_, .done, hhere⟩
    | cons first parts =>
      obtain ⟨rfl, htail⟩ := List.cons.inj hwhole
      obtain ⟨mid, hmid, hdirectory⟩ := ih htail
      exact ⟨mid, .stay hhere hpart hmid, hdirectory⟩
  | up hhere hpart hrest ih =>
    cases parts with
    | nil => exact ⟨_, .done, hhere⟩
    | cons first parts =>
      obtain ⟨rfl, htail⟩ := List.cons.inj hwhole
      obtain ⟨mid, hmid, hdirectory⟩ := ih htail
      exact ⟨mid, .up hhere hpart hmid, hdirectory⟩
  | enter hhere hpart hnode hkind hrest ih =>
    cases parts with
    | nil => exact ⟨_, .done, hhere⟩
    | cons first parts =>
      obtain ⟨rfl, htail⟩ := List.cons.inj hwhole
      obtain ⟨mid, hmid, hdirectory⟩ := ih htail
      exact ⟨mid, .enter hhere hpart hnode hkind hmid, hdirectory⟩
  | follow hhere hpart hnode hrest ih =>
    cases parts with
    | nil => exact ⟨_, .done, hhere⟩
    | cons first parts =>
      obtain ⟨rfl, rfl⟩ := List.cons.inj hwhole
      obtain ⟨mid, hmid, hdirectory⟩ := ih (List.append_assoc _ _ _)
      exact ⟨mid, .follow hhere hpart hnode hmid, hdirectory⟩

theorem isDirectory?_of_read_child {name : Name}
    (hread : tree.read (path.child name) = .ok content) : tree.isDirectory? path = .ok true := by
  obtain ⟨place, hplace, -⟩ := exists_place_of_read hread
  obtain ⟨hsize, hwalks⟩ := walkPath_eq_ok_iff.mp hplace
  obtain ⟨mid, hmid, hdirectory⟩ := hwalks.exists_directory
  have hshort : (String.ofList path.text).utf8ByteSize ≤ maxPathBytes := by
    by_cases hnil : path.parts = []
    · simp [Path.text, hnil, WrittenPath.text, Text.joinWith]
      decide
    · rw [Path.child, Path.text_eq_flatMap (by simp)] at hsize
      rw [show path = ⟨path.parts⟩ from rfl, Path.text_eq_flatMap hnil]
      simp only [List.flatMap_append, String.ofList_append, String.utf8ByteSize_append] at hsize
      omega
  have hlocate : tree.locate path = .ok mid := walkPath_eq_ok_iff.mpr ⟨hshort, hmid⟩
  simp [isDirectory?, test, follow, hlocate, bind, Except.bind, hdirectory]

section Reading

variable (hrooted : tree.Rooted) (hleads : tree.Leads path place)
include hrooted hleads

theorem Leads.read_file (hnode : tree.node? place = some (.file content)) :
    tree.read path = .ok content := by
  have harrives := arrives_locate hrooted hleads.destination
  cases hlocate : tree.locate path with
  | error reason =>
    rw [hlocate] at harrives
    rw [harrives.2.1] at hnode
    cases hnode
  | ok found =>
    rw [hlocate] at harrives
    obtain ⟨rfl, -⟩ := harrives
    simp [read, follow, hlocate, bind, Except.bind, hnode]

theorem Leads.isFile? : tree.isFile? path = .ok (tree.node? place).isSome := by
  have harrives := arrives_locate hrooted hleads.destination
  cases hlocate : tree.locate path with
  | error reason =>
    rw [hlocate] at harrives
    obtain ⟨rfl, hnone, -⟩ := harrives
    simp [FileTree.isFile?, test, follow, hlocate, bind, Except.bind, hnone]
  | ok found =>
    rw [hlocate] at harrives
    obtain ⟨rfl, node, hnode, -⟩ := harrives
    rcases hleads.free with hnone | ⟨content, hfile⟩
    · rw [hnone] at hnode
      cases hnode
    · simp [FileTree.isFile?, test, follow, hlocate, bind, Except.bind, hfile]

end Reading

/-! ## Files that were replaced -/

def Meets (tree : FileTree) (path : Path) (place : List Name) : Prop :=
  tree.destination path = .ok place ∨
    ∃ directory name above, path = directory.child name ∧
      tree.locate directory = .ok above ∧ place = above ++ [name]

/-- The files at some paths were replaced by other files or by none. -/
structure Replaced (paths : List Path) (tree other : FileTree) : Prop where
  sound : other.Sound
  changed (place : List Name) : other.node? place = tree.node? place ∨
    other.Free place ∧ ∃ path ∈ paths, tree.Meets path place

theorem Meets.ends
    (hmeets : tree.Meets path spot) (hrooted : tree.Rooted) (hplace : tree.locate path = .ok place)
    (hfile : tree.node? place = some (.file content)) : tree.Ends spot place := by
  rcases hmeets with hspot | ⟨directory, name, above, rfl, habove, rfl⟩
  · rw [destination_of_locate hplace] at hspot
    cases hspot
    exact .file hfile
  · obtain ⟨-, hfirst⟩ := walkPath_eq_ok_iff.mp habove
    obtain ⟨-, hwalks⟩ := walkPath_eq_ok_iff.mp hplace
    obtain ⟨left, hlast⟩ := hfirst.after hwalks
    cases hlast with
    | stay hhere _ hrest =>
      cases hrest
      simp [hhere] at hfile
    | up hhere _ hrest =>
      cases hrest
      simp [hrooted _ _ hhere] at hfile
    | make _ _ _ hnew => cases hnew
    | follow _ _ hnode hrest =>
      rw [List.append_nil] at hrest
      exact .of_link hnode hrest hfile
    | enter _ _ _ _ hrest =>
      cases hrest
      exact .file hfile

theorem replaced_put (hsound : (tree.put place (.file content)).Sound) (hpath : path ∈ paths)
    (hleads : tree.Leads path place) : Replaced paths tree (tree.put place (.file content)) := by
  refine ⟨hsound, ?_⟩
  intro spot
  by_cases hspot : spot = place
  · refine .inr ⟨.inr ⟨content, ?_⟩, path, hpath, .inl ?_⟩
    · rw [hspot, node?_put_self tree _ hleads.free.ne_nil]
    · rw [hspot, hleads.destination]
  · exact .inl (node?_put_of_ne tree _ hspot)

theorem replaced_remove (hsound : tree.Sound) (hpath : path ∈ paths)
    (hleads : tree.Leads path place) : Replaced paths tree (tree.remove place) := by
  have hplace := hleads.free.ne_nil
  refine ⟨hsound.remove hplace, ?_⟩
  intro spot
  rw [Free, node?_remove tree hplace]
  split
  · rename_i hbelow
    by_cases hspot : place = spot
    · exact .inr ⟨.inl rfl, path, hpath, .inl (hspot ▸ hleads.destination)⟩
    · left
      cases hnode : tree.node? spot with
      | none => rfl
      | some node =>
        -- There is nothing below a file.
        have habove := hsound.directory_above hnode hbelow hspot
        rcases hleads.free with hnone | ⟨content, hfile⟩
        · simp [habove] at hnone
        · simp [habove] at hfile
  · exact .inl rfl

section Altered

variable (halters : tree.Alters other) {content : Content}
include halters

theorem Alters.exists_leads (hplace : tree.locate path = .ok place)
    (hfile : tree.node? place = some (.file content)) :
    ∃ spot, other.Leads path spot ∧ tree.Ends spot place := by
  obtain ⟨spot, hspot, rfl | ⟨hfree, hends⟩⟩ := halters.walkPath hplace
  · exact ⟨spot, ⟨hspot, halters.free (.inr ⟨_, hfile⟩)⟩, .file hfile⟩
  · exact ⟨spot, ⟨hspot, hfree⟩, hends⟩

theorem Alters.destination_ne {p q : Path} {stored : Content} (hp : tree.read p = .ok content)
    (hq : tree.read q = .ok stored) (hne : tree.destination p ≠ tree.destination q) :
    other.destination p ≠ other.destination q := by
  obtain ⟨place, hplace, hfile⟩ := exists_place_of_read hp
  obtain ⟨found, hfound, hstored⟩ := exists_place_of_read hq
  obtain ⟨spot, hspot, hends⟩ := halters.exists_leads hplace hfile
  obtain ⟨there, hthere, hends'⟩ := halters.exists_leads hfound hstored
  intro hsame
  rw [hspot.destination, hthere.destination] at hsame
  cases hsame
  apply hne
  rw [destination_of_locate hplace, destination_of_locate hfound, hends.unique hends']

end Altered

namespace Replaced

variable {paths : List Path} (hreplaced : Replaced paths tree other) (hrooted : tree.Rooted)
  (hfiles : ∀ q ∈ paths, ∃ content, tree.read q = .ok content)
include hreplaced hrooted hfiles

theorem alters : tree.Alters other := by
  intro place
  rcases hreplaced.changed place with hsame | ⟨hfree, q, hq, hmeets⟩
  · exact .inl hsame
  · obtain ⟨content, hread⟩ := hfiles q hq
    obtain ⟨found, hfound, hfile⟩ := exists_place_of_read hread
    exact .inr ⟨hfree, .inr ⟨found, hmeets.ends hrooted hfound hfile⟩⟩

theorem read_eq (hread : tree.read path = .ok content)
    (hapart : ∀ q ∈ paths, tree.destination path ≠ tree.destination q) :
    other.read path = .ok content := by
  obtain ⟨place, hplace, hfile⟩ := exists_place_of_read hread
  obtain ⟨spot, hleads, hends⟩ := (hreplaced.alters hrooted hfiles).exists_leads hplace hfile
  rcases hreplaced.changed spot with hsame | ⟨-, q, hq, hmeets⟩
  · have hfree : tree.Free spot := by
      have hother := hleads.free
      rwa [Free, hsame] at hother
    rw [hends.eq_of_free hfree] at hfile
    exact hleads.read_file hreplaced.sound.rooted (hsame.trans hfile)
  · obtain ⟨stored, hstored⟩ := hfiles q hq
    obtain ⟨found, hfound, hnode⟩ := exists_place_of_read hstored
    have hsame := hends.unique (hmeets.ends hrooted hfound hnode)
    refine absurd ?_ (hapart q hq)
    rw [destination_of_locate hplace, destination_of_locate hfound, hsame]

end Replaced

end Folio.FileTree
