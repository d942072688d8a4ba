import Folio.Proofs.GuardedShelf

/-!
# Guarded runs: values

A value of a guarded run is good: if it is a handle, or a method of one, the
handle is at a place that the guard allows.  The lists and variables of a guarded
world hold good values only, and what is done with good values gives good values.
-/

namespace Folio

open Action

variable {v : Value} {callKey : Value → Value → Run Value}

namespace Guard

variable {s : Setting} {g : Guard s} {α : Type} {P : α → Prop}

/-- A value that holds no handle outside the places of the guard. -/
def Good (g : Guard s) : Value → Prop
  | .file f => g.Place f.path
  | .fileMethod f _ => g.Place f.path
  | .directory d => g.Place d.path
  | .directoryMethod d _ => g.Place d.path
  | _ => True

/-- The world of a guarded run. -/
structure InWorld (g : Guard s) (w : World) : Prop where
  shelf : g.OnShelf w.shelf
  lists : ∀ items ∈ w.lists, ∀ v ∈ items, g.Good v
  bindings : ∀ binding ∈ w.bindings, g.Good binding.2

theorem InWorld.items {w : World} (hw : g.InWorld w) (ref : Nat) : ∀ v ∈ w.items ref, g.Good v := by
  unfold World.items
  cases hitems : w.lists[ref]? with
  | none => simp
  | some items => exact hw.lists items (Array.mem_of_getElem? hitems)

theorem good_of_lookup {bindings : List (String × Value)}
    (hgood : ∀ binding ∈ bindings, g.Good binding.2) {name : String}
    (hv : bindings.lookup name = some v) : g.Good v := by
  obtain ⟨before, after, rfl, -⟩ := List.lookup_eq_some_iff.mp hv
  exact hgood (name, v) (by simp)

theorem good_bind {bindings : List (String × Value)}
    (hgood : ∀ binding ∈ bindings, g.Good binding.2) (name : String) (hv : g.Good v) :
    ∀ binding ∈ (if bindings.any (·.1 == name) then
      bindings.map fun old => if old.1 == name then (old.1, v) else old
      else bindings ++ [(name, v)]), g.Good binding.2 := by
  split
  · intro binding hbinding
    obtain ⟨old, hold, rfl⟩ := List.mem_map.mp hbinding
    split
    · exact hv
    · exact hgood old hold
  · exact List.forall_mem_append.mpr ⟨hgood, List.forall_mem_singleton.mpr hv⟩

theorem InWorld.assign {w : World} (hw : g.InWorld w) (name : String) {v : Value}
    (hv : g.Good v) : g.InWorld (w.assign name v) :=
  ⟨hw.shelf, hw.lists, good_bind hw.bindings name hv⟩

/-- What a guarded run does and answers with a good value. -/
abbrev Gives (g : Guard s) (a : Run Value) : Prop := a.Keeps g.InWorld g.rounds g.Good

/-- What a guarded run does, whatever the answer. -/
abbrev Runs (g : Guard s) (a : Run α) : Prop := a.Keeps g.InWorld g.rounds fun _ => True

end Guard

/-! ## Steps of a run -/

namespace Run

variable {s : Setting} {g : Guard s} {α : Type} {P : α → Prop}

theorem keeps_onShelf {a : ShelfAction α} (ha : a.Keeps g.OnShelf g.rounds P) :
    (onShelf a).Keeps g.InWorld g.rounds P := ha.within (fun _ hw => hw.shelf) fun _ _ hshelf hw =>
    ⟨hshelf, hw.lists, hw.bindings⟩

theorem keeps_onTree {a : TreeAction α} (ha : a.Keeps g.Tree g.rounds P) :
    (onTree a).Keeps g.InWorld g.rounds P := keeps_onShelf (Guard.keeps_onTree ha)

theorem calm_onTree {a : TreeAction α} (ha : a.Calm) : (onTree a).Calm :=
  (ha.within fun _ => rfl).within fun _ => rfl

theorem calm_complain (c : Complaint) (hc : c.isAboutForm = false) : (complain c : Run α).Calm :=
  calm_throw _ hc

theorem calm_fail (e : Failure) : (fail e : Run α).Calm := calm_throw _ trivial

theorem keeps_fail (e : Failure) : (fail e : Run α).Keeps g.InWorld g.rounds P :=
  keeps_throw _ trivial

theorem keeps_complain (c : Complaint) (hc : c.isAboutForm = false) :
    (complain c : Run α).Keeps g.InWorld g.rounds P := keeps_throw _ hc

theorem calm_ofFailure (value : Except Failure α) : (ofFailure value).Calm := by
  cases value with
  | ok v => exact calm_pure v
  | error e => exact calm_throw _ trivial

theorem calm_ofOperand (value : Except OperandMistake α) : (ofOperand value).Calm := by
  cases value with
  | ok v => exact calm_pure v
  | error e => exact calm_throw _ trivial

theorem keeps_ofArgument {value : Except ArgumentMistake α} (hvalue : ∀ v, value = .ok v → P v) :
    (ofArgument value).Keeps g.InWorld g.rounds P := by
  cases value with
  | ok v => exact keeps_pure (hvalue v rfl)
  | error e => exact keeps_throw _ trivial

theorem calm_ofArgument (value : Except ArgumentMistake α) : (ofArgument value).Calm := by
  cases value with
  | ok v => exact calm_pure v
  | error e => exact calm_throw _ trivial

theorem keeps_items {n : Nat} (ref : Nat) :
    (items ref).Keeps g.InWorld n fun items => ∀ v ∈ items, g.Good v :=
  keeps_get.bind fun _ hw => keeps_pure (hw.items ref)

theorem calm_items (ref : Nat) : (items ref).Calm := calm_get.bind fun _ => calm_pure _

theorem keeps_newList {items : List Value} (hitems : ∀ v ∈ items, g.Good v) :
    g.Gives (newList items) := by
  refine keeps_get.bind fun w hw => ?_
  refine (keeps_set ⟨hw.shelf, ?_, hw.bindings⟩).bind fun _ _ => keeps_pure trivial
  intro list hlist
  rcases Array.mem_push.mp hlist with hlist | rfl
  · exact hw.lists list hlist
  · simpa using hitems

theorem keeps_changeList {ref : Nat} {f : Array Value → Array Value}
    (hf : ∀ items, (∀ v ∈ items, g.Good v) → ∀ v ∈ f items, g.Good v) :
    g.Runs (changeList ref f) := by
  refine keeps_modify fun w hw => ⟨hw.shelf, fun list hlist => ?_, hw.bindings⟩
  rcases mem_or_of_mem_modify hlist with hlist | ⟨old, hold, rfl⟩
  · exact hw.lists list hlist
  · exact hf old (hw.lists old hold)

theorem keeps_newList_map {items : List α} {f : α → Value} (hf : ∀ a, g.Good (f a)) :
    g.Gives (newList (items.map f)) := by
  refine keeps_newList fun v hv => ?_
  obtain ⟨a, -, rfl⟩ := List.mem_map.mp hv
  exact hf a

end Run

/-! ## Arguments -/

theorem Arguments.eq_of_unpack {function : String} {names : List String} {maxPositional : Nat}
    {args : Arguments} {bound : Bound}
    (hbound : args.unpack function names maxPositional = .ok bound) :
    args.positional.length ≤ maxPositional ∧ bound = ⟨names.zip args.positional ++ args.named⟩ := by
  unfold Arguments.unpack at hbound
  dsimp only at hbound
  split at hbound
  · cases hbound
  · split at hbound
    · cases hbound
    · rename_i hlength
      split at hbound
      · cases hbound
      · split at hbound
        · cases hbound
        · cases hbound
          exact ⟨not_lt.mp hlength, rfl⟩

namespace Guard

variable {s : Setting} {g : Guard s}

/-- The arguments of a call in a guarded run. -/
structure GoodArguments (g : Guard s) (args : Arguments) : Prop where
  positional : ∀ v ∈ args.positional, g.Good v
  named : ∀ arg ∈ args.named, g.Good arg.2

variable {args : Arguments}

theorem keeps_onlyPositional (hargs : g.GoodArguments args) (function : String) :
    (Run.ofArgument (args.onlyPositional function)).Keeps g.InWorld g.rounds
      fun given => ∀ v ∈ given, g.Good v := by
  refine Run.keeps_ofArgument fun given hgiven => ?_
  unfold Arguments.onlyPositional at hgiven
  split at hgiven
  · cases hgiven
    exact hargs.positional
  · cases hgiven

theorem keeps_takeOne (hargs : g.GoodArguments args) (function : String) :
    g.Gives (Run.ofArgument (args.takeOne function)) := by
  refine Run.keeps_ofArgument fun v hv => ?_
  unfold Arguments.takeOne Arguments.onlyPositional at hv
  split at hv
  · simp only [bind, Except.bind] at hv
    split at hv
    · rename_i other hpositional
      cases hv
      exact hargs.positional v (by simp [hpositional])
    · cases hv
  · cases hv

theorem keeps_unpack (hargs : g.GoodArguments args) (function : String) (names : List String)
    (maxPositional : Nat) :
    (Run.ofArgument (args.unpack function names maxPositional)).Keeps g.InWorld
      g.rounds fun bound => (∀ value ∈ bound.values, g.Good value.2) ∧
        args.positional.length ≤ maxPositional := by
  refine Run.keeps_ofArgument fun bound hbound => ?_
  obtain ⟨hlength, rfl⟩ := Arguments.eq_of_unpack hbound
  refine ⟨fun value hvalue => ?_, hlength⟩
  rcases List.mem_append.mp hvalue with hvalue | hvalue
  · exact hargs.positional _ (List.of_mem_zip hvalue).2
  · exact hargs.named value hvalue

end Guard

/-! ## Questions about a value -/

namespace Value

variable {s : Setting} {g : Guard s}

theorem calm_truth (v : Value) : v.truth.Calm := by
  unfold truth
  split
  case h_6 => exact (Run.calm_items _).bind fun _ => calm_pure _
  case h_7 =>
      exact (Run.calm_onTree (Directory.calm_size _)).bind fun _ => calm_pure _
  all_goals exact calm_pure _

theorem keeps_iterate? (hv : g.Good v) : v.iterate?.Keeps g.InWorld g.rounds
      fun found => ∀ items ∈ found, ∀ item ∈ items, g.Good item := by
  unfold iterate?
  split
  · refine keeps_pure fun items hitems item hitem => ?_
    cases hitems
    obtain ⟨c, -, rfl⟩ := List.mem_map.mp hitem
    trivial
  · refine (Run.keeps_items _).bind fun items hitems => keeps_pure ?_
    rintro _ ⟨⟩ item hitem
    exact hitems item (Array.mem_toList_iff.mp hitem)
  · rename_i d
    refine (Run.calm_onTree (Directory.calm_size d) _ _).bind fun _ _ => ?_
    refine (Run.keeps_onTree (Guard.keeps_loopPaths hv)).bind fun paths hpaths => ?_
    refine (keeps_mapList (Q := g.Good) fun path hpath => ?_).bind fun files hfiles => keeps_pure ?_
    · exact (Run.keeps_onShelf (Guard.keeps_loopFile (hpaths path hpath))).bind
        fun file hfile => keeps_pure hfile
    · rintro _ ⟨⟩ item hitem
      exact hfiles item hitem
  · exact keeps_pure nofun

theorem good_attribute? {w : Value} {name : String} (hv : g.Good v)
    (hw : v.attribute? name = some w) : g.Good w := by
  unfold attribute? at hw
  split at hw
  · obtain ⟨m, -, rfl⟩ := Option.map_eq_some_iff.mp hw
    trivial
  · obtain ⟨m, -, rfl⟩ := Option.map_eq_some_iff.mp hw
    trivial
  · split at hw
    · cases hw
      trivial
    · obtain ⟨m, -, rfl⟩ := Option.map_eq_some_iff.mp hw
      exact hv
  · split at hw
    · cases hw
      trivial
    · split at hw
      · cases hw
        trivial
      · obtain ⟨m, -, rfl⟩ := Option.map_eq_some_iff.mp hw
        exact hv
  · split at hw <;> cases hw <;> trivial
  · cases hw

theorem good_ofConstant (c : Source.Constant) : g.Good (ofConstant c) := by cases c <;> trivial

/-! ## Operators -/

theorem good_numberValue (x : Number) : g.Good x.value := by cases x <;> trivial

theorem keeps_arithmetic (symbol : String) (op : Number → Number → Except OperandMistake Number)
    (a b : Value) : g.Gives (arithmetic symbol op a b) := by
  unfold arithmetic
  split
  · exact (Run.calm_ofOperand _ _ _).bind fun x _ => keeps_pure (good_numberValue x)
  · exact Run.keeps_fail _

theorem keeps_add (a b : Value) : g.Gives (a.add b) := by
  unfold add
  split
  · exact keeps_pure trivial
  · refine (Run.keeps_items _).bind fun first hfirst => ?_
    refine (Run.keeps_items _).bind fun second hsecond => Run.keeps_newList ?_
    intro v hv
    rcases List.mem_append.mp hv with hv | hv
    · exact hfirst v (Array.mem_toList_iff.mp hv)
    · exact hsecond v (Array.mem_toList_iff.mp hv)
  · exact Run.keeps_fail _
  · exact Run.keeps_fail _
  · exact keeps_arithmetic _ _ _ _

theorem keeps_multiply (a b : Value) : g.Gives (a.multiply b) := by
  have htext : ∀ t times, g.Gives (repeatText t times) :=
    fun t times => (Run.calm_ofOperand _ _ _).bind fun _ _ => keeps_pure trivial
  have hlist : ∀ ref times, g.Gives (repeatList ref times) := by
    intro ref times
    refine (Run.keeps_items ref).bind fun items hitems => ?_
    refine (Run.calm_ofOperand _ _ _).bind fun n _ => Run.keeps_newList ?_
    intro v hv
    obtain ⟨copy, hcopy, hv⟩ := List.mem_flatten.mp hv
    rw [List.eq_of_mem_replicate hcopy] at hv
    exact hitems v (Array.mem_toList_iff.mp hv)
  unfold multiply
  split
  · exact htext _ _
  · exact hlist _ _
  · exact htext _ _
  · exact hlist _ _
  · exact keeps_arithmetic _ _ _ _

theorem keeps_divide (a b : Value) : g.Gives (a.divide b) := by
  unfold divide
  split
  · exact keeps_pure trivial
  · exact keeps_pure trivial
  · exact keeps_pure trivial
  · exact keeps_arithmetic _ _ _ _

theorem keeps_remainder (a b : Value) : g.Gives (a.remainder s b) := by
  unfold remainder
  split
  · exact keeps_get.bind fun w _ =>
      (Run.calm_ofFailure _ _ _).bind fun _ _ => keeps_pure trivial
  · exact keeps_arithmetic _ _ _ _

end Value

/-! ## Methods of texts -/

namespace TextMethod

variable {s : Setting} {g : Guard s} {args : Arguments}

theorem keeps_plain (m : TextMethod) (args : Arguments) {result : Value} (hresult : g.Good result) :
    g.Gives (m.plain args result) := (Run.calm_ofArgument _ _ _).bind fun _ _ => keeps_pure hresult

theorem keeps_cut (m : TextMethod) (how : (Char → Bool) → Text → Text) (t : Text)
    (args : Arguments) : g.Gives (m.cut how t args) := by
  refine (Run.calm_ofArgument _ _ _).bind fun given _ => ?_
  split
  · exact keeps_pure trivial
  · exact keeps_pure trivial
  · exact keeps_pure trivial
  · exact Run.keeps_fail _
  · exact Run.keeps_fail _

theorem keeps_texts (pieces : List Text) : g.Gives (texts pieces) :=
  Run.keeps_newList_map fun _ => trivial

theorem keeps_splitAt (t : Text) (args : Arguments) : g.Gives (splitAt t args) := by
  refine (Run.calm_ofArgument _ _ _).bind fun bound _ => ?_
  dsimp only
  split
  case' h_1 => refine (Run.calm_ofFailure _ _ _).bind fun limit _ => ?_
  case' h_2 => refine (calm_pure _ _ _).bind fun limit _ => ?_
  all_goals
    split
    · exact keeps_texts _
    · exact Run.keeps_fail _
    · exact keeps_texts _
    · exact Run.keeps_fail _

theorem keeps_lines (t : Text) (args : Arguments) : g.Gives (lines t args) := by
  refine (Run.calm_ofArgument _ _ _).bind fun bound _ => ?_
  dsimp only
  split
  · exact (Run.calm_ofFailure _ _ _).bind fun _ _ => keeps_texts _
  · exact (calm_pure _ _ _).bind fun _ _ => keeps_texts _

theorem calm_textArgument (name : String) (position : Nat) (v : Value) :
    (textArgument name position v).Calm := by
  unfold textArgument
  split
  · exact calm_pure _
  · exact Run.calm_fail _

theorem keeps_substitute (m : TextMethod) (t : Text) (args : Arguments) :
    g.Gives (m.substitute t args) := by
  refine (Run.calm_ofArgument _ _ _).bind fun given _ => ?_
  split
  · refine keeps_guard (Run.keeps_fail _) ?_
    refine (calm_textArgument _ _ _ _ _).bind fun old _ => ?_
    refine (calm_textArgument _ _ _ _ _).bind fun new _ => ?_
    dsimp only
    split
    · exact (Run.calm_ofFailure _ _ _).bind fun _ _ => keeps_pure trivial
    · exact (calm_pure _ _ _).bind fun _ _ => keeps_pure trivial
  · exact Run.keeps_fail _

theorem calm_searchArguments (m : TextMethod) (t : Text) (args : Arguments) :
    (m.searchArguments t args).Calm := by
  refine (Run.calm_ofArgument _).bind fun given => ?_
  split
  · exact Run.calm_fail _
  · refine calm_guard (Run.calm_fail _) ?_
    refine (Run.calm_ofFailure _).bind fun start => ?_
    exact (Run.calm_ofFailure _).bind fun stop => calm_pure _

theorem calm_needleOf (v : Value) : (needleOf v).Calm := by
  unfold needleOf
  split
  · exact calm_pure _
  · exact Run.calm_fail _

theorem keeps_callFind (m : TextMethod) (t : Text) (args : Arguments) :
    g.Gives (m.callFind t args) := by
  refine (m.calm_searchArguments t args _ _).bind fun found _ => ?_
  refine (calm_needleOf _ _ _).bind fun needle _ => ?_
  split
  · exact keeps_pure trivial
  · split
    · exact keeps_pure trivial
    · exact keeps_pure trivial

theorem keeps_callCount (m : TextMethod) (t : Text) (args : Arguments) :
    g.Gives (m.callCount t args) := by
  refine (m.calm_searchArguments t args _ _).bind fun found _ => ?_
  refine (calm_needleOf _ _ _).bind fun needle _ => ?_
  split
  · exact keeps_pure trivial
  · exact keeps_pure trivial

theorem keeps_affix (m : TextMethod) (test : Text → Text → Bool) (t : Text) (args : Arguments) :
    g.Gives (m.affix test t args) := by
  refine (m.calm_searchArguments t args _ _).bind fun ⟨needle, window⟩ _ => ?_
  dsimp only
  split
  · exact keeps_pure trivial
  · exact Run.keeps_fail _

theorem keeps_callJoin (hargs : g.GoodArguments args) (m : TextMethod)
    (t : Text) : g.Gives (m.callJoin t args) := by
  refine (Guard.keeps_takeOne hargs _).bind fun source hsource => ?_
  refine (Value.keeps_iterate? hsource).bind fun found _ => ?_
  split
  · exact Run.keeps_fail _
  · exact (Run.calm_ofArgument _ _ _).bind fun _ _ => keeps_pure trivial

theorem keeps_call (hargs : g.GoodArguments args) (m : TextMethod) (t : Text) :
    g.Gives (m.call t args) := by
  cases m with
  | upper => exact keeps_plain _ args trivial
  | lower => exact keeps_plain _ args trivial
  | title => exact keeps_plain _ args trivial
  | isDigit => exact keeps_plain _ args trivial
  | strip => exact keeps_cut _ _ t args
  | stripLeft => exact keeps_cut _ _ t args
  | stripRight => exact keeps_cut _ _ t args
  | split => exact keeps_splitAt t args
  | splitLines => exact keeps_lines t args
  | replace => exact keeps_substitute _ t args
  | startsWith => exact keeps_affix _ _ t args
  | endsWith => exact keeps_affix _ _ t args
  | find => exact keeps_callFind _ t args
  | count => exact keeps_callCount _ t args
  | join => exact keeps_callJoin hargs _ t

end TextMethod

/-! ## Methods of lists -/

namespace Sorting

variable {α ε : Type} {less : α → α → Except ε Bool} {a : α}

theorem mem_of_mem_insertAll {sorted : Array α} {items : List α}
    (ha : a ∈ (insertAll less sorted items).1) : a ∈ sorted ∨ a ∈ items := by
  induction items generalizing sorted with
  | nil => exact .inl (Array.mem_toList_iff.mp ha)
  | cons b rest ih =>
    unfold insertAll at ha
    split at ha
    · rcases ih ha with ha | ha
      · rcases List.mem_append.mp (List.mem_toArray.mp ha) with ha | ha
        · exact .inl (Array.mem_toList_iff.mp (List.mem_of_mem_take ha))
        · rcases List.mem_cons.mp ha with rfl | ha
          · exact .inr List.mem_cons_self
          · exact .inl (Array.mem_toList_iff.mp (List.mem_of_mem_drop ha))
      · exact .inr (List.mem_cons_of_mem b ha)
    · rcases List.mem_append.mp ha with ha | ha
      · exact .inl (Array.mem_toList_iff.mp ha)
      · exact .inr ha

theorem mem_of_mem_orderRun {items ordered : List α} {length : Nat}
    (hrun : orderRun less items = .ok (ordered, length)) (ha : a ∈ ordered) : a ∈ items := by
  unfold orderRun at hrun
  split at hrun
  · simp only [bind, Except.bind, pure, Except.pure] at hrun
    split at hrun
    · cases hrun
    · split at hrun
      · split at hrun
        · cases hrun
        · cases hrun
          rcases List.mem_append.mp ha with ha | ha
          · exact List.mem_of_mem_take (List.mem_reverse.mp ha)
          · exact List.mem_of_mem_drop ha
      · split at hrun
        · cases hrun
        · cases hrun
          exact ha
  · cases hrun
    exact ha

theorem mem_of_mem_sort {items : List α} (ha : a ∈ (sort less items).1) : a ∈ items := by
  unfold sort at ha
  split at ha
  · exact ha
  · rename_i ordered length hrun
    refine mem_of_mem_orderRun hrun ?_
    rcases mem_of_mem_insertAll ha with ha | ha
    · exact List.mem_of_mem_take (List.mem_toArray.mp ha)
    · exact List.mem_of_mem_drop ha

end Sorting

namespace ListMethod

variable {s : Setting} {g : Guard s} {args : Arguments}

theorem keeps_callAppend (hargs : g.GoodArguments args) (m : ListMethod)
    (ref : Nat) : g.Gives (m.callAppend ref args) := by
  refine (Guard.keeps_takeOne hargs _).bind fun item hitem => ?_
  refine (Run.keeps_changeList fun items hitems v hv => ?_).bind fun _ _ => keeps_pure trivial
  rcases Array.mem_push.mp hv with hv | rfl
  · exact hitems v hv
  · exact hitem

theorem keeps_callExtend (hargs : g.GoodArguments args) (m : ListMethod)
    (ref : Nat) : g.Gives (m.callExtend ref args) := by
  refine (Guard.keeps_takeOne hargs _).bind fun source hsource => ?_
  refine (Value.keeps_iterate? hsource).bind fun found hfound => ?_
  split
  · exact Run.keeps_fail _
  · rename_i added
    refine (Run.keeps_changeList fun items hitems v hv => ?_).bind fun _ _ => keeps_pure trivial
    rcases Array.mem_append.mp hv with hv | hv
    · exact hitems v hv
    · exact hfound added rfl v (by simpa using hv)

theorem keeps_callInsert (hargs : g.GoodArguments args) (m : ListMethod)
    (ref : Nat) : g.Gives (m.callInsert ref args) := by
  refine (Guard.keeps_onlyPositional hargs _).bind fun given hgiven => ?_
  split
  · rename_i position item
    refine (Run.calm_ofFailure _ _ _).bind fun n _ => ?_
    refine (Run.keeps_changeList fun items hitems v hv => ?_).bind fun _ _ => keeps_pure trivial
    rcases List.mem_append.mp (List.mem_toArray.mp hv) with hv | hv
    · exact hitems v (Array.mem_toList_iff.mp (List.mem_of_mem_take hv))
    · rcases List.mem_cons.mp hv with rfl | hv
      · exact hgiven v (by simp)
      · exact hitems v (Array.mem_toList_iff.mp (List.mem_of_mem_drop hv))
  · exact Run.keeps_fail _

theorem keeps_eraseIdx (ref i : Nat) :
    (Run.changeList ref fun items => (items.toList.eraseIdx i).toArray).Keeps
      g.InWorld g.rounds fun _ => True := by
  refine Run.keeps_changeList fun items hitems v hv => hitems v ?_
  exact Array.mem_toList_iff.mp (List.mem_of_mem_eraseIdx (by simpa using hv))

theorem keeps_takeOut (ref : Nat) (n : Int) : g.Gives (takeOut ref n) := by
  refine (Run.keeps_items ref).bind fun items hitems => ?_
  refine keeps_guard (Run.keeps_fail _) ?_
  refine keeps_guard (Run.keeps_fail _) ?_
  split
  · exact Run.keeps_fail _
  · rename_i item hitem
    exact (keeps_eraseIdx ref _).bind fun _ _ =>
      keeps_pure (hitems item (Array.mem_of_getElem? hitem))

theorem keeps_callPop (m : ListMethod) (ref : Nat) (args : Arguments) :
    g.Gives (m.callPop ref args) := by
  refine (Run.calm_ofArgument _ _ _).bind fun given _ => ?_
  split
  · exact keeps_takeOut _ _
  · exact (Run.calm_ofFailure _ _ _).bind fun n _ => keeps_takeOut _ n
  · exact Run.keeps_fail _

theorem keeps_callRemove (m : ListMethod) (ref : Nat) (args : Arguments) :
    g.Gives (m.callRemove ref args) := by
  refine (Run.calm_ofArgument _ _ _).bind fun item _ => ?_
  refine keeps_get.bind fun w _ => ?_
  split
  · exact Run.keeps_fail _
  · exact (keeps_eraseIdx ref _).bind fun _ _ => keeps_pure trivial

theorem keeps_callIndex (m : ListMethod) (ref : Nat) (args : Arguments) :
    g.Gives (m.callIndex s ref args) := by
  refine (Run.calm_ofArgument _ _ _).bind fun given _ => ?_
  split
  · exact Run.keeps_fail _
  · refine keeps_guard (Run.keeps_fail _) ?_
    refine keeps_get.bind fun w _ => ?_
    refine (Run.calm_ofFailure _ _ _).bind fun start _ => ?_
    refine (Run.calm_ofFailure _ _ _).bind fun stop _ => ?_
    dsimp only
    split
    · exact keeps_pure trivial
    · exact (Run.calm_ofFailure _ _ _).bind fun _ _ => Run.keeps_fail _

theorem keeps_fillWith {items : List Value} (hitems : ∀ v ∈ items, g.Good v)
    (ref : Nat) : g.Runs (fillWith ref items) :=
  Run.keeps_changeList fun _ _ v hv => hitems v (by simpa using hv)

theorem keeps_keysFor {key : Value} (hkey : ∀ item, g.Good item → g.Gives (callKey key item))
    {items : List Value} (hitems : ∀ v ∈ items, g.Good v) (ref : Nat) :
    g.Runs (keysFor callKey ref items key) := by
  unfold keysFor
  split
  · exact keeps_pure trivial
  · refine (keeps_fillWith (by simp) ref).bind fun _ _ => ?_
    refine Keeps.tryCatch ?_ fun e he => ?_
    · exact (keeps_mapList fun item hitem => hkey item (hitems item hitem)).imp fun _ _ => trivial
    · exact (keeps_fillWith hitems ref).bind fun _ _ => keeps_throw e he

theorem keeps_callSort (hargs : g.GoodArguments args)
    (hkey : args.positional = [] → ∀ key item, g.Good key → g.Good item →
      g.Gives (callKey key item)) (ref : Nat) : g.Gives (callSort callKey ref args) := by
  refine (Guard.keeps_unpack hargs _ _ _).bind fun bound hbound => ?_
  obtain ⟨hvalues, hlength⟩ := hbound
  have hgood : g.Good (bound.value "key") := by
    unfold Bound.value
    cases hlookup : bound.values.lookup "key" with
    | none => trivial
    | some v => exact Guard.good_of_lookup hvalues hlookup
  have hcall := fun item => hkey (List.length_eq_zero_iff.mp (by omega)) _ item hgood
  dsimp only
  split
  case' h_1 => refine (Run.calm_ofFailure _ _ _).bind fun backwards _ => ?_
  case' h_2 => refine (calm_pure _ _ _).bind fun backwards _ => ?_
  all_goals
    refine (Run.keeps_items ref).bind fun items hitems => ?_
    have hitems : ∀ v ∈ items.toList, g.Good v := fun v hv =>
      hitems v (Array.mem_toList_iff.mp hv)
    refine (keeps_keysFor hcall hitems ref).bind fun keys _ => ?_
    refine keeps_get.bind fun w _ => ?_
    refine (keeps_fillWith (fun v hv => ?_) ref).bind fun _ _ => ?_
    · obtain ⟨pair, hpair, rfl⟩ := List.mem_map.mp hv
      have hturn : ∀ pairs : List (Value × Value),
          pair ∈ (if backwards then pairs.reverse else pairs) → pair ∈ pairs := by
        intro pairs hmem
        split at hmem
        · exact List.mem_reverse.mp hmem
        · exact hmem
      exact hitems _ (List.of_mem_zip (hturn _ (Sorting.mem_of_mem_sort (hturn _ hpair)))).2
    · repeat' split
      all_goals first
        | exact Run.keeps_fail _
        | exact keeps_pure trivial

theorem keeps_call (hargs : g.GoodArguments args)
    (hkey : args.positional = [] → ∀ key item, g.Good key → g.Good item →
      g.Gives (callKey key item)) (m : ListMethod) (ref : Nat) :
    g.Gives (m.call s callKey ref args) := by
  cases m with
  | append => exact keeps_callAppend hargs _ ref
  | extend => exact keeps_callExtend hargs _ ref
  | insert => exact keeps_callInsert hargs _ ref
  | pop => exact keeps_callPop _ ref args
  | remove => exact keeps_callRemove _ ref args
  | index => exact keeps_callIndex _ ref args
  | count =>
    exact (Run.calm_ofArgument _ _ _).bind fun _ _ =>
      keeps_get.bind fun _ _ => keeps_pure trivial
  | sort => exact keeps_callSort hargs hkey ref
  | reverse =>
    refine (Run.calm_ofArgument _ _ _).bind fun _ _ => ?_
    exact (Run.keeps_changeList fun items hitems v hv => hitems v
      (by simpa using hv)).bind fun _ _ => keeps_pure trivial
  | copy =>
    refine (Run.calm_ofArgument _ _ _).bind fun _ _ => ?_
    exact (Run.keeps_items ref).bind fun items hitems =>
      Run.keeps_newList fun v hv => hitems v (Array.mem_toList_iff.mp hv)
  | clear =>
    refine (Run.calm_ofArgument _ _ _).bind fun _ _ => ?_
    exact (Run.keeps_changeList fun _ _ v hv => by simp at hv).bind fun _ _ => keeps_pure trivial

end ListMethod

end Folio
