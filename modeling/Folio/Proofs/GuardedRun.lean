import Folio.Proofs.GuardedValues
import Folio.Proofs.ProgramForm

/-!
# Guarded runs: programs

Calls, expressions and statements keep what a guard asks for, and so does every
runnable program, wherever it is stopped.  The induction is on the program; the
rounds of a loop over a list are counted against the checkpoints they pass.

So no run of a program that is read from a text ends in a complaint about its
form, and none is given up before its time.
-/

namespace Folio

open Action

variable {d : Directory} {body : Run Unit}

/-! ## Methods of files and directories -/

namespace Run

theorem calm_compilePattern (pattern ignoreCase : Value) :
    (compilePattern pattern ignoreCase).Calm := by
  unfold compilePattern
  split
  · refine (Value.calm_truth _).bind fun ignore => ?_
    split
    · exact calm_pure _
    · split
      · exact calm_complain _ rfl
      · exact calm_fail _
  · exact calm_complain _ rfl

theorem calm_limitArgument (least : Int) {complaint : Complaint}
    (hform : complaint.isAboutForm = false) (v : Value) :
    (limitArgument least complaint v).Calm := by
  unfold limitArgument
  split
  · split
    · exact calm_complain _ hform
    · exact calm_pure _
  · exact calm_complain _ hform

theorem calm_sizeArgument (least : Int) {complaint : Complaint}
    (hform : complaint.isAboutForm = false) (v : Value) : (sizeArgument least complaint v).Calm :=
  (calm_limitArgument _ hform _).bind fun _ => calm_pure _

theorem calm_request (query limit : Value) : (request query limit).Calm := by
  unfold request
  split
  · exact calm_pure _
  · rename_i c hc
    refine calm_complain _ ?_
    unfold Index.Request.make at hc
    repeat' split at hc
    all_goals cases hc <;> rfl

theorem calm_choice (fallback : Bool) (v : Value) : (choice fallback v).Calm := by
  unfold choice
  split
  · exact calm_pure _
  · exact Value.calm_truth _

variable {s : Setting} {g : Guard s}

theorem keeps_texts (ts : List Text) : g.Gives (texts ts) := keeps_newList_map fun _ => trivial

end Run

variable {s : Setting} {g : Guard s}

namespace FileMethod

theorem keeps_matchingPages (f : File) (b : Bound) : g.Runs (matchingPages s f b) := by
  refine (keeps_check _).bind fun _ _ => ?_
  refine (Run.calm_compilePattern _ _ _ _).bind fun pattern _ => ?_
  exact Run.keeps_onShelf (Guard.keeps_search f pattern)

theorem keeps_call (m : FileMethod) {f : File} (hf : g.Place f.path)
    (args : Arguments) : g.Gives (m.call s f args) := by
  refine (Run.calm_ofArgument _ _ _).bind fun b _ => ?_
  cases m with
  | read =>
    refine keeps_get.bind fun w _ => ?_
    refine (Run.keeps_onShelf (Guard.keeps_read f _)).bind fun result _ => ?_
    cases result with
    | text t => exact keeps_pure trivial
    | texts ts => exact Run.keeps_texts ts
  | search =>
    exact (keeps_matchingPages f b).bind fun pages _ =>
      Run.keeps_newList_map fun _ => trivial
  | contains => exact (keeps_matchingPages f b).bind fun _ _ => keeps_pure trivial
  | head =>
    exact (Run.keeps_onShelf (Guard.keeps_head f)).bind fun _ _ =>
      keeps_pure trivial
  | tail =>
    exact (Run.keeps_onShelf (Guard.keeps_tail f)).bind fun _ _ =>
      keeps_pure trivial
  | table =>
    refine (keeps_check _).bind fun _ _ => ?_
    refine (Run.calm_sizeArgument _ rfl _ _ _).bind fun limit _ => ?_
    exact (Run.keeps_onShelf (Guard.keeps_table f limit)).bind fun _ _ =>
      keeps_pure trivial
  | semanticSearch =>
    refine (Run.calm_request _ _ _ _).bind fun request _ => ?_
    exact (Run.keeps_onShelf (Guard.keeps_fileSemanticSearch hf request)).bind
      fun _ _ => Run.keeps_texts _
  | snippets =>
    refine (keeps_check _).bind fun _ _ => ?_
    refine (Run.calm_sizeArgument _ rfl _ _ _).bind fun limit _ => ?_
    refine (Run.calm_sizeArgument _ rfl _ _ _).bind fun context _ => ?_
    refine (Run.calm_compilePattern _ _ _ _).bind fun pattern _ => ?_
    exact (Run.keeps_onShelf (Guard.keeps_snippets f pattern limit context)).bind
      fun _ _ => Run.keeps_texts _

end FileMethod

namespace DirectoryMethod

theorem keeps_handles {files : List File} (hfiles : ∀ f ∈ files, g.Place f.path) :
    g.Gives (handles files) := by
  refine Run.keeps_newList fun v hv => ?_
  obtain ⟨f, hf, rfl⟩ := List.mem_map.mp hv
  exact hfiles f hf

theorem calm_scope (inContent : Bool) (v : Value) : (scope inContent v).Calm := by
  unfold scope
  split
  · exact calm_pure _
  · split
    · split
      · exact calm_pure _
      · exact Run.calm_complain _ rfl
    · exact Run.calm_fail _
    · exact Run.calm_complain _ rfl

theorem keeps_callSearch (hd : g.Place d.path) (b : Bound) : g.Gives (callSearch s d b) := by
  refine (keeps_check _).bind fun _ _ => ?_
  refine (Value.calm_truth _ _ _).bind fun inContent _ => ?_
  refine (calm_scope _ _ _ _).bind fun scope _ => ?_
  refine (Run.calm_compilePattern _ _ _ _).bind fun pattern _ => ?_
  refine (Run.calm_choice _ _ _ _).bind fun inside _ => ?_
  exact (Run.keeps_onShelf (Guard.keeps_directorySearch hd pattern scope inside)).bind
    fun _ hfiles => keeps_handles hfiles

theorem keeps_callSemanticSearch (hd : g.Place d.path)
    (b : Bound) : g.Gives (callSemanticSearch s d b) := by
  refine (keeps_check _).bind fun _ _ => ?_
  refine (Run.calm_request _ _ _ _).bind fun request _ => ?_
  have hfound : ∀ inside : Bool, g.Gives (Run.onTree (d.semanticSearch s request inside)
      >>= Run.texts) := fun inside =>
    (Run.keeps_onTree (Guard.keeps_directorySemanticSearch hd request inside)).bind
      fun _ _ => Run.keeps_texts _
  dsimp only
  split
  · exact (calm_pure _ _ _).bind fun inside _ => hfound inside
  · exact (calm_pure _ _ _).bind fun inside _ => hfound inside
  · exact (Run.calm_complain _ rfl _ _).bind fun inside _ => hfound inside

theorem keeps_call (m : DirectoryMethod) (hd : g.Place d.path)
    (args : Arguments) : g.Gives (m.call s d args) := by
  refine (Run.calm_ofArgument _ _ _).bind fun b _ => ?_
  cases m with
  | files =>
    refine (keeps_check _).bind fun _ _ => ?_
    refine (Run.calm_choice _ _ _ _).bind fun inside _ => ?_
    exact (Run.keeps_onShelf (Guard.keeps_files hd inside)).bind
      fun _ hfiles => keeps_handles hfiles
  | tree =>
    refine (keeps_check _).bind fun _ _ => ?_
    refine (Run.calm_sizeArgument _ rfl _ _ _).bind fun depth _ => ?_
    refine (Run.calm_limitArgument _ rfl _ _ _).bind fun entries _ => ?_
    exact (Run.calm_onTree (d.calm_tree s depth entries) _ _).bind fun _ _ => keeps_pure trivial
  | search => exact keeps_callSearch hd b
  | semanticSearch => exact keeps_callSemanticSearch hd b
  | length => exact (Run.calm_onTree d.calm_size _ _).bind fun _ _ => keeps_pure trivial

end DirectoryMethod

/-! ## Calls -/

namespace Builtin

theorem keeps_openDirectory (args : Arguments) : g.Gives (openDirectory s args) := by
  refine (Run.calm_ofArgument _ _ _).bind fun b _ => ?_
  split
  · refine (Run.keeps_onTree (g.locate _)).bind fun found hfound => ?_
    split
    · exact (Run.keeps_onShelf (Guard.keeps_openDirectoryAt hfound _)).bind
        fun _ hplace => keeps_pure hplace
    · exact Run.keeps_complain _ rfl
  · exact Run.keeps_complain _ rfl

theorem keeps_openFile (args : Arguments) : g.Gives (openFile s args) := by
  refine (Run.calm_ofArgument _ _ _).bind fun b _ => ?_
  split
  · exact (Run.keeps_onShelf (Guard.keeps_openNamedFile _)).bind fun _ hplace => keeps_pure hplace
  · exact Run.keeps_complain _ rfl

theorem calm_printAll (values : List Value) : (printAll s values).Calm := by
  induction values with
  | nil => exact calm_print _
  | cons v rest ih =>
    refine calm_get.bind fun w => (Run.calm_ofFailure _).bind fun shown => ?_
    refine (calm_print _).bind fun _ => ?_
    exact calm_guard (calm_print _) ih

theorem keeps_callLength (args : Arguments) : g.Gives (callLength args) := by
  refine (Run.calm_ofArgument _ _ _).bind fun v _ => ?_
  split
  · exact keeps_pure trivial
  · exact (Run.keeps_items _).bind fun _ _ => keeps_pure trivial
  · exact (Run.calm_onTree (Directory.calm_size _) _ _).bind fun _ _ => keeps_pure trivial
  · exact Run.keeps_fail _

theorem keeps_call (b : Builtin) (args : Arguments) : g.Gives (b.call s args) := by
  cases b with
  | directory => exact keeps_openDirectory args
  | file => exact keeps_openFile args
  | print =>
    refine (Run.calm_ofArgument _ _ _).bind fun _ _ => ?_
    exact (calm_printAll _ _ _).bind fun _ _ => keeps_pure trivial
  | length => exact keeps_callLength args

end Builtin

namespace Value

theorem keeps_callWith {callKey : Value → Value → Run Value} {args : Arguments}
    (hargs : g.GoodArguments args)
    (hkey : args.positional = [] → ∀ key item, g.Good key → g.Good item →
      g.Gives (callKey key item)) {callee : Value} (hcallee : g.Good callee) :
    g.Gives (callee.callWith s callKey args) := by
  unfold callWith
  split
  · exact Builtin.keeps_call _ args
  · exact TextMethod.keeps_call hargs _ _
  · exact ListMethod.keeps_call hargs hkey _ _
  · exact FileMethod.keeps_call _ hcallee args
  · exact DirectoryMethod.keeps_call _ hcallee args
  · exact Run.keeps_fail _

/-- Finding a key is never given up: with an argument by position, nothing is
sorted. -/
theorem keeps_callKey {key item : Value} (hkey : g.Good key) (hitem : g.Good item) :
    g.Gives (callKey s key item) := by
  refine keeps_callWith ⟨?_, by simp⟩ (fun hnone => ?_) hkey
  · intro v hv
    rw [List.mem_singleton.mp hv]
    exact hitem
  · cases hnone

theorem keeps_call {callee : Value} (hcallee : g.Good callee) {args : Arguments}
    (hargs : g.GoodArguments args) : g.Gives (callee.call s args) :=
  keeps_callWith hargs (fun _ _ _ hkey hitem => keeps_callKey hkey hitem) hcallee

end Value

/-! ## Expressions -/

namespace Scene

open Source

variable {sc : Scene} {g : Guard sc.setting} {α : Type} {P : α → Prop}

theorem keeps_complain (c : Complaint) (loc : Option Location) (hform : c.isAboutForm = false) :
    (sc.complain c loc : Run α).Keeps g.InWorld g.rounds P := keeps_throw _ hform

theorem keeps_reportAt {step : Run α} (hstep : step.Keeps g.InWorld g.rounds P)
    (loc : Option Location) : (sc.reportAt loc step).Keeps g.InWorld g.rounds P := by
  refine hstep.tryCatch fun fault hfault => ?_
  split
  · exact keeps_complain _ _ rfl
  · exact keeps_throw _ hfault

theorem keeps_reportCallAt {step : Run α} (hstep : step.Keeps g.InWorld g.rounds P)
    (loc : Option Location) : (sc.reportCallAt loc step).Keeps g.InWorld g.rounds P := by
  refine hstep.tryCatch fun fault hfault => ?_
  split
  · refine keeps_complain _ _ ?_
    split <;> rfl
  · exact keeps_throw _ hfault

theorem keeps_lookUp (name : String) (loc : Option Location) : g.Gives (sc.lookUp name loc) := by
  refine keeps_get.bind fun w hw => ?_
  split
  · rename_i v hv
    exact keeps_pure (Guard.good_of_lookup hw.bindings hv)
  · split
    · exact keeps_pure trivial
    · exact keeps_complain _ _ rfl

theorem keeps_getAttribute {object : Value} (hobject : g.Good object) (name : String)
    (loc : Option Location) : g.Gives (sc.getAttribute object name loc) := by
  unfold getAttribute
  split
  · rename_i v hv
    exact keeps_pure (Value.good_attribute? hobject hv)
  · exact keeps_complain _ _ rfl

theorem keeps_range (first last : Value) (loc : Option Location) :
    (sc.range first last loc).Keeps g.InWorld g.rounds fun values => ∀ v ∈ values, g.Good v := by
  unfold range
  split
  · refine keeps_pure fun v hv => ?_
    obtain ⟨n, -, rfl⟩ := List.mem_map.mp hv
    trivial
  · exact keeps_complain _ _ rfl

theorem keeps_unary {op : UnaryOp} (hop : op.isKnown = true) (v : Value) (loc : Option Location) :
    g.Gives (sc.unary op v loc) := by
  cases op with
  | not => exact (v.calm_truth _ _).bind fun _ _ => keeps_pure trivial
  | negate =>
    unfold unary
    dsimp only
    split
    · exact keeps_pure trivial
    · exact keeps_complain _ _ rfl
  | other spelling => cases hop

/-- The operators `and` and `or` do not get here: they are evaluated by
themselves. -/
theorem keeps_binary {op : BinaryOp} (hop : op.isKnown = true) (hand : op ≠ .and) (hor : op ≠ .or)
    (left right : Value) (loc : Option Location) : g.Gives (sc.binary op left right loc) := by
  cases op with
  | and => exact absurd rfl hand
  | or => exact absurd rfl hor
  | add => exact Value.keeps_add _ _
  | subtract => exact Value.keeps_arithmetic _ _ _ _
  | multiply => exact Value.keeps_multiply _ _
  | divide => exact Value.keeps_divide _ _
  | remainder => exact Value.keeps_remainder _ _
  | other spelling => cases hop

theorem keeps_compare {op : CompareOp} (hop : op.isKnown = true) (left right : Value)
    (loc : Option Location) : g.Gives (sc.compare op left right loc) := by
  have hsize : ∀ test, g.Gives (compareBySize test left right) :=
    fun test => keeps_get.bind fun _ _ =>
      (Run.calm_ofOperand _ _ _).bind fun _ _ => keeps_pure trivial
  cases op with
  | equal => exact keeps_get.bind fun _ _ => keeps_pure trivial
  | notEqual => exact keeps_get.bind fun _ _ => keeps_pure trivial
  | less => exact hsize _
  | lessEqual => exact hsize _
  | greater => exact hsize _
  | greaterEqual => exact hsize _
  | isIn =>
    exact keeps_reportAt (keeps_get.bind fun _ _ =>
      (Run.calm_ofOperand _ _ _).bind fun _ _ => keeps_pure trivial) _
  | other spelling => cases hop

theorem good_addNamed {named : List (String × Value)} (hnamed : ∀ arg ∈ named, g.Good arg.2)
    (name : String) {v : Value} (hv : g.Good v) : ∀ arg ∈ addNamed named name v,
    g.Good arg.2 := Guard.good_bind hnamed name hv

mutual

theorem keeps_eval (g : Guard sc.setting) : ∀ e : Expr, e.evaluable = true → g.Gives (sc.eval e)
  | .constant value _, _ => (keeps_check _).bind fun _ _ => keeps_pure (Value.good_ofConstant value)
  | .name identifier loc, _ => (keeps_check _).bind fun _ _ => keeps_lookUp identifier loc
  | .range _ _ _, he => by cases he
  | .list items _, he =>
    (keeps_check _).bind fun _ _ =>
      (keeps_evalItems g items he).bind fun _ hitems => Run.keeps_newList hitems
  | .attribute object name loc, he =>
    (keeps_check _).bind fun _ _ =>
      (keeps_eval g object he).bind fun _ hobject =>
        keeps_getAttribute hobject name loc
  | .call callee args named loc, he => by
    simp only [Expr.evaluable, Bool.and_eq_true] at he
    refine (keeps_check _).bind fun _ _ => (keeps_check _).bind fun _ _ => ?_
    refine (keeps_eval g callee he.1).bind fun callee hcallee => ?_
    refine keeps_guard (keeps_complain _ _ rfl) ?_
    refine (keeps_evalArguments g args he.2.1).bind fun positional hpositional => ?_
    refine (keeps_evalNamed g named he.2.2 (by simp)).bind fun named hnamed => ?_
    refine keeps_reportCallAt ?_ loc
    exact (keeps_check _).bind fun _ _ =>
      Value.keeps_call hcallee ⟨hpositional, hnamed⟩
  | .unary op operand loc, he => by
    simp only [Expr.evaluable, Bool.and_eq_true] at he
    exact (keeps_check _).bind fun _ _ =>
      (keeps_eval g operand he.2).bind fun v _ => keeps_unary he.1 v loc
  | .binary op left right loc, he => by
    simp only [Expr.evaluable, Bool.and_eq_true] at he
    have hleft := keeps_eval g left he.2.1
    have hright := keeps_eval g right he.2.2
    cases op with
    | and =>
      refine (keeps_check _).bind fun _ _ => hleft.bind fun a _ => ?_
      refine (a.calm_truth _ _).bind fun holds _ => ?_
      split
      · exact hright.bind fun b _ =>
          (b.calm_truth _ _).bind fun _ _ => keeps_pure trivial
      · exact keeps_pure trivial
    | or =>
      refine (keeps_check _).bind fun _ _ => hleft.bind fun a _ => ?_
      refine (a.calm_truth _ _).bind fun holds _ => ?_
      split
      · exact keeps_pure trivial
      · exact hright.bind fun b _ =>
          (b.calm_truth _ _).bind fun _ _ => keeps_pure trivial
    | _ =>
      exact (keeps_check _).bind fun _ _ => hleft.bind fun a _ =>
        hright.bind fun b _ => keeps_binary he.1 nofun nofun a b loc
  | .compare op left right loc, he => by
    simp only [Expr.evaluable, Bool.and_eq_true] at he
    exact (keeps_check _).bind fun _ _ =>
      (keeps_eval g left he.2.1).bind fun a _ =>
        (keeps_eval g right he.2.2).bind fun b _ => keeps_compare he.1 a b loc
  | .misplaced _, he => by cases he

theorem keeps_evalItems (g : Guard sc.setting) : ∀ items : List Expr,
    evaluableItems items = true → (sc.evalItems items).Keeps g.InWorld g.rounds
      fun values => ∀ v ∈ values, g.Good v
  | [], _ => keeps_pure (by simp)
  | item :: rest, hitems => by
    cases item with
    | range first last loc =>
      simp only [evaluableItems, Bool.and_eq_true] at hitems
      refine (keeps_check _).bind fun _ _ => ?_
      refine (keeps_eval g first hitems.1).bind fun a _ => ?_
      refine (keeps_eval g last hitems.2.1).bind fun b _ => ?_
      refine (keeps_range a b loc).bind fun values hvalues => ?_
      exact (keeps_evalItems g rest hitems.2.2).bind fun others hothers =>
        keeps_pure (List.forall_mem_append.mpr ⟨hvalues, hothers⟩)
    | _ =>
      rw [evaluableItems, Bool.and_eq_true] at hitems
      · exact (keeps_check _).bind fun _ _ =>
          (keeps_eval g _ hitems.1).bind fun _ hvalue =>
            (keeps_evalItems g rest hitems.2).bind fun _ hvalues =>
              keeps_pure (List.forall_mem_cons.mpr ⟨hvalue, hvalues⟩)
      · nofun

theorem keeps_evalArguments (g : Guard sc.setting) : ∀ args : List Expr,
    evaluableAll args = true → (sc.evalArguments args).Keeps g.InWorld g.rounds
      fun values => ∀ v ∈ values, g.Good v
  | [], _ => keeps_pure (by simp)
  | arg :: rest, hargs => by
    simp only [evaluableAll, Bool.and_eq_true] at hargs
    exact (keeps_check _).bind fun _ _ => (keeps_eval g arg hargs.1).bind fun _ hvalue =>
      (keeps_evalArguments g rest hargs.2).bind fun _ hvalues =>
        keeps_pure (List.forall_mem_cons.mpr ⟨hvalue, hvalues⟩)

theorem keeps_evalNamed (g : Guard sc.setting) : ∀ named : List (String × Expr),
    evaluableNamed named = true → ∀ {done : List (String × Value)},
      (∀ arg ∈ done, g.Good arg.2) → (sc.evalNamed done named).Keeps g.InWorld
        g.rounds fun values => ∀ arg ∈ values, g.Good arg.2
  | [], _, _, hdone => keeps_pure hdone
  | (name, arg) :: rest, hnamed, done, hdone => by
    simp only [evaluableNamed, Bool.and_eq_true] at hnamed
    exact (keeps_check _).bind fun _ _ => (keeps_eval g arg hnamed.1).bind fun v hv =>
      keeps_evalNamed g rest hnamed.2 (good_addNamed hdone name hv)

end

/-! ## Statements -/

/-- A loop over a list is not given up before it has passed as many checkpoints as
it may take rounds: each round passes one. -/
theorem keeps_loopList {n : Nat} (hbody : body.Keeps g.InWorld n fun _ => True) (ref : Nat)
    (name : String) {rounds : Nat} (hrounds : n ≤ rounds) (i : Nat) :
    (loopList ref (round name body) rounds i).Keeps g.InWorld n fun _ => True := by
  induction rounds generalizing n i with
  | zero =>
    obtain rfl := Nat.le_zero.mp hrounds
    exact keeps_giveUp
  | succ rounds ih =>
    refine (Run.keeps_items ref).bind fun items hitems => ?_
    split
    · exact keeps_pure trivial
    · rename_i v hv
      have hgood := hitems v (Array.mem_of_getElem? hv)
      have hless : body.Keeps g.InWorld (n - 1) fun _ => True := hbody.anti (Nat.sub_le n 1)
      refine keeps_check_bind_bind _ (Keeps.bind (P := fun _ => True) ?_ ?_)
      · exact (keeps_modify fun w hw => hw.assign name hgood).bind fun _ _ => hless
      · exact fun _ _ => ih hless (by omega) (i + 1)

theorem keeps_round (hbody : g.Runs body) (name : String)
    {v : Value} (hv : g.Good v) : g.Runs (round name body v) := (keeps_check _).bind fun _ _ =>
    (keeps_modify fun _ hw => hw.assign name hv).bind fun _ _ => hbody

theorem keeps_loop (hpatience : g.rounds ≤ sc.patience) {source : Value} (hsource : g.Good source)
    (hbody : g.Runs body) (name : String) (loc : Option Location) :
    g.Runs (sc.loop source (round name body) loc) := by
  unfold loop
  split
  · exact keeps_forList fun c _ => keeps_round hbody name trivial
  · exact keeps_loopList hbody _ name hpatience 0
  · refine (Run.keeps_onTree (Guard.keeps_loopPaths hsource)).bind
      fun paths hpaths => keeps_forList fun path hpath => ?_
    exact (Run.keeps_onShelf (Guard.keeps_loopFile (hpaths path hpath))).bind
      fun f hf => keeps_round hbody name hf
  · exact keeps_complain _ _ rfl

mutual

theorem keeps_exec (g : Guard sc.setting) (hpatience : g.rounds ≤ sc.patience) :
    ∀ statement : Statement, statement.runnable = true → g.Runs (sc.exec statement)
  | .assign name value loc, hrunnable =>
    (keeps_check _).bind fun _ _ => keeps_reportAt ((keeps_eval g value hrunnable).bind fun _ hv =>
        keeps_modify fun _ hw => hw.assign name hv) loc
  | .expr value loc, hrunnable =>
    (keeps_check _).bind fun _ _ => keeps_reportAt
      ((keeps_eval g value hrunnable).bind fun _ _ => keeps_pure trivial) loc
  | .forEach name source body loc, hrunnable => by
    simp only [Statement.runnable, Bool.and_eq_true] at hrunnable
    exact (keeps_check _).bind fun _ _ => keeps_reportAt
      ((keeps_eval g source hrunnable.1).bind fun _ hsource =>
        keeps_loop hpatience hsource (keeps_execAll g hpatience body hrunnable.2) name loc) loc
  | .choose branches (some body) loc, hrunnable => by
    simp only [Statement.runnable, Bool.and_eq_true] at hrunnable
    exact (keeps_check _).bind fun _ _ => keeps_reportAt
      (keeps_execBranches g hpatience branches hrunnable.1
        (keeps_execAll g hpatience body hrunnable.2)) loc
  | .choose branches none loc, hrunnable => by
    simp only [Statement.runnable, Bool.and_eq_true] at hrunnable
    exact (keeps_check _).bind fun _ _ => keeps_reportAt
      (keeps_execBranches g hpatience branches hrunnable.1 (keeps_pure trivial)) loc
  | .misplaced _, hrunnable => by cases hrunnable

theorem keeps_execAll (g : Guard sc.setting) (hpatience : g.rounds ≤ sc.patience) :
    ∀ body : List Statement, runnableBody body = true → g.Runs (sc.execAll body)
  | [], _ => keeps_pure trivial
  | statement :: rest, hrunnable => by
    simp only [runnableBody, Bool.and_eq_true] at hrunnable
    exact (keeps_exec g hpatience statement hrunnable.1).bind fun _ _ =>
      keeps_execAll g hpatience rest hrunnable.2

theorem keeps_execBranches (g : Guard sc.setting) (hpatience : g.rounds ≤ sc.patience) :
    ∀ branches : List (Expr × List Statement), runnableBranches branches = true →
      ∀ {otherwise : Run Unit}, g.Runs otherwise → g.Runs (sc.execBranches branches otherwise)
  | [], _, _, hotherwise => hotherwise
  | (condition, body) :: rest, hrunnable, _, hotherwise => by
    simp only [runnableBranches, Bool.and_eq_true] at hrunnable
    refine (keeps_eval g condition hrunnable.1).bind fun v _ => ?_
    refine (v.calm_truth _ _).bind fun holds _ => ?_
    split
    · exact keeps_execAll g hpatience body hrunnable.2.1
    · exact keeps_execBranches g hpatience rest hrunnable.2.2 hotherwise

end

theorem keeps_execProgram (g : Guard sc.setting) (hpatience : g.rounds ≤ sc.patience)
    {program : Program} (hrunnable : runnableBody program = true) :
    g.Runs (sc.execProgram program) := by
  induction program with
  | nil => exact keeps_pure trivial
  | cons statement rest ih =>
    simp only [runnableBody, Bool.and_eq_true] at hrunnable
    exact (keeps_check _).bind fun _ _ =>
      (keeps_exec g hpatience statement hrunnable.1).bind fun _ _ =>
        ih hrunnable.2

-- A range that is put outside a list by hand is complained of.
example :
    ((execProgram ⟨⟨⟨[]⟩, ⟨[]⟩, ⟨true, true, true⟩⟩, #[], 0⟩
        [.expr (.range (.constant (.int 1) none) (.constant (.int 2) none) none)
          none]).run none (World.ofTree ⟨[]⟩)).ending =
      .failed (.complaint .strayRange none) :=
  rfl

end Scene

theorem Guard.keeps_runSource (g : Guard s) (hpatience : g.rounds ≤ patience) (source : Text) :
    g.Runs (s.runSource source) := by
  unfold Setting.runSource
  split
  · rename_i e _
    refine keeps_throw _ ?_
    cases e <;> trivial
  · rename_i program hread
    exact (s.scene source).keeps_execProgram g hpatience (Source.runnable_of_parseProgram hread)

theorem Guard.inWorld_ofTree (g : Guard s) {tree : FileTree} (htree : g.Tree tree) :
    g.InWorld (World.ofTree tree) := ⟨⟨htree, nofun, nofun⟩, nofun, nofun⟩

/-! ## Every run -/

def Guard.free (s : Setting) : Guard s where
  Tree _ := True
  Place _ := True
  Covers _ := True
  rounds := patience
  locate path := by
    refine (TreeAction.calm_resolve _ _ _).bind fun found _ => ?_
    split
    · exact keeps_pure trivial
    · refine (TreeAction.calm_shown _ _ _ _).bind fun _ _ => ?_
      exact (TreeAction.calm_shown _ _ _ _).bind fun _ _ => keeps_throw _ rfl
  filePaths path recursive _ :=
    (Directory.calm_filePaths path recursive _ _).imp fun _ _ _ _ => trivial
  position path _ := Index.calm_position s.cwd path _ _
  loadVectors _ _ := Index.keeps_loadVectors (fun _ _ _ _ _ => trivial)
    fun _ _ _ _ => trivial

theorem ending_runSource_ne_lost (s : Setting) (source : Text) (tree : FileTree) {limit : Nat}
    (hlimit : limit < patience) :
    ((s.runSource source).run (some limit) (World.ofTree tree)).ending ≠ .lost :=
  ((Guard.free s).keeps_runSource (Nat.le_refl _) source).ending_run_ne_lost
    ((Guard.free s).inWorld_ofTree trivial) hlimit

def Outcome.complaint? (outcome : Outcome World Fault Unit) : Option Complaint :=
  match outcome.ending with
  | .failed (.complaint c _) => some c
  | _ => none

/-- A range in a list, and a sum with a name that has no value. -/
def unboundSource : Text :=
  "if not 1 in [3:1]:\n  1\nelse:\n  x = [3:1] * 2\n  x + -y".toList

end Folio
