import Folio.Course
import Folio.Fault
import Mathlib.Tactic

/-!
# Invariants of actions

An invariant of a run holds at every point at which the run can be stopped, not
only where it ends.  `Keeps` says that an action goes only through states with a
property and gives only values with another one, that it fails with ordinary
faults only, and that it is not given up before a number of checkpoints were
passed.  It is put together along the way an action is put together, and what it
says about a course it says about the run within any allowance.
-/

namespace Folio

/-- Complaints about the form of a program, which only an evaluator of programs
has. -/
def Complaint.isAboutForm : Complaint → Bool
  | .strayRange => true
  | .unsupportedUnary _ => true
  | .unsupportedBinary _ => true
  | .unsupportedComparison _ => true
  | .unsupportedExpression => true
  | .unsupportedStatement => true
  | _ => false

/-- A fault that is no complaint about the form of a program. -/
def Fault.Ordinary : Fault → Prop
  | .complaint c _ => c.isAboutForm = false
  | _ => True

variable {σ τ α β : Type} {I : σ → Prop} {n : Nat} {P : α → Prop} {Q : β → Prop}

/-- A course keeps `I`, has a value in `P` or an ordinary fault, and is not given up
before `n` checkpoints. -/
def Course.Keeps (I : σ → Prop) (P : α → Prop) : Nat → Course σ Fault α → Prop
  | _, done s a => I s ∧ P a
  | _, failed s e => I s ∧ e.Ordinary
  | n, lost s => I s ∧ n = 0
  | n, checkpoint _ s next => I s ∧ (next ()).Keeps I P (n - 1)
  | n, print _ next => (next ()).Keeps I P n

namespace Course

variable {c : Course σ Fault α}

theorem Keeps.anti {m : Nat} (hkeeps : c.Keeps I P n) (hle : m ≤ n) : c.Keeps I P m := by
  induction c generalizing m n with
  | done s a => exact hkeeps
  | failed s e => exact hkeeps
  | lost s => exact ⟨hkeeps.1, by have := hkeeps.2; omega⟩
  | checkpoint phase s next ih => exact ⟨hkeeps.1, ih () hkeeps.2 (by omega)⟩
  | print text next ih => exact ih () hkeeps hle

theorem Keeps.bind {f : σ → α → Course σ Fault β} (hkeeps : c.Keeps I P n)
    (hf : ∀ s a, I s → P a → (f s a).Keeps I Q n) : (c.bind f).Keeps I Q n := by
  induction c generalizing n with
  | done s a => exact hf s a hkeeps.1 hkeeps.2
  | failed s e => exact hkeeps
  | lost s => exact hkeeps
  | checkpoint phase s next ih =>
    refine ⟨hkeeps.1, ih () hkeeps.2 fun s a hs ha => ?_⟩
    exact (hf s a hs ha).anti (Nat.sub_le n 1)
  | print text next ih => exact ih () hkeeps hf

theorem Keeps.handle {f : σ → Fault → Course σ Fault α}
    (hkeeps : c.Keeps I P n) (hf : ∀ s e, I s → e.Ordinary → (f s e).Keeps I P n) :
    (c.handle f).Keeps I P n := by
  induction c generalizing n with
  | done s a => exact hkeeps
  | failed s e => exact hf s e hkeeps.1 hkeeps.2
  | lost s => exact hkeeps
  | checkpoint phase s next ih =>
    refine ⟨hkeeps.1, ih () hkeeps.2 fun s e hs he => ?_⟩
    exact (hf s e hs he).anti (Nat.sub_le n 1)
  | print text next ih => exact ih () hkeeps hf

theorem Keeps.mapState {J : τ → Prop} {put : σ → τ} (hkeeps : c.Keeps I P n)
    (hput : ∀ s, I s → J (put s)) : (c.mapState put).Keeps J P n := by
  induction c generalizing n with
  | done s a => exact ⟨hput s hkeeps.1, hkeeps.2⟩
  | failed s e => exact ⟨hput s hkeeps.1, hkeeps.2⟩
  | lost s => exact ⟨hput s hkeeps.1, hkeeps.2⟩
  | checkpoint phase s next ih => exact ⟨hput s hkeeps.1, ih () hkeeps.2⟩
  | print text next ih => exact ih () hkeeps

theorem Keeps.imp {P' : α → Prop} (hkeeps : c.Keeps I P n) (himp : ∀ a, P a → P' a) :
    c.Keeps I P' n := by
  induction c generalizing n with
  | done s a => exact ⟨hkeeps.1, himp a hkeeps.2⟩
  | failed s e => exact hkeeps
  | lost s => exact hkeeps
  | checkpoint phase s next ih => exact ⟨hkeeps.1, ih () hkeeps.2⟩
  | print text next ih => exact ih () hkeeps

/-- Wherever a course is left, its state is in `I`, its value in `P` and its fault ordinary. -/
theorem Keeps.follow (hkeeps : c.Keeps I P n) (allowance : Allowance) (count : Nat)
    (pieces : List Text) : I (c.follow allowance count pieces).state ∧
      (∀ a, (c.follow allowance count pieces).ending = .finished a → P a) ∧
      ∀ e, (c.follow allowance count pieces).ending = .failed e → e.Ordinary := by
  induction c generalizing n count pieces with
  | done s a =>
    refine ⟨hkeeps.1, ?_, ?_⟩ <;> intro _ hending <;> cases hending
    exact hkeeps.2
  | failed s e =>
    refine ⟨hkeeps.1, ?_, ?_⟩ <;> intro _ hending <;> cases hending
    exact hkeeps.2
  | lost s => refine ⟨hkeeps.1, ?_, ?_⟩ <;> intro _ hending <;> cases hending
  | checkpoint phase s next ih =>
    unfold Course.follow
    split
    · exact ih () hkeeps.2 _ _
    · refine ⟨hkeeps.1, ?_, ?_⟩ <;> intro _ hending <;> cases hending
  | print text next ih => exact ih () hkeeps _ _

theorem Keeps.ending_ne_lost {limit count : Nat} (hkeeps : c.Keeps I P n)
    (hlimit : limit < count + n) (hcount : count ≤ limit)
    (pieces : List Text) : (c.follow (some limit) count pieces).ending ≠ .lost := by
  induction c generalizing n count pieces with
  | done s a => exact nofun
  | failed s e => exact nofun
  | lost s =>
    have hn : n = 0 := hkeeps.2
    omega
  | checkpoint phase s next ih =>
    unfold Course.follow
    split
    · rename_i hadmitted
      simp only [Allowance.admits, decide_eq_true_eq] at hadmitted
      exact ih () hkeeps.2 (by omega) hadmitted pieces
    · exact nofun
  | print text next ih => exact ih () hkeeps hlimit hcount _

end Course

namespace Action

variable {a : Action σ Fault α} {f : α → Action σ Fault β} {allowance : Allowance}

/-- An action goes only through states in `I` from there, has a value in `P` or an
ordinary fault, and is not given up before `n` checkpoints. -/
def Keeps (I : σ → Prop) (n : Nat) (P : α → Prop) (a : Action σ Fault α) : Prop :=
  ∀ s, I s → (a s).Keeps I P n

theorem keeps_pure {v : α} (hv : P v) : (pure v : Action σ Fault α).Keeps I n P :=
  fun _ hs => ⟨hs, hv⟩

theorem keeps_throw (e : Fault) (he : e.Ordinary) : (throw e : Action σ Fault α).Keeps I n P :=
  fun _ hs => ⟨hs, he⟩

theorem keeps_get : (get : Action σ Fault σ).Keeps I n I := fun _ hs => ⟨hs, hs⟩

theorem keeps_set {s : σ} (hs : I s) : (set s : Action σ Fault Unit).Keeps I n fun _ => True :=
  fun _ _ => ⟨hs, trivial⟩

theorem keeps_modify {f : σ → σ} (hf : ∀ s, I s → I (f s)) :
    (modify f : Action σ Fault Unit).Keeps I n fun _ => True := fun s hs => ⟨hf s hs, trivial⟩

theorem keeps_check (phase : Phase) : (check phase : Action σ Fault Unit).Keeps I n fun _ => True :=
  fun _ hs => ⟨hs, hs, trivial⟩

/-- After something that starts with a checkpoint an action may be given up one
checkpoint earlier. -/
theorem keeps_check_bind_bind (phase : Phase) {f : Unit → Action σ Fault α}
    {h : α → Action σ Fault β} (hf : (f () >>= h).Keeps I (n - 1) Q) :
    ((check phase >>= f) >>= h).Keeps I n Q := fun s hs => ⟨hs, hf s hs⟩

theorem keeps_giveUp : (giveUp : Action σ Fault α).Keeps I 0 P := fun _ hs => ⟨hs, rfl⟩

theorem keeps_print (text : Text) : (print text : Action σ Fault Unit).Keeps I n fun _ => True :=
  fun _ hs => ⟨hs, trivial⟩

theorem Keeps.bind (hkeeps : a.Keeps I n P)
    (hf : ∀ v, P v → (f v).Keeps I n Q) : (a >>= f).Keeps I n Q :=
  fun s hs => (hkeeps s hs).bind fun t v ht hv => hf v hv t ht

theorem keeps_guard {c : Prop} [Decidable c] {a : Action σ Fault Unit} {f : Unit → Action σ Fault β}
    (hkeeps : a.Keeps I n fun _ => True)
    (hf : (f ()).Keeps I n Q) : (if c then a >>= f else f ()).Keeps I n Q := by
  split
  · exact hkeeps.bind fun _ _ => hf
  · exact hf

theorem Keeps.tryCatch {f : Fault → Action σ Fault α}
    (hkeeps : a.Keeps I n P) (hf : ∀ e, e.Ordinary → (f e).Keeps I n P) :
    (tryCatch a f).Keeps I n P := fun s hs => (hkeeps s hs).handle fun t e ht he => hf e he t ht

theorem Keeps.imp {P' : α → Prop} (hkeeps : a.Keeps I n P) (himp : ∀ v, P v → P' v) :
    a.Keeps I n P' :=
  fun s hs => (hkeeps s hs).imp himp

theorem Keeps.anti {m : Nat} (hkeeps : a.Keeps I n P) (hle : m ≤ n) : a.Keeps I m P :=
  fun s hs => (hkeeps s hs).anti hle

theorem Keeps.within {J : τ → Prop} {get : τ → σ} {put : σ → τ → τ}
    (hkeeps : a.Keeps I n P) (hget : ∀ t, J t → I (get t))
    (hput : ∀ s t, I s → J t → J (put s t)) : (a.within get put).Keeps J n P :=
  fun t ht => (hkeeps (get t) (hget t ht)).mapState fun s hs => hput s t hs ht

theorem keeps_ofExcept {value : Except Fault α} (hvalue : ∀ v, value = .ok v → P v)
    (herror : ∀ e, value = .error e → e.Ordinary) :
    (ofExcept value : Action σ Fault α).Keeps I n P := by
  cases value with
  | ok v => exact keeps_pure (hvalue v rfl)
  | error e => exact keeps_throw e (herror e rfl)

theorem keeps_checkTimes (phase : Phase) (times : Nat) :
    (checkTimes phase times : Action σ Fault Unit).Keeps I n fun _ => True := by
  induction times with
  | zero => exact keeps_pure trivial
  | succ times ih => exact (keeps_check phase).bind fun _ _ => ih

theorem keeps_foldList {f : β → α → Action σ Fault β} {items : List α}
    (hf : ∀ b, Q b → ∀ a ∈ items, (f b a).Keeps I n Q) {b : β} (hb : Q b) :
    (foldList f b items).Keeps I n Q := by
  induction items generalizing b with
  | nil => exact keeps_pure hb
  | cons a rest ih =>
    refine (hf b hb a List.mem_cons_self).bind fun c hc => ?_
    exact ih (fun b hb a ha => hf b hb a (List.mem_cons_of_mem _ ha)) hc

theorem keeps_mapList {items : List α} (hf : ∀ a ∈ items, (f a).Keeps I n Q) :
    (mapList f items).Keeps I n fun values => ∀ b ∈ values, Q b := by
  have hstep : ∀ done : List β, (∀ b ∈ done, Q b) → ∀ a ∈ items,
      (do return (← f a) :: done : Action σ Fault (List β)).Keeps I n
        fun values => ∀ b ∈ values, Q b := by
    intro done hdone a ha
    refine (hf a ha).bind fun b hb => keeps_pure ?_
    intro c hc
    rcases List.mem_cons.mp hc with rfl | hc
    · exact hb
    · exact hdone c hc
  refine (keeps_foldList hstep (by simp)).bind fun done hdone => keeps_pure ?_
  intro b hb
  exact hdone b (List.mem_reverse.mp hb)

theorem keeps_forList {f : α → Action σ Fault Unit} {items : List α}
    (hf : ∀ a ∈ items, (f a).Keeps I n fun _ => True) : (forList f items).Keeps I n fun _ => True :=
  keeps_foldList (fun _ _ a ha => hf a ha) trivial

/-! ## Actions that change nothing -/

/-- An action keeps whatever holds, so it never changes the state, and it is never
given up.  Its faults are ordinary. -/
def Calm (a : Action σ Fault α) : Prop :=
  ∀ (I : σ → Prop) (n : Nat), a.Keeps I n fun _ => True

theorem calm_pure (v : α) : (pure v : Action σ Fault α).Calm := fun _ _ => keeps_pure trivial

theorem calm_throw (e : Fault) (he : e.Ordinary) : (throw e : Action σ Fault α).Calm :=
  fun _ _ => keeps_throw e he

theorem calm_get : (get : Action σ Fault σ).Calm := fun _ _ => keeps_get.imp fun _ _ => trivial

theorem calm_check (phase : Phase) : (check phase : Action σ Fault Unit).Calm :=
  fun _ _ => keeps_check phase

theorem calm_print (text : Text) : (print text : Action σ Fault Unit).Calm :=
  fun _ _ => keeps_print text

theorem calm_checkTimes (phase : Phase) (times : Nat) :
    (checkTimes phase times : Action σ Fault Unit).Calm := fun _ _ => keeps_checkTimes phase times

theorem calm_ofExcept {value : Except Fault α} (herror : ∀ e, value = .error e → e.Ordinary) :
    (ofExcept value : Action σ Fault α).Calm :=
  fun _ _ => keeps_ofExcept (fun _ _ => trivial) herror

theorem Calm.bind (hcalm : a.Calm) (hf : ∀ v, (f v).Calm) : (a >>= f).Calm :=
  fun I n => (hcalm I n).bind fun v _ => hf v I n

theorem calm_guard {c : Prop} [Decidable c] {a : Action σ Fault Unit} {f : Unit → Action σ Fault β}
    (hcalm : a.Calm) (hf : (f ()).Calm) :
    (if c then a >>= f else f ()).Calm := fun I n => keeps_guard (hcalm I n) (hf I n)

theorem Calm.foldList {f : β → α → Action σ Fault β} (hf : ∀ b a, (f b a).Calm) (b : β)
    (items : List α) : (foldList f b items).Calm :=
  fun I n => keeps_foldList (fun b _ a _ => hf b a I n) trivial

theorem Calm.mapList (hf : ∀ a, (f a).Calm) (items : List α) : (mapList f items).Calm :=
  fun I n => (keeps_mapList fun a _ => hf a I n).imp fun _ _ => trivial

theorem Calm.forList {f : α → Action σ Fault Unit} (hf : ∀ a, (f a).Calm)
    (items : List α) : (forList f items).Calm := fun I n => keeps_forList fun a _ => hf a I n

theorem Calm.within {get : τ → σ} {put : σ → τ → τ} (hcalm : a.Calm)
    (hput : ∀ t, put (get t) t = t) : (a.within get put).Calm := by
  intro J n t ht
  refine (hcalm (· = get t) n (get t) rfl).mapState fun s hs => ?_
  rw [hs, hput]
  exact ht

/-! ## Runs -/

theorem Keeps.state_follow (hkeeps : a.Keeps I n P) {s : σ} (hs : I s)
    (allowance : Allowance) (count : Nat) (pieces : List Text) :
    I ((a s).follow allowance count pieces).state := ((hkeeps s hs).follow allowance count pieces).1

theorem Keeps.state_run (hkeeps : a.Keeps I n P) {s : σ} (hs : I s)
    (allowance : Allowance) : I (a.run allowance s).state := hkeeps.state_follow hs allowance 0 []

theorem Keeps.ordinary_run (hkeeps : a.Keeps I n P) {s : σ} (hs : I s)
    {e : Fault} (hending : (a.run allowance s).ending = .failed e) : e.Ordinary :=
  ((hkeeps s hs).follow allowance 0 []).2.2 e hending

theorem Keeps.value_run (hkeeps : a.Keeps I n P) {s : σ} (hs : I s) {v : α}
    (hending : (a.run allowance s).ending = .finished v) : P v :=
  ((hkeeps s hs).follow allowance 0 []).2.1 v hending

theorem Keeps.ending_run_ne_lost (hkeeps : a.Keeps I n P) {s : σ} (hs : I s)
    {limit : Nat} (hlimit : limit < n) : (a.run (some limit) s).ending ≠ .lost :=
  (hkeeps s hs).ending_ne_lost (by omega) (Nat.zero_le _) []

theorem Calm.state_follow (hcalm : a.Calm) (s : σ) (allowance : Allowance) (count : Nat)
    (pieces : List Text) : ((a s).follow allowance count pieces).state = s :=
  (hcalm (· = s) 0).state_follow rfl allowance count pieces

theorem Calm.state_run (hcalm : a.Calm) (s : σ) (allowance : Allowance) :
    (a.run allowance s).state = s := hcalm.state_follow s allowance 0 []

-- From here on actions are taken apart by the rules above only.  Opened, the
-- definition would run the action to see what it keeps.
attribute [irreducible] Keeps

end Action

end Folio
