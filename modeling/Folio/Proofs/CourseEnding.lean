import Folio.Course
import Mathlib.Tactic

/-!
# How actions end

An action that nothing stops has a last state and an ending.  Both are computed
here along the way an action is put together, so that what a step does can be
read off without following its course.

A run that finishes within some allowance ends as the action does.
-/

namespace Folio

variable {σ τ ε α β : Type}

/-- The last state and the ending of a course that nothing stops. -/
def Course.last : Course σ ε α → σ × Ending ε α
  | done s a => (s, .finished a)
  | failed s e => (s, .failed e)
  | lost s => (s, .lost)
  | checkpoint _ _ next => (next ()).last
  | print _ next => (next ()).last

def Ending.andThen (f : σ → α → σ × Ending ε β) :
    σ × Ending ε α → σ × Ending ε β
  | (s, .finished a) => f s a
  | (s, .failed e) => (s, .failed e)
  | (s, .stopped phase count) => (s, .stopped phase count)
  | (s, .lost) => (s, .lost)

def Ending.map (f : α → β) : Ending ε α → Ending ε β
  | .finished a => .finished (f a)
  | .failed e => .failed e
  | .stopped phase count => .stopped phase count
  | .lost => .lost

theorem Course.last_bind (f : σ → α → Course σ ε β) (c : Course σ ε α) :
    (c.bind f).last = Ending.andThen (fun s a => (f s a).last) c.last := by
  induction c with
  | done s a => rfl
  | failed s e => rfl
  | lost s => rfl
  | checkpoint phase s next ih => exact ih ()
  | print text next ih => exact ih ()

theorem Course.last_mapState (put : σ → τ) (c : Course σ ε α) :
    (c.mapState put).last = (put c.last.1, c.last.2) := by
  induction c with
  | done s a => rfl
  | failed s e => rfl
  | lost s => rfl
  | checkpoint phase s next ih => exact ih ()
  | print text next ih => exact ih ()

/-- Following a course to its end gives its last state and ending, whatever the
allowance is. -/
theorem Course.last_of_follow {c : Course σ ε α} {allowance : Allowance} {count : Nat}
    {pieces : List Text} {outcome : Outcome σ ε α} {a : α}
    (hfollow : c.follow allowance count pieces = outcome) (hending : outcome.ending = .finished a) :
    c.last = (outcome.state, .finished a) := by
  induction c generalizing count pieces with
  | done s b =>
    subst hfollow
    exact congrArg (Prod.mk s) hending
  | failed s e =>
    subst hfollow
    cases hending
  | lost s =>
    subst hfollow
    cases hending
  | checkpoint phase s next ih =>
    unfold Course.follow at hfollow
    split at hfollow
    · exact ih () hfollow
    · subst hfollow
      cases hending
  | print text next ih => exact ih () hfollow

theorem Course.follow_none (c : Course σ ε α) (count : Nat) (pieces : List Text) :
    ((c.follow none count pieces).state, (c.follow none count pieces).ending) = c.last := by
  induction c generalizing count pieces with
  | done s a => rfl
  | failed s e => rfl
  | lost s => rfl
  | checkpoint phase s next ih => exact ih () _ _
  | print text next ih => exact ih () _ _

namespace Action

variable {a : Action σ ε α} {f : α → Action σ ε β}

/-- The last state and the ending of an action that nothing stops. -/
def result (a : Action σ ε α) (s : σ) : σ × Ending ε α :=
  (a s).last

theorem result_of_run {allowance : Allowance} {s : σ} {v : α}
    (hending : (a.run allowance s).ending = .finished v) :
    a.result s = ((a.run allowance s).state, .finished v) := Course.last_of_follow rfl hending

theorem ending_run_none (a : Action σ ε α) (s : σ) : (a.run none s).ending = (a.result s).2 :=
  congrArg Prod.snd (Course.follow_none (a s) 0 [])

theorem state_run_none (a : Action σ ε α) (s : σ) : (a.run none s).state = (a.result s).1 :=
  congrArg Prod.fst (Course.follow_none (a s) 0 [])

/-! ## The parts of actions -/

@[simp]
theorem result_pure (v : α) (s : σ) : (pure v : Action σ ε α).result s = (s, .finished v) := rfl

theorem result_bind (a : Action σ ε α) (f : α → Action σ ε β) (s : σ) : (a >>= f).result s =
      Ending.andThen (fun t v => (f v).result t) (a.result s) := Course.last_bind _ (a s)

@[simp]
theorem result_get (s : σ) : (get : Action σ ε σ).result s = (s, .finished s) := rfl

@[simp]
theorem result_throw (e : ε) (s : σ) : (throw e : Action σ ε α).result s = (s, .failed e) := rfl

@[simp]
theorem result_check (phase : Phase) (s : σ) :
    (check phase : Action σ ε Unit).result s = (s, .finished ()) := rfl

@[simp]
theorem result_within (get : τ → σ) (put : σ → τ → τ) (a : Action σ ε α) (t : τ) :
    (a.within get put).result t = (put (a.result (get t)).1 t, (a.result (get t)).2) :=
  Course.last_mapState _ (a (get t))

@[simp]
theorem result_checkTimes (phase : Phase) (n : Nat) (s : σ) :
    (checkTimes phase n : Action σ ε Unit).result s = (s, .finished ()) := by
  induction n with
  | zero => rfl
  | succ n ih =>
    rw [checkTimes, result_bind, result_check]
    exact ih

theorem result_bind_of_finished {s t : σ} {v : α}
    (ha : a.result s = (t, .finished v)) : (a >>= f).result s = (f v).result t := by
  rw [result_bind, ha]
  rfl

theorem result_bind_of_failed {s t : σ} {e : ε}
    (ha : a.result s = (t, .failed e)) : (a >>= f).result s = (t, .failed e) := by
  rw [result_bind, ha]
  rfl

theorem result_bind_eq_finished_iff {s t : σ} {w : β} :
    (a >>= f).result s = (t, .finished w) ↔ ∃ s' v, a.result s = (s', .finished v) ∧
        (f v).result s' = (t, .finished w) := by
  rw [result_bind]
  constructor
  · intro hresult
    match ha : a.result s with
    | (s', .finished v) => exact ⟨s', v, rfl, by rw [ha] at hresult; exact hresult⟩
    | (_, .failed _) => rw [ha] at hresult; cases hresult
    | (_, .stopped _ _) => rw [ha] at hresult; cases hresult
    | (_, .lost) => rw [ha] at hresult; cases hresult
  · rintro ⟨s', v, ha, hf⟩
    rw [ha]
    exact hf

theorem result_ite_throw_eq_finished_iff {c : Prop} [Decidable c] {e : ε} {f : β → Action σ ε α}
    {s t : σ} {v : α} :
    (if c then (throw e : Action σ ε β) >>= f else a).result s = (t, .finished v) ↔
      ¬c ∧ a.result s = (t, .finished v) := by
  by_cases hc : c
  · rw [if_pos hc, result_bind_of_failed (result_throw e s)]
    simp [hc]
  · rw [if_neg hc]
    simp [hc]

theorem bind_of_done {s t : σ} {v : α}
    (ha : a s = .done t v) : (a >>= f) s = f v t := by
  change (a s).bind _ = _
  rw [ha]
  rfl

theorem bind_of_failed {s t : σ} {e : ε}
    (ha : a s = .failed t e) : (a >>= f) s = .failed t e := by
  change (a s).bind _ = _
  rw [ha]
  rfl

theorem get_bind (f : σ → Action σ ε α) (s : σ) : ((get : Action σ ε σ) >>= f) s = f s s := rfl

/-! ## Actions that do not look at their state -/

/-- An action that leaves every state as it is and ends in the same way from
all of them. -/
def Stateless (a : Action σ ε α) : Prop :=
  ∃ ending, ∀ s, a.result s = (s, ending)

theorem stateless_pure (v : α) : (pure v : Action σ ε α).Stateless := ⟨.finished v, fun _ => rfl⟩

theorem stateless_throw (e : ε) : (throw e : Action σ ε α).Stateless := ⟨.failed e, fun _ => rfl⟩

theorem stateless_check (phase : Phase) : (check phase : Action σ ε Unit).Stateless :=
  ⟨.finished (), fun _ => rfl⟩

theorem stateless_checkTimes (phase : Phase) (n : Nat) :
    (checkTimes phase n : Action σ ε Unit).Stateless := ⟨.finished (), result_checkTimes phase n⟩

theorem Stateless.bind (ha : a.Stateless) (hf : ∀ v, (f v).Stateless) : (a >>= f).Stateless := by
  obtain ⟨ending, ha⟩ := ha
  cases ending with
  | finished v =>
    obtain ⟨last, hlast⟩ := hf v
    exact ⟨last, fun s => (result_bind_of_finished (ha s)).trans (hlast s)⟩
  | failed e => exact ⟨.failed e, fun s => result_bind_of_failed (ha s)⟩
  | stopped phase count => exact ⟨.stopped phase count, fun s => by rw [result_bind, ha s]; rfl⟩
  | lost => exact ⟨.lost, fun s => by rw [result_bind, ha s]; rfl⟩

/-- Where an action ends in the same way, so does what goes on from it without
looking at the state. -/
theorem ending_bind_congr {s t : σ}
    (ha : (a.result s).2 = (a.result t).2) (hf : ∀ v, (f v).Stateless) :
    ((a >>= f).result s).2 = ((a >>= f).result t).2 := by
  rw [result_bind, result_bind]
  generalize a.result s = first at ha ⊢
  generalize a.result t = second at ha ⊢
  obtain ⟨s', ending⟩ := first
  obtain ⟨t', ending'⟩ := second
  obtain rfl : ending = ending' := ha
  cases ending with
  | finished v =>
    obtain ⟨last, hlast⟩ := hf v
    change ((f v).result s').2 = ((f v).result t').2
    rw [hlast, hlast]
  | failed e => rfl
  | stopped phase count => rfl
  | lost => rfl

/-! ## Actions that cannot tell two states apart -/

/-- An action that changes neither of two states and ends in the same way from
both. -/
def SameFrom (s t : σ) (a : Action σ ε α) : Prop :=
  ∃ ending, a.result s = (s, ending) ∧ a.result t = (t, ending)

theorem Stateless.sameFrom (ha : a.Stateless) (s t : σ) : a.SameFrom s t := by
  obtain ⟨ending, hending⟩ := ha
  exact ⟨ending, hending s, hending t⟩

theorem SameFrom.bind {s t : σ} (ha : a.SameFrom s t)
    (hf : ∀ v, (f v).SameFrom s t) : (a >>= f).SameFrom s t := by
  obtain ⟨ending, hs, ht⟩ := ha
  cases ending with
  | finished v =>
    obtain ⟨last, hlastS, hlastT⟩ := hf v
    exact ⟨last, (result_bind_of_finished hs).trans hlastS,
      (result_bind_of_finished ht).trans hlastT⟩
  | failed e => exact ⟨.failed e, result_bind_of_failed hs, result_bind_of_failed ht⟩
  | stopped phase count =>
    refine ⟨.stopped phase count, ?_, ?_⟩
    · rw [result_bind, hs]
      rfl
    · rw [result_bind, ht]
      rfl
  | lost =>
    refine ⟨.lost, ?_, ?_⟩
    · rw [result_bind, hs]
      rfl
    · rw [result_bind, ht]
      rfl

theorem Stateless.foldList {f : β → α → Action σ ε β} (hf : ∀ b a, (f b a).Stateless) (b : β)
    (items : List α) : (foldList f b items).Stateless := by
  induction items generalizing b with
  | nil => exact stateless_pure b
  | cons a items ih => exact (hf b a).bind fun b => ih b

theorem Stateless.mapList (hf : ∀ a, (f a).Stateless) (items : List α) :
    (mapList f items).Stateless := by
  have hstep : ∀ (done : List β) (a : α),
      (do return (← f a) :: done : Action σ ε (List β)).Stateless :=
    fun done a => (hf a).bind fun _ => stateless_pure _
  exact (Stateless.foldList hstep [] items).bind fun _ => stateless_pure _

/-! ## Actions on lists -/

theorem forall₂_of_result_mapList (hf : ∀ a s, ((f a).result s).1 = s) {items : List α}
    {s t : σ} {values : List β} : (Action.mapList f items).result s = (t, .finished values) →
      t = s ∧ List.Forall₂ (fun a v => (f a).result s = (s, .finished v)) items values := by
  have hfold : ∀ (items : List α) (done values : List β),
      (Action.foldList (fun done a => do return (← f a) :: done) done
        items).result s = (t, .finished values) → t = s ∧ ∃ found, values = found.reverse ++ done ∧
        List.Forall₂ (fun a v => (f a).result s = (s, .finished v)) items found := by
    intro items
    induction items with
    | nil =>
      rintro done values hresult
      cases hresult
      exact ⟨rfl, [], rfl, .nil⟩
    | cons a items ih =>
      intro done values hresult
      rw [Action.foldList, result_bind_eq_finished_iff] at hresult
      obtain ⟨s', done', hstep, hrest⟩ := hresult
      rw [result_bind_eq_finished_iff] at hstep
      obtain ⟨s'', v, ha, hpure⟩ := hstep
      have hstate := hf a s
      rw [ha] at hstate
      subst hstate
      cases hpure
      obtain ⟨rfl, found, rfl, hfound⟩ := ih _ _ hrest
      exact ⟨rfl, v :: found, by simp, .cons ha hfound⟩
  intro hresult
  rw [Action.mapList, result_bind_eq_finished_iff] at hresult
  obtain ⟨s', done, hdone, hpure⟩ := hresult
  cases hpure
  obtain ⟨rfl, found, rfl, hfound⟩ := hfold items [] done hdone
  exact ⟨rfl, by simpa using hfound⟩

theorem result_mapList_of_forall₂ {s : σ} {items : List α} {values : List β}
    (hvalues : List.Forall₂ (fun a v => (f a).result s = (s, .finished v)) items values) :
    (mapList f items).result s = (s, .finished values) := by
  have hfold : ∀ done : List β,
      (foldList (fun done a => do return (← f a) :: done) done items).result s =
        (s, .finished (values.reverse ++ done)) := by
    induction hvalues with
    | nil => exact fun done => rfl
    | @cons a v items values ha _ ih =>
      intro done
      have hstep : (do return (← f a) :: done : Action σ ε _).result s =
          (s, .finished (v :: done)) := by
        rw [result_bind_of_finished ha]
        rfl
      rw [foldList, result_bind_of_finished hstep, ih]
      simp
  rw [mapList, result_bind_of_finished (hfold [])]
  simp

theorem result_mapList_of_eq {g : α → β} {s : σ}
    (hf : ∀ a, (f a).result s = (s, .finished (g a))) (items : List α) :
    (mapList f items).result s = (s, .finished (items.map g)) := by
  apply result_mapList_of_forall₂
  induction items with
  | nil => exact .nil
  | cons a items ih => exact .cons (hf a) ih

end Action

end Folio
