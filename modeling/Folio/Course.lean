import Folio.Text.Basic

/-!
# The course of a run

A run passes named checkpoints and prints text, and in the end it has a value or fails. A budget is
looked at only when this course is followed, and it can do nothing but stop at a checkpoint, so no
part of a run can notice its budget, catch the stop or go on after it.
-/

namespace Folio

abbrev Phase := String

inductive Course (σ ε α : Type) where
  | done (state : σ) (value : α)
  | failed (state : σ) (error : ε)
  /-- Given up: a loop was not left within the number of rounds it was allowed. -/
  | lost (state : σ)
  | checkpoint (phase : Phase) (state : σ) (next : Unit → Course σ ε α)
  | print (text : Text) (next : Unit → Course σ ε α)

namespace Course

variable {σ τ ε α β : Type}

def bind (f : σ → α → Course σ ε β) : Course σ ε α → Course σ ε β
  | done s a => f s a
  | failed s e => failed s e
  | lost s => lost s
  | checkpoint phase s next => checkpoint phase s fun u => (next u).bind f
  | print text next => print text fun u => (next u).bind f

def handle (f : σ → ε → Course σ ε α) : Course σ ε α → Course σ ε α
  | done s a => done s a
  | failed s e => f s e
  | lost s => lost s
  | checkpoint phase s next => checkpoint phase s fun u => (next u).handle f
  | print text next => print text fun u => (next u).handle f

def mapState (put : σ → τ) : Course σ ε α → Course τ ε α
  | done s a => done (put s) a
  | failed s e => failed (put s) e
  | lost s => lost (put s)
  | checkpoint phase s next => checkpoint phase (put s) fun u => (next u).mapState put
  | print text next => print text fun u => (next u).mapState put

end Course

def Action (σ ε α : Type) := σ → Course σ ε α

namespace Action

variable {σ τ ε α β : Type}

instance : Monad (Action σ ε) where
  pure a := fun s => .done s a
  bind m f := fun s => (m s).bind fun s a => f a s

instance : MonadStateOf σ (Action σ ε) where
  get := fun s => .done s s
  set s := fun _ => .done s ()
  modifyGet f := fun s => let (a, s) := f s; .done s a

instance : MonadExceptOf ε (Action σ ε) where
  throw e := fun s => .failed s e
  tryCatch m f := fun s => (m s).handle fun s e => f e s

def check (phase : Phase) : Action σ ε Unit := fun s =>
  .checkpoint phase s fun _ => .done s ()

def print (text : Text) : Action σ ε Unit := fun s =>
  .print text fun _ => .done s ()

def giveUp : Action σ ε α := fun s => .lost s

def within (get : τ → σ) (put : σ → τ → τ) (a : Action σ ε α) : Action τ ε α := fun t =>
  (a (get t)).mapState fun s => put s t

def ofExcept : Except ε α → Action σ ε α
  | .ok a => pure a
  | .error e => throw e

def checkTimes (phase : Phase) : Nat → Action σ ε Unit
  | 0 => pure ()
  | n + 1 => do
    check phase
    checkTimes phase n

def foldList (f : β → α → Action σ ε β) : β → List α → Action σ ε β
  | b, [] => pure b
  | b, a :: rest => do
    let b ← f b a
    foldList f b rest

def mapList (f : α → Action σ ε β) (items : List α) : Action σ ε (List β) := do
  let done ← foldList (fun done a => do return (← f a) :: done) [] items
  return done.reverse

def forList (f : α → Action σ ε Unit) (items : List α) : Action σ ε Unit :=
  foldList (fun _ a => f a) () items

end Action

inductive Ending (ε α : Type) where
  | finished (value : α)
  | failed (error : ε)
  /-- Stopped at a checkpoint, which was number `count`. -/
  | stopped (phase : Phase) (count : Nat)
  | lost

structure Outcome (σ ε α : Type) where
  state : σ
  printed : Text
  ending : Ending ε α

abbrev Allowance := Option Nat

def Allowance.admits (allowance : Allowance) (count : Nat) : Bool :=
  match allowance with
  | none => true
  | some n => count ≤ n

/-- `count` checkpoints have been passed; `pieces` holds what was printed, the last piece first. -/
def Course.follow {σ ε α : Type} (allowance : Allowance) (count : Nat) (pieces : List Text) :
    Course σ ε α → Outcome σ ε α
  | done s a => ⟨s, pieces.reverse.flatten, .finished a⟩
  | failed s e => ⟨s, pieces.reverse.flatten, .failed e⟩
  | lost s => ⟨s, pieces.reverse.flatten, .lost⟩
  | checkpoint phase s next =>
    if allowance.admits (count + 1) then (next ()).follow allowance (count + 1) pieces
    else ⟨s, pieces.reverse.flatten, .stopped phase (count + 1)⟩
  | print text next => (next ()).follow allowance count (text :: pieces)

def Action.run {σ ε α : Type} (a : Action σ ε α) (allowance : Allowance) (s : σ) :
    Outcome σ ε α :=
  (a s).follow allowance 0 []

end Folio
