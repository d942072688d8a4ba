import Folio.Value.Basic

/-!
# Arguments

Functions of the library take their arguments by position or by name; an argument for an unknown name
is refused first, then arguments beyond the parameters, then missing ones. Methods of texts and lists
have rules of their own.
-/

namespace Folio

structure Arguments where
  positional : List Value
  named : List (String × Value)

structure Parameter where
  name : String
  fallback : Option Value

def required (name : String) : Parameter := ⟨name, none⟩

def optional (name : String) (value : Value) : Parameter := ⟨name, some value⟩

structure Bound where
  values : List (String × Value)

def Bound.value (b : Bound) (name : String) : Value :=
  (b.values.lookup name).getD .nothing

namespace Arguments

/-- Refuses an argument by name that is unknown or was given by position. The object a method
belongs to is always given. -/
def checkNames (function : String) (taken free : List String) :
    List (String × Value) → Except ArgumentMistake Unit
  | [] => .ok ()
  | (name, _) :: rest =>
    if taken.contains name then .error (.repeated function name)
    else if free.contains name then checkNames function taken free rest
    else .error (.unexpected function name)

def bind (function : String) (parameters : List Parameter) (args : Arguments) :
    Except ArgumentMistake Bound := do
  let given := args.positional.length
  let names := parameters.map Parameter.name
  checkNames function ("self" :: names.take given) (names.drop given) args.named
  let needed := (parameters.filter (·.fallback.isNone)).length
  if parameters.length < given then
    .error (.tooMany function (needed + 1) (parameters.length + 1) (given + 1))
  let byPosition := names.zip args.positional
  let absent := (parameters.drop given).filter fun p =>
    p.fallback.isNone && (args.named.lookup p.name).isNone
  if !absent.isEmpty then .error (.missing function (absent.map Parameter.name))
  let defaults := parameters.filterMap fun p => p.fallback.map (p.name, ·)
  return ⟨byPosition ++ args.named ++ defaults⟩

def onlyPositional (function : String) (args : Arguments) : Except ArgumentMistake (List Value) :=
  if args.named.isEmpty then .ok args.positional else .error (.noKeywords function)

def takeNone (function : String) (args : Arguments) : Except ArgumentMistake Unit := do
  let given ← args.onlyPositional function
  if !given.isEmpty then .error (.noArguments function given.length)

def takeOne (function : String) (args : Arguments) : Except ArgumentMistake Value := do
  match ← args.onlyPositional function with
  | [v] => return v
  | given => .error (.exactlyOne function given.length)

/-- Binds arguments by position or name where every parameter may be left out. -/
def unpack (function : String) (names : List String) (maxPositional : Nat) (args : Arguments) :
    Except ArgumentMistake Bound := do
  let given := args.positional.length
  let total := given + args.named.length
  if names.length < total then
    .error (if given == 0 then .atMostKeywords function names.length total
      else .atMost function names.length total)
  if maxPositional < given then .error (.noPositional function)
  match (names.take given).zipIdx.find? fun (name, _) => (args.named.lookup name).isSome with
  | some (name, i) => .error (.givenTwice function name (i + 1))
  | none => pure ()
  match args.named.find? fun (name, _) => !names.contains name with
  | some (name, _) => .error (.invalidKeyword function name)
  | none => pure ()
  return ⟨names.zip args.positional ++ args.named⟩

end Arguments

namespace Value

def machineInt (word : String) (bits : Nat) (v : Value) : Except Failure Int :=
  match v.int? with
  | none => .error (.argument (.notIndex v.typeName))
  | some n =>
    let bound : Int := Nat.pow 2 bits
    if n < -bound || bound ≤ n then .error (.item (.wordRange word)) else .ok n

def index (v : Value) : Except Failure Int :=
  v.machineInt "ssize_t" 63

def switch (v : Value) : Except Failure Bool :=
  (v.machineInt "int" 31).map (· != 0)

def sliceBound (fallback : Int) (v : Value) : Except Failure Int :=
  match v with
  | .nothing => .ok fallback
  | _ =>
    match v.int? with
    | some n => .ok n
    | none => .error (.argument .sliceIndex)

/-- A position in a sequence of a length; a position below zero counts from the end. -/
def fromStart (length : Nat) (n : Int) : Nat :=
  if n < 0 then (n + length).toNat else n.toNat

/-- The items that a value has one after the other. A directory is asked for its size first. -/
def iterate? : Value → Run (Option (List Value))
  | .text t => return some (t.map fun c => .text [c])
  | .list ref => return some (← Run.items ref).toList
  | .directory d => do
    let _ ← Run.onTree d.size
    let paths ← Run.onTree d.loopPaths
    return some (← Action.mapList (fun path => do
      return .file (← Run.onShelf (Directory.loopFile path))) paths)
  | _ => return none

end Value

namespace Run

variable {α : Type}

def ofArgument : Except ArgumentMistake α → Run α
  | .ok a => pure a
  | .error e => fail (.argument e)

end Run

end Folio
