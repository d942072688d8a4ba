import Folio.Text.Quoted

/-!
# Command line options

A switch is a word that starts with a dash; its value is the next word or stands after an equals
sign. The long name of a switch may be cut short as long as it stays unique. After two dashes every
word is an argument.
-/

namespace Folio.Command

structure Switch where
  names : List Text
  takesValue : Bool
deriving DecidableEq, Repr

structure Grammar where
  usage : Text
  help : Text
  helpSwitch : Switch
  switches : List Switch
  argument : Text

structure Parsed where
  argument : Text
  values : List (Switch × Text)
deriving DecidableEq, Repr

inductive Reply where
  | help
  | refused (message : Text)
deriving DecidableEq, Repr

inductive Attached where
  | nothing
  | afterEquals (value : Text)
  | letters (t : Text)
deriving DecidableEq, Repr

inductive Word where
  | plain (t : Text)
  | divider
  | switch (s : Switch) (name : Text) (value : Attached)
  | unknown (t : Text)
deriving DecidableEq, Repr

namespace Grammar

def allNames (g : Grammar) : List (Text × Switch) :=
  (g.helpSwitch :: g.switches).flatMap fun s => s.names.map (·, s)

def cutAtEquals (t : Text) : Text × Option Text :=
  match t.span (· != '=') with
  | (before, _ :: after) => (before, some after)
  | (before, []) => (before, none)

def attached : Option Text → Attached
  | some value => .afterEquals value
  | none => .nothing

def candidates (g : Grammar) (t : Text) : List (Switch × Text × Attached) :=
  match t with
  | '-' :: '-' :: _ =>
    let (short, value) := cutAtEquals t
    g.allNames.filterMap fun (name, s) =>
      if short.isPrefixOf name then some (s, name, attached value) else none
  | _ =>
    g.allNames.filterMap fun (name, s) =>
      if name == t.take 2 then some (s, name, .letters (t.drop 2))
      else if t.isPrefixOf name then some (s, name, .nothing)
      else none

def isNegativeNumber : Text → Bool
  | '-' :: rest =>
    let whole := rest.takeWhile Text.isDecimal
    match rest.drop whole.length with
    | [] => !whole.isEmpty
    | '.' :: fraction => !fraction.isEmpty && fraction.all Text.isDecimal
    | _ => false
  | _ => false

def readDashed (g : Grammar) (t : Text) : Except Reply Word :=
  let (before, value) := cutAtEquals t
  match g.allNames.lookup before, value with
  | some s, some value => .ok (.switch s before (.afterEquals value))
  | _, _ =>
    match g.candidates t with
    | [(s, name, value)] => .ok (.switch s name value)
    | first :: second :: more =>
      let shown := Text.joinWith ", ".toList ((first :: second :: more).map (·.2.1))
      .error (.refused
        ("ambiguous option: ".toList ++ t ++ " could match ".toList ++ shown))
    | [] =>
      .ok (if isNegativeNumber t || t.contains ' ' then .plain t else .unknown t)

def readWord (g : Grammar) (t : Text) : Except Reply Word :=
  if t.head? != some '-' then .ok (.plain t)
  else
    match g.allNames.lookup t with
    | some s => .ok (.switch s t .nothing)
    | none => if t.length == 1 then .ok (.plain t) else g.readDashed t

def readWords (g : Grammar) : List Text → Except Reply (List Word)
  | [] => .ok []
  | t :: rest =>
    if t == ['-', '-'] then .ok (.divider :: rest.map .plain)
    else do
      let word ← g.readWord t
      return word :: (← g.readWords rest)

structure State where
  argument : Option Text
  values : List (Switch × Text)
  extras : List Text

def refusal (s : Switch) (message : Text) : Reply :=
  .refused ("argument ".toList ++ Text.joinWith ['/'] s.names ++ ": ".toList ++ message)

def ignoredValue (s : Switch) (value : Text) : Reply :=
  refusal s ("ignored explicit argument ".toList ++ Text.quoted value)

/-- Follows letters that are written together after one dash: letters that name the switch for help,
the only one with a letter, up to one that names nothing. -/
def readLetters (s : Switch) (t : Text) : Reply :=
  match t with
  | [] => .help
  | '-' :: _ => ignoredValue s t
  | c :: rest =>
    if s.names.contains ['-', c] then
      match rest with
      | '=' :: value => ignoredValue s value
      | _ => readLetters s rest
    else .help

def readSwitch (state : State) (s : Switch) (value : Attached) (rest : List Word) :
    Except Reply (State × List Word) :=
  let set (value : Text) : State := { state with values := state.values ++ [(s, value)] }
  match s.takesValue, value with
  | true, .afterEquals value => .ok (set value, rest)
  | true, .letters value => .ok (set value, rest)
  | true, .nothing =>
    match rest with
    | .plain value :: rest => .ok (set value, rest)
    | _ => .error (refusal s "expected one argument".toList)
  | false, .afterEquals value => .error (ignoredValue s value)
  | false, .letters t => .error (readLetters s t)
  | false, .nothing => .error .help

def addPlain (state : State) (t : Text) : State :=
  match state.argument with
  | none => { state with argument := some t }
  | some _ => { state with extras := state.extras ++ [t] }

/-- Two dashes, which are left over if the argument does not stand next to them. -/
def addDivider (state : State) (before : Bool) (rest : List Word) : State :=
  let next := match rest with
    | .plain _ :: _ => state.argument.isNone
    | _ => false
  if before || next then state else { state with extras := state.extras ++ [['-', '-']] }

/-- Reads words. The number of words bounds the steps; `before` says whether the last word was taken
as the argument. -/
def readAll (g : Grammar) : Nat → State → Bool → List Word → Except Reply State
  | 0, state, _, _ => .ok state
  | _ + 1, state, _, [] => .ok state
  | fuel + 1, state, before, word :: rest =>
    match word with
    | .plain t => readAll g fuel (addPlain state t) state.argument.isNone rest
    | .divider => readAll g fuel (addDivider state before rest) false rest
    | .unknown t => readAll g fuel { state with extras := state.extras ++ [t] } false rest
    | .switch s _ value => do
      let (state, rest) ← readSwitch state s value rest
      readAll g fuel state false rest

def parse (g : Grammar) (argv : List Text) : Except Reply Parsed := do
  let words ← g.readWords argv
  let state ← g.readAll (words.length + 1) ⟨none, [], []⟩ false words
  match state.argument with
  | none =>
    .error (.refused ("the following arguments are required: ".toList ++ g.argument))
  | some argument =>
    if state.extras.isEmpty then return ⟨argument, state.values⟩
    .error (.refused
      ("unrecognized arguments: ".toList ++ Text.joinWith [' '] state.extras))

end Grammar

end Folio.Command
