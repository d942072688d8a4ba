import Folio.Pattern.CharTest
import Folio.Pattern.Parser

/-!
# Matching

A pattern is prepared for a search: the switches are worked into its characters and places, and the
looks behind get their widths. The choices of the pattern are tried in order; what comes after a part
of it is a goal that has to be reached from where the part ends. A repetition does not start another
round at the place where the last optional round started.
-/

namespace Folio.Pattern

inductive Place where
  | textStart
  | textStop
  | lineStart
  | lineStop
  /-- The end of the text, or before a newline that ends it. -/
  | lastLineStop
  | boundary (ascii : Bool)
  | inside (ascii : Bool)
deriving DecidableEq, Repr

inductive Step where
  | one (test : CharTest)
  | place (place : Place)
  | group (index : Nat) (body : List Step)
  | inline (body : List Step)
  | atomic (body : List Step)
  | look (back : Nat) (negated : Bool) (body : List Step)
  | branch (alternatives : List (List Step))
  | reference (group : Nat) (fold : Fold)
  | condition (group : Nat) (yes no : List Step)
  | run (greed : Greed) (least : Nat) (most : Option Nat) (test : CharTest)
  | repeated (greed : Greed) (least : Nat) (most : Option Nat) (body : List Step)

def Anchor.place (flags : Flags) : Anchor → Place
  | .textStart => .textStart
  | .start => if flags.multiline then .lineStart else .textStart
  | .stop => if flags.multiline then .lineStop else .lastLineStop
  | .textStop => .textStop
  | .boundary => .boundary flags.ascii
  | .inside => .inside flags.ascii

def maxLookBehind : Nat := 4294967295

def singleTest? : List Step → Option CharTest
  | [.one test] => some test
  | [.inline [.one test]] => some test
  | _ => none

mutual

def Term.prepare (groups : List (Option Width)) (flags : Flags) : Term → Except Flaw Step
  | .char code => .ok (.one (CharTest.ofCode flags false code))
  | .otherThan code => .ok (.one (CharTest.ofCode flags true code))
  | .any => .ok (.one (CharTest.any flags))
  | .set negated members => .ok (.one (CharTest.ofSet flags negated members))
  | .anchor a => .ok (.place (a.place flags))
  | .group index on off body => do
    let body ← prepareAll groups (flags.inside on off) body
    match index with
    | some i => return .group i body
    | none => return .inline body
  | .atomic body => return .atomic (← prepareAll groups flags body)
  | .look behind negated body => do
    let width := widthAll groups body
    if behind && maxLookBehind < width.least then throw .farLookBehind
    if behind && width.least != width.most then throw .looseLookBehind
    return .look (if behind then width.least else 0) negated (← prepareAll groups flags body)
  | .branch alternatives => return .branch (← prepareAny groups flags alternatives)
  | .reference group => .ok (.reference group flags.fold)
  | .condition group yes no => do
    let yes ← prepareAll groups flags yes
    return .condition group yes (← prepareAll groups flags no)
  | .repeated greed least most body => do
    if flags.plain then throw (.repeatRefused greed)
    let body ← prepareAll groups flags body
    match singleTest? body with
    | some test => return .run greed least most test
    | none => return .repeated greed least most body

def prepareAll (groups : List (Option Width)) (flags : Flags) : List Term → Except Flaw (List Step)
  | [] => .ok []
  | term :: rest => do
    let step ← term.prepare groups flags
    return step :: (← prepareAll groups flags rest)

def prepareAny (groups : List (Option Width)) (flags : Flags) :
    List (List Term) → Except Flaw (List (List Step))
  | [] => .ok []
  | body :: rest => do
    let body ← prepareAll groups flags body
    return body :: (← prepareAny groups flags rest)

end

/-- Where a match has come to in a text: the characters before, the nearest first, and those after. -/
structure Cursor where
  index : Nat
  before : Text
  after : Text

namespace Cursor

def start (t : Text) : Cursor := ⟨0, [], t⟩

def advance (cursor : Cursor) : Cursor :=
  match cursor.after with
  | [] => cursor
  | c :: rest => ⟨cursor.index + 1, c :: cursor.before, rest⟩

def retreat (cursor : Cursor) : Cursor :=
  match cursor.before with
  | [] => cursor
  | c :: rest => ⟨cursor.index - 1, rest, c :: cursor.after⟩

def back? : Nat → Cursor → Option Cursor
  | 0, cursor => some cursor
  | n + 1, cursor => if cursor.before.isEmpty then none else back? n cursor.retreat

end Cursor

structure Marks where
  starts : List (Nat × Nat)
  stops : List (Nat × Nat)

def Marks.none : Marks := ⟨[], []⟩

def Marks.span? (marks : Marks) (group : Nat) : Option (Nat × Nat) := do
  let start ← marks.starts.lookup group
  let stop ← marks.stops.lookup group
  if stop < start then failure
  return (start, stop)

abbrev Goal := Cursor → Marks → Option (Cursor × Marks)

def Goal.reached : Goal := fun cursor marks => some (cursor, marks)

structure Subject where
  text : Text
  size : Nat

def isNewline? (c : Option Char) : Bool := c == some '\n'

def isWordAt (ascii : Bool) (c : Option Char) : Bool :=
  match c with
  | some c => Kind.word.holds ascii c.toNat
  | none => false

/-- Does the cursor stand at a place? No place in an empty text is a word boundary, nor inside or
outside of a word. -/
def Place.holds (cursor : Cursor) : Place → Bool
  | .textStart => cursor.before.isEmpty
  | .textStop => cursor.after.isEmpty
  | .lineStart => cursor.before.isEmpty || isNewline? cursor.before.head?
  | .lineStop => cursor.after.isEmpty || isNewline? cursor.after.head?
  | .lastLineStop => cursor.after.isEmpty || cursor.after == ['\n']
  | .boundary ascii => isWordAt ascii cursor.before.head? != isWordAt ascii cursor.after.head?
  | .inside ascii =>
    (!cursor.before.isEmpty || !cursor.after.isEmpty)
      && isWordAt ascii cursor.before.head? == isWordAt ascii cursor.after.head?

def runForward (test : CharTest) (most : Option Nat) (count : Nat) :
    Nat → Text → Text → Cursor × Nat
  | index, before, [] => (⟨index, before, []⟩, count)
  | index, before, c :: rest =>
    if most == some count || !test.accepts c then (⟨index, before, c :: rest⟩, count)
    else runForward test most (count + 1) (index + 1) (c :: before) rest

def tryBackward (goal : Goal) (marks : Marks) : Nat → Cursor → Option (Cursor × Marks)
  | 0, cursor => goal cursor marks
  | n + 1, cursor =>
    match goal cursor marks with
    | some result => some result
    | none => tryBackward goal marks n cursor.retreat

def tryForward (test : CharTest) (goal : Goal) (marks : Marks) (most : Option Nat) (count : Nat) :
    Nat → Text → Text → Option (Cursor × Marks)
  | index, before, [] => goal ⟨index, before, []⟩ marks
  | index, before, c :: rest =>
    match goal ⟨index, before, c :: rest⟩ marks with
    | some result => some result
    | none =>
      if most == some count || !test.accepts c then none
      else tryForward test goal marks most (count + 1) (index + 1) (c :: before) rest

def runTest (greed : Greed) (least : Nat) (most : Option Nat) (test : CharTest) (goal : Goal) :
    Goal := fun cursor marks =>
  match greed with
  | .greedy =>
    let (stop, count) := runForward test most 0 cursor.index cursor.before cursor.after
    if count < least then none else tryBackward goal marks (count - least) stop
  | .possessive =>
    let (stop, count) := runForward test most 0 cursor.index cursor.before cursor.after
    if count < least then none else goal stop marks
  | .reluctant =>
    let (stop, count) := runForward test (some least) 0 cursor.index cursor.before cursor.after
    if count < least then none
    else tryForward test goal marks most count stop.index stop.before stop.after

/-- A body repeated as often as possible first. `last` is where the last optional round started. -/
def loopGreedy (body : Goal → Goal) (least : Nat) (most : Option Nat) (goal : Goal) :
    Nat → Nat → Option Nat → Goal
  | 0, _, _ => fun _ _ => none
  | fuel + 1, count, last => fun cursor marks =>
    if count < least then body (loopGreedy body least most goal fuel (count + 1) last) cursor marks
    else
      let more :=
        if most != some count && last != some cursor.index then
          body (loopGreedy body least most goal fuel (count + 1) (some cursor.index)) cursor marks
        else none
      match more with
      | some result => some result
      | none => goal cursor marks

def loopReluctant (body : Goal → Goal) (least : Nat) (most : Option Nat) (goal : Goal) :
    Nat → Nat → Option Nat → Goal
  | 0, _, _ => fun _ _ => none
  | fuel + 1, count, last => fun cursor marks =>
    if count < least then
      body (loopReluctant body least most goal fuel (count + 1) last) cursor marks
    else
      match goal cursor marks with
      | some result => some result
      | none =>
        if most == some count || last == some cursor.index then none
        else
          body (loopReluctant body least most goal fuel (count + 1) (some cursor.index)) cursor
            marks

def loopPossessive (body : Goal → Goal) (least : Nat) (most : Option Nat) (goal : Goal) :
    Nat → Nat → Option Nat → Goal
  | 0, _, _ => fun _ _ => none
  | fuel + 1, count, last => fun cursor marks =>
    if count < least then
      match body Goal.reached cursor marks with
      | some (cursor, marks) =>
        loopPossessive body least most goal fuel (count + 1) last cursor marks
      | none => none
    else if most != some count && last != some cursor.index then
      match body Goal.reached cursor marks with
      | some (next, marks) =>
        loopPossessive body least most goal fuel (count + 1) (some cursor.index) next marks
      | none => goal cursor marks
    else goal cursor marks

/-- A body repeated. Beyond the least number every round but the last takes a character, which
bounds the number of rounds. -/
def loop (size : Nat) (greed : Greed) (least : Nat) (most : Option Nat) (body : Goal → Goal)
    (goal : Goal) : Goal :=
  let fuel := least + size + 3
  match greed with
  | .greedy => loopGreedy body least most goal fuel 0 none
  | .reluctant => loopReluctant body least most goal fuel 0 none
  | .possessive => loopPossessive body least most goal fuel 0 none

def runText (fold : Fold) : Text → Cursor → Option Cursor
  | [], cursor => some cursor
  | c :: rest, cursor =>
    match cursor.after with
    | [] => none
    | d :: _ =>
      if fold.lower c.toNat == fold.lower d.toNat then runText fold rest cursor.advance else none

mutual

def Step.match (subject : Subject) : Step → Goal → Goal
  | .one test => fun goal cursor marks =>
    match cursor.after with
    | [] => none
    | c :: rest =>
      if test.accepts c then goal ⟨cursor.index + 1, c :: cursor.before, rest⟩ marks else none
  | .place p => fun goal cursor marks => if p.holds cursor then goal cursor marks else none
  | .group index body => fun goal cursor marks =>
    matchAll subject body
      (fun next marks => goal next { marks with stops := (index, next.index) :: marks.stops })
      cursor { marks with starts := (index, cursor.index) :: marks.starts }
  | .inline body => fun goal => matchAll subject body goal
  | .atomic body => fun goal cursor marks =>
    match matchAll subject body Goal.reached cursor marks with
    | some (next, marks) => goal next marks
    | none => none
  | .look back negated body => fun goal cursor marks =>
    let found := match cursor.back? back with
      | some from' => matchAll subject body Goal.reached from' marks
      | none => none
    match negated, found with
    | false, some (_, marks) => goal cursor marks
    | true, none => goal cursor marks
    | _, _ => none
  | .branch alternatives => fun goal => matchAny subject alternatives goal
  | .reference group fold => fun goal cursor marks =>
    match marks.span? group with
    | none => none
    | some (start, stop) =>
      match runText fold (subject.text.slice start stop) cursor with
      | some next => goal next marks
      | none => none
  | .condition group yes no => fun goal cursor marks =>
    if (marks.span? group).isSome then matchAll subject yes goal cursor marks
    else matchAll subject no goal cursor marks
  | .run greed least most test => fun goal => runTest greed least most test goal
  | .repeated greed least most body => fun goal =>
    loop subject.size greed least most (matchAll subject body) goal

def matchAll (subject : Subject) : List Step → Goal → Goal
  | [] => fun goal => goal
  | step :: rest => fun goal => step.match subject (matchAll subject rest goal)

def matchAny (subject : Subject) : List (List Step) → Goal → Goal
  | [] => fun _ _ _ => none
  | body :: rest => fun goal cursor marks =>
    match matchAll subject body goal cursor marks with
    | some result => some result
    | none => matchAny subject rest goal cursor marks

end

end Pattern

structure Pattern where
  steps : List Pattern.Step

structure Span where
  start : Nat
  stop : Nat
deriving DecidableEq, Repr

namespace Pattern

def compile (ignoreCase : Bool) (t : Text) : Except Flaw Pattern := do
  let parsed ← parse ignoreCase t
  return ⟨← prepareAll parsed.groups parsed.flags parsed.terms⟩

/-- Where the match that starts at a cursor stops; it has to take a character if `advance` is
set. -/
def matchAt (p : Pattern) (subject : Subject) (advance : Bool) (cursor : Cursor) :
    Option Cursor :=
  let goal : Goal := fun stop marks =>
    if advance && stop.index == cursor.index then none else some (stop, marks)
  (matchAll subject p.steps goal cursor Marks.none).map (·.1)

def searchFrom (p : Pattern) (subject : Subject) (advance : Bool) :
    Nat → Text → Text → Option (Nat × Cursor)
  | index, before, [] => (p.matchAt subject advance ⟨index, before, []⟩).map (index, ·)
  | index, before, c :: rest =>
    match p.matchAt subject advance ⟨index, before, c :: rest⟩ with
    | some stop => some (index, stop)
    | none => searchFrom p subject false (index + 1) (c :: before) rest

/-- The matches from a place on, one after the other. After a match without characters the next one
at the same place has to take one. -/
def searchAll (p : Pattern) (subject : Subject) : Nat → Bool → Cursor → List Span
  | 0, _, _ => []
  | fuel + 1, advance, cursor =>
    match p.searchFrom subject advance cursor.index cursor.before cursor.after with
    | none => []
    | some (start, stop) =>
      ⟨start, stop.index⟩ :: searchAll p subject fuel (stop.index == start) stop

def find? (p : Pattern) (t : Text) : Option Span :=
  (p.searchFrom ⟨t, t.length⟩ false 0 [] t).map fun (start, stop) => ⟨start, stop.index⟩

def isFound (p : Pattern) (t : Text) : Bool :=
  (p.find? t).isSome

def findUpTo (p : Pattern) (limit : Nat) (t : Text) : List Span :=
  p.searchAll ⟨t, t.length⟩ (min limit (2 * t.length + 2)) false (Cursor.start t)

end Pattern

end Folio
