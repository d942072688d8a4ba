import Folio.Pattern.Flaw
import Folio.Text.CharName
import Folio.Text.Identifier

/-!
# Reading patterns

A pattern is a sequence of marks; a backslash and the character after it are one mark. The reader
always knows the next mark, so a backslash at the very end is found as soon as the mark before it has
been taken.
-/

namespace Folio.Pattern

/-- Groups that are closed have a width; `lookBehind` is the number of groups before the outermost
look behind, and `conditions` has the groups that conditions name, with their positions. -/
structure Reader where
  position : Nat
  rest : Text
  flags : Flags
  groups : List (Option Width)
  names : List (Text × Nat)
  lookBehind : Option Nat
  conditions : List (Nat × Nat)

abbrev Reading := StateT Reader (Except Flaw)

namespace Reading

def failAt {α : Type} (what : Problem) (position : Nat) : Reading α :=
  throw (.problem what position)

def fail {α : Type} (what : Problem) (back : Nat) : Reading α := do
  failAt what ((← get).position - back)

def markOf : Text → Option Text
  | [] => none
  | '\\' :: c :: _ => some ['\\', c]
  | c :: _ => some [c]

def next : Reading (Option Text) := do
  return markOf (← get).rest

def take : Reading (Option Text) := do
  let state ← get
  match markOf state.rest with
  | none => return none
  | some mark =>
    let rest := state.rest.drop mark.length
    let position := state.position + mark.length
    if rest == ['\\'] then failAt .escapeAtEnd position
    set { state with position := position, rest := rest }
    return some mark

def skip (c : Char) : Reading Bool := do
  if (← next) == some [c] then
    let _ ← take
    return true
  else return false

def takeWhile (p : Char → Bool) : Nat → Reading Text
  | 0 => return []
  | n + 1 => do
    match ← next with
    | some [c] =>
      if p c then
        let _ ← take
        return c :: (← takeWhile p n)
      else return []
    | _ => return []

def takeName (terminator : Char) (what : String) : Nat → Text → Reading Text
  | 0, name => return name
  | fuel + 1, name => do
    match ← take with
    | none =>
      if name.isEmpty then fail (.missingName what.toList) 0
      else fail (.unterminatedName terminator) name.length
    | some mark =>
      if mark == [terminator] then
        if name.isEmpty then fail (.missingName what.toList) 1
        return name
      else takeName terminator what fuel (name ++ mark)

def nameUntil (terminator : Char) (what : String) : Reading Text := do
  takeName terminator what ((← get).rest.length + 1) []

end Reading

open Reading

def isHexDigit (c : Char) : Bool :=
  c.isDigit || ('a' ≤ c ∧ c ≤ 'f') || ('A' ≤ c ∧ c ≤ 'F')

def isOctalDigit (c : Char) : Bool :=
  '0' ≤ c ∧ c ≤ '7'

def octalValue (digits : Text) : Nat :=
  digits.foldl (fun n c => 8 * n + (c.toNat - '0'.toNat)) 0

def maxOctal : Nat := 255

def hexEscape (letter : Char) (count : Nat) : Reading Nat := do
  let digits ← takeWhile isHexDigit count
  let escape := '\\' :: letter :: digits
  if digits.length != count then fail (.incompleteEscape escape) escape.length
  let code := Text.hexValue digits
  if 0x10FFFF < code then fail (.badEscape escape) escape.length
  return code

def namedEscape : Reading Nat := do
  if !(← skip '{') then fail .missingBrace 0
  let name ← nameUntil '}' "character name"
  match Text.charNamed? name with
  | some code => return code
  | none => fail (.undefinedName name) (name.length + 4)

def controlEscape? : Char → Option Nat
  | 'a' => some 7
  | 'b' => some 8
  | 'f' => some 12
  | 'n' => some 10
  | 'r' => some 13
  | 't' => some 9
  | 'v' => some 11
  | '\\' => some '\\'.toNat
  | _ => none

/-- The kinds of characters that letters stand for; a capital stands for all others. -/
def kindEscape? : Char → Option Member
  | 'd' => some (.kind .digit false)
  | 'D' => some (.kind .digit true)
  | 's' => some (.kind .space false)
  | 'S' => some (.kind .space true)
  | 'w' => some (.kind .word false)
  | 'W' => some (.kind .word true)
  | _ => none

def anchorEscape? : Char → Option Anchor
  | 'A' => some .textStart
  | 'b' => some .boundary
  | 'B' => some .inside
  | 'Z' => some .textStop
  | _ => none

/-- A character that stands for itself after a backslash: no letter does. -/
def plainEscape (c : Char) : Reading Nat := do
  if c.isAlpha || c.isDigit then fail (.badEscape ['\\', c]) 2
  return c.toNat

def codeEscape? (c : Char) : Option (Reading Nat) :=
  match c with
  | 'x' => some (hexEscape 'x' 2)
  | 'u' => some (hexEscape 'u' 4)
  | 'U' => some (hexEscape 'U' 8)
  | 'N' => some namedEscape
  | _ => none

def setEscape (c : Char) : Reading Member := do
  match controlEscape? c, kindEscape? c, codeEscape? c with
  | some code, _, _ => return .char code
  | _, some member, _ => return member
  | _, _, some code => return .char (← code)
  | _, _, _ =>
    if isOctalDigit c then
      let digits := c :: (← takeWhile isOctalDigit 2)
      if maxOctal < octalValue digits then
        fail (.octalRange ('\\' :: digits)) (digits.length + 1)
      return .char (octalValue digits)
    else return .char (← plainEscape c)

def checkLookBehind (group : Nat) : Reading Unit := do
  let state ← get
  match state.lookBehind with
  | none => return ()
  | some before =>
    if ((state.groups[group]?).bind id).isNone then fail .openGroup 0
    if before ≤ group then fail .groupInSameLook 0

def referenceEscape (digits : Text) : Reading Term := do
  let state ← get
  let group := Decimal.digitsValue digits
  match state.groups[group]? with
  | none => fail (.invalidReference group) digits.length
  | some none => fail .openGroup (digits.length + 1)
  | some (some _) =>
    checkLookBehind group
    return .reference group

/-- Reads what a backslash and a digit other than zero mean: three octal digits are a character, and
all else refers to a group. -/
def digitEscape (c : Char) : Reading Term := do
  match ← takeWhile Char.isDigit 1 with
  | [d] =>
    if isOctalDigit c && isOctalDigit d then
      match ← takeWhile isOctalDigit 1 with
      | [e] =>
        if maxOctal < octalValue [c, d, e] then fail (.octalRange ['\\', c, d, e]) 4
        return .char (octalValue [c, d, e])
      | _ => referenceEscape [c, d]
    else referenceEscape [c, d]
  | _ => referenceEscape [c]

def termEscape (c : Char) : Reading Term := do
  match anchorEscape? c, kindEscape? c, controlEscape? c, codeEscape? c with
  | some place, _, _, _ => return .anchor place
  | _, some member, _, _ => return .set false [member]
  | _, _, some code, _ => return .char code
  | _, _, _, some code => return .char (← code)
  | _, _, _, _ =>
    if c == '0' then return .char (octalValue (c :: (← takeWhile isOctalDigit 2)))
    else if c.isDigit then digitEscape c
    else return .char (← plainEscape c)

def memberOf : Text → Reading Member
  | ['\\', c] => setEscape c
  | mark => return .char ((mark.head?.map Char.toNat).getD 0)

def rangeOf (firstMark lastMark : Text) (first last : Member) : Reading Member := do
  match first, last with
  | .char lo, .char hi =>
    if hi < lo then fail (.badRange firstMark lastMark) (firstMark.length + 1 + lastMark.length)
    return .range lo hi
  | _, _ => fail (.badRange firstMark lastMark) (firstMark.length + 1 + lastMark.length)

def members (start : Nat) : Nat → List Member → Reading (List Member)
  | 0, done => return done.reverse
  | fuel + 1, done => do
    match ← take with
    | none => failAt .unterminatedSet start
    | some mark =>
      if mark == [']'] && !done.isEmpty then return done.reverse
      let first ← memberOf mark
      if !(← skip '-') then members start fuel (first :: done)
      else
        match ← take with
        | none => failAt .unterminatedSet start
        | some [']'] => return (.char '-'.toNat :: first :: done).reverse
        | some mark' =>
          let last ← memberOf mark'
          let member ← rangeOf mark mark' first last
          members start fuel (member :: done)

def setTerm (start : Nat) : Reading Term := do
  let negated ← skip '^'
  let found ← members start ((← get).rest.length + 1) []
  match found.eraseDups with
  | [.char code] => return if negated then .otherThan code else .char code
  | distinct => return .set negated distinct

def maxRounds : Nat := 4294967295

def roundsOf (digits : Text) : Reading (Option Nat) := do
  if digits.isEmpty then return none
  match Decimal.readNumber digits with
  | .error flaw => throw (.number flaw)
  | .ok n =>
    if maxRounds ≤ n then throw .repeatTooLarge
    return some n

/-- Reads the numbers of rounds after an opening brace; without them the brace is a character. -/
def bounds : Reading (Option (Nat × Option Nat)) := do
  let start ← get
  if (← next) == some ['}'] then return none
  let lo ← takeWhile Char.isDigit start.rest.length
  let hi ← if ← skip ',' then takeWhile Char.isDigit start.rest.length else pure lo
  if !(← skip '}') then
    set start
    return none
  let least := (← roundsOf lo).getD 0
  let most ← roundsOf hi
  match most with
  | some n => if n < least then failAt .repeatOrder start.position
  | none => pure ()
  return some (least, most)

def greedMark : Reading Greed := do
  if ← skip '?' then return .reluctant
  if ← skip '+' then return .possessive
  return .greedy

def repeatTerm (start : Nat) (rounds : Nat × Option Nat) : Option Term → Reading Term
  | none => failAt .nothingToRepeat start
  | some (.anchor _) => failAt .nothingToRepeat start
  | some (.repeated _ _ _ _) => failAt .multipleRepeat start
  | some term => do
    let body := openGroups [term]
    return .repeated (← greedMark) rounds.1 rounds.2 body

def checkGroupName (name : Text) : Reading Unit := do
  if !Text.isIdentifier name then fail (.badGroupName name) (name.length + 1)

def groupNamed (name : Text) : Reading Nat := do
  match (← get).names.lookup name with
  | some group => return group
  | none => fail (.unknownGroupName name) (name.length + 1)

def namedReference : Reading Term := do
  let name ← nameUntil ')' "group name"
  checkGroupName name
  let group ← groupNamed name
  if (((← get).groups[group]?).bind id).isNone then fail .openGroup (name.length + 1)
  checkLookBehind group
  return .reference group

def maxGroups : Nat := 1073741823

def conditionGroup : Reading Nat := do
  let name ← nameUntil ')' "group name"
  let back := name.length + 1
  let group ← if Text.isIdentifier name then groupNamed name
    else
      match Decimal.readInteger? name with
      | none => fail (.badGroupName name) back
      | some n =>
        if n < 0 then fail (.badGroupName name) back
        let group := n.toNat
        if group == 0 then fail .badGroupNumber back
        if maxGroups ≤ group then fail (.invalidReference group) back
        modify fun state =>
          if (state.conditions.lookup group).isSome then state
          else { state with conditions := state.conditions ++ [(group, state.position - back)] }
        pure group
  checkLookBehind group
  return group

def flagsOn : Nat → Flags → Text → Reading (Flags × Text)
  | 0, on, mark => return (on, mark)
  | fuel + 1, on, mark => do
    if mark == ['L'] then fail .localeFlag 0
    let flag := (mark.head?.bind Flags.ofLetter?).getD {}
    let on := on.union flag
    if flag.choosesAlphabet && on.ascii && on.unicode then fail .alphabetFlags 0
    match ← take with
    | none => fail .missingFlagEnd 0
    | some mark =>
      if mark == [')'] || mark == ['-'] || mark == [':'] then return (on, mark)
      match mark with
      | [c] =>
        if (Flags.ofLetter? c).isSome || c == 'L' then flagsOn fuel on mark
        else fail (if Text.isLetter c then .unknownFlag else .missingFlagEnd) 1
      | _ => fail .missingFlagEnd mark.length

def flagsOff : Nat → Flags → Text → Reading Flags
  | 0, off, _ => return off
  | fuel + 1, off, mark => do
    let flag := (mark.head?.bind Flags.ofLetter?).getD {}
    if flag.choosesAlphabet || mark == ['L'] then fail .alphabetFlagOff 0
    let off := off.union flag
    match ← take with
    | none => fail .missingColon 0
    | some [':'] => return off
    | some [c] =>
      if (Flags.ofLetter? c).isSome || c == 'L' then flagsOff fuel off [c]
      else fail (if Text.isLetter c then .unknownFlag else .missingColon) 1
    | some mark => fail .missingColon mark.length

def firstFlagOff : Reading Text := do
  match ← take with
  | none => fail .missingFlag 0
  | some [c] =>
    if (Flags.ofLetter? c).isSome || c == 'L' then return [c]
    else fail (if Text.isLetter c then .unknownFlag else .missingFlag) 1
  | some mark => fail .missingFlag mark.length

/-- Reads the switches of a group, from a mark that has been taken. Without a group after them they
hold for the whole pattern. -/
def groupFlags (mark : Text) : Reading (Option (Flags × Flags)) := do
  let fuel := (← get).rest.length + 1
  let (on, mark) ← if mark == ['-'] then pure ({}, mark) else flagsOn fuel {} mark
  if mark == [')'] then
    modify fun state => { state with flags := state.flags.union on }
    return none
  if on.plain then fail .globalFlagOn 1
  let off ← if mark == ['-'] then flagsOff fuel {} (← firstFlagOff) else pure {}
  if off.plain then fail .globalFlagOff 1
  if !(on.inter off).isEmpty then fail .flagOnAndOff 1
  return some (on, off)

def openGroup (name : Option Text) : Reading Nat := do
  let state ← get
  let group := state.groups.length
  match name with
  | none => set { state with groups := state.groups ++ [none] }
  | some name =>
    match state.names.lookup name with
    | some earlier => fail (.groupNameTaken name group earlier) (name.length + 1)
    | none =>
      set { state with groups := state.groups ++ [none], names := state.names ++ [(name, group)] }
  return group

def closeGroup (group : Nat) (body : List Term) : Reading Unit :=
  modify fun state =>
    { state with groups := state.groups.set group (some (widthAll state.groups body)) }

inductive Opening where
  | capturing (name : Option Text)
  | holding (on off : Flags)
  | atomic
  | look (behind negated : Bool)
  | condition
  | term (term : Term)
  | global
  | comment

def skipComment (start : Nat) : Nat → Reading Unit
  | 0 => return ()
  | fuel + 1 => do
    match ← take with
    | none => failAt .unterminatedComment start
    | some [')'] => return ()
    | some _ => skipComment start fuel

def skipLine : Nat → Reading Unit
  | 0 => return ()
  | fuel + 1 => do
    match ← take with
    | none => return ()
    | some ['\n'] => return ()
    | some _ => skipLine fuel

def namedOpening : Reading Opening := do
  if ← skip '<' then
    let name ← nameUntil '>' "group name"
    checkGroupName name
    return .capturing (some name)
  else if ← skip '=' then return .term (← namedReference)
  else
    match ← take with
    | none => fail .unexpectedEnd 0
    | some mark => fail (.unknownExtension ('P' :: mark)) (mark.length + 2)

def opening (start : Nat) : Reading Opening := do
  if !(← skip '?') then return .capturing none
  match ← take with
  | none => fail .unexpectedEnd 0
  | some ['P'] => namedOpening
  | some [':'] => return .holding {} {}
  | some ['#'] =>
    skipComment start ((← get).rest.length + 1)
    return .comment
  | some ['='] => return .look false false
  | some ['!'] => return .look false true
  | some ['<'] =>
    match ← take with
    | none => fail .unexpectedEnd 0
    | some ['='] => return .look true false
    | some ['!'] => return .look true true
    | some mark => fail (.unknownExtension ('<' :: mark)) (mark.length + 2)
  | some ['('] => return .condition
  | some ['>'] => return .atomic
  | some mark =>
    let isFlag := match mark with
      | [c] => (Flags.ofLetter? c).isSome || c == 'L' || c == '-'
      | _ => false
    if !isFlag then fail (.unknownExtension mark) (mark.length + 1)
    match ← groupFlags mark with
    | none => return .global
    | some (on, off) => return .holding on off

def closing (start : Nat) : Reading Unit := do
  if !(← skip ')') then failAt .unterminatedGroup start

def isPatternBlank (c : Char) : Bool :=
  c == ' ' || (9 ≤ c.toNat && c.toNat ≤ 13)

def insideLookBehind {α : Type} (body : Reading α) : Reading α := do
  let outer := (← get).lookBehind
  if outer.isNone then
    modify fun state => { state with lookBehind := some state.groups.length }
  let result ← body
  if outer.isNone then
    modify fun state => { state with lookBehind := none }
  return result

mutual

/-- Reads alternatives. At the top level the switches of the whole pattern can still change; the
alternatives read come last first. -/
def alternatives (fuel : Nat) (verbose top : Bool) (done : List (List Term)) :
    Reading (List Term) :=
  match fuel with
  | 0 => return []
  | fuel + 1 => do
    let body ← sequence fuel verbose (top && done.isEmpty) []
    if ← skip '|' then
      let flags := (← get).flags
      let verbose := if top then flags.verbose else verbose
      alternatives fuel verbose top (body :: done)
    else return alternativesOf (body :: done).reverse
termination_by structural fuel

def sequence (fuel : Nat) (verbose first : Bool) (done : List Term) : Reading (List Term) :=
  match fuel with
  | 0 => return openGroups done.reverse
  | fuel + 1 => do
    let start := (← get).position
    match ← next with
    | none => return openGroups done.reverse
    | some ['|'] => return openGroups done.reverse
    | some [')'] => return openGroups done.reverse
    | some mark =>
      let _ ← take
      match mark with
      | ['\\', c] => sequence fuel verbose first ((← termEscape c) :: done)
      | [c] =>
        if verbose && isPatternBlank c then sequence fuel verbose first done
        else if verbose && c == '#' then
          skipLine ((← get).rest.length + 1)
          sequence fuel verbose first done
        else
          match c with
          | '[' => sequence fuel verbose first ((← setTerm start) :: done)
          | '.' => sequence fuel verbose first (.any :: done)
          | '^' => sequence fuel verbose first (.anchor .start :: done)
          | '$' => sequence fuel verbose first (.anchor .stop :: done)
          | '?' => rounds fuel verbose first start (0, some 1) done
          | '*' => rounds fuel verbose first start (0, none) done
          | '+' => rounds fuel verbose first start (1, none) done
          | '{' =>
            match ← bounds with
            | none => sequence fuel verbose first (.char c.toNat :: done)
            | some range => rounds fuel verbose first start range done
          | '(' => parenthesis fuel verbose first start done
          | _ => sequence fuel verbose first (.char c.toNat :: done)
      | _ => sequence fuel verbose first done
termination_by structural fuel

def rounds (fuel : Nat) (verbose first : Bool) (start : Nat) (range : Nat × Option Nat)
    (done : List Term) : Reading (List Term) :=
  match fuel with
  | 0 => return openGroups done.reverse
  | fuel + 1 => do
    let term ← repeatTerm start range done.head?
    sequence fuel verbose first (term :: done.drop 1)
termination_by structural fuel

def parenthesis (fuel : Nat) (verbose first : Bool) (start : Nat) (done : List Term) :
    Reading (List Term) :=
  match fuel with
  | 0 => return openGroups done.reverse
  | fuel + 1 => do
    match ← opening start with
    | .comment => sequence fuel verbose first done
    | .global =>
      if !first || !done.isEmpty then failAt .lateFlags start
      let flags := (← get).flags
      sequence fuel flags.verbose first done
    | .term term => sequence fuel verbose first (term :: done)
    | .look behind negated =>
      let body := alternatives fuel verbose false []
      let body ← if behind then insideLookBehind body else body
      closing start
      sequence fuel verbose first (.look behind negated body :: done)
    | .condition =>
      let group ← conditionGroup
      let yes ← sequence fuel verbose false []
      let no ← if ← skip '|' then
          let no ← sequence fuel verbose false []
          if (← next) == some ['|'] then fail .tooManyBranches 0
          pure no
        else pure []
      closing start
      sequence fuel verbose first (.condition group yes no :: done)
    | .atomic =>
      let body ← alternatives fuel verbose false []
      closing start
      sequence fuel verbose first (.atomic body :: done)
    | .holding on off =>
      let body ← alternatives fuel ((verbose || on.verbose) && !off.verbose) false []
      closing start
      sequence fuel verbose first (.group none on off body :: done)
    | .capturing name =>
      let group ← openGroup name
      let body ← alternatives fuel verbose false []
      closing start
      closeGroup group body
      sequence fuel verbose first (.group (some group) {} {} body :: done)
termination_by structural fuel

end

structure Parsed where
  terms : List Term
  flags : Flags
  groups : List (Option Width)

def missingCondition? (state : Reader) : Option (Nat × Nat) :=
  state.conditions.find? fun (group, _) => state.groups.length ≤ group

def wholePattern (size : Nat) : Reading Parsed := do
  if (← get).rest == ['\\'] then failAt .escapeAtEnd 0
  let terms ← alternatives (3 * size + 4) false true []
  let flags := (← get).flags
  if flags.ascii && flags.unicode then throw .alphabets
  if (← next).isSome then fail .unbalanced 0
  let state ← get
  match missingCondition? state with
  | some (group, position) => failAt (.invalidReference group) position
  | none => pure ()
  return ⟨terms, flags, state.groups⟩

def parse (ignoreCase : Bool) (t : Text) : Except Flaw Parsed := do
  let start : Reader :=
    { position := 0, rest := t, flags := { ignoreCase := ignoreCase }, groups := [none],
      names := [], lookBehind := none, conditions := [] }
  let (parsed, _) ← (wholePattern t.length).run start
  return parsed

end Folio.Pattern
