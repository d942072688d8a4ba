import Folio.Text.Basic

/-!
# Search patterns

The terms of a search pattern: characters and sets of characters, places, groups, alternatives,
repetitions and looks ahead or behind.
-/

namespace Folio.Pattern

structure Flags where
  ignoreCase : Bool := false
  multiline : Bool := false
  dotAll : Bool := false
  verbose : Bool := false
  ascii : Bool := false
  unicode : Bool := false
  /-- Repetitions are refused. -/
  plain : Bool := false
deriving DecidableEq, Repr

namespace Flags

def union (f g : Flags) : Flags where
  ignoreCase := f.ignoreCase || g.ignoreCase
  multiline := f.multiline || g.multiline
  dotAll := f.dotAll || g.dotAll
  verbose := f.verbose || g.verbose
  ascii := f.ascii || g.ascii
  unicode := f.unicode || g.unicode
  plain := f.plain || g.plain

def inter (f g : Flags) : Flags where
  ignoreCase := f.ignoreCase && g.ignoreCase
  multiline := f.multiline && g.multiline
  dotAll := f.dotAll && g.dotAll
  verbose := f.verbose && g.verbose
  ascii := f.ascii && g.ascii
  unicode := f.unicode && g.unicode
  plain := f.plain && g.plain

def diff (f g : Flags) : Flags where
  ignoreCase := f.ignoreCase && !g.ignoreCase
  multiline := f.multiline && !g.multiline
  dotAll := f.dotAll && !g.dotAll
  verbose := f.verbose && !g.verbose
  ascii := f.ascii && !g.ascii
  unicode := f.unicode && !g.unicode
  plain := f.plain && !g.plain

def isEmpty (f : Flags) : Bool :=
  f == {}

def choosesAlphabet (f : Flags) : Bool :=
  f.ascii || f.unicode

/-- The switches inside a group that turns some on and some off. The alphabet is chosen anew. -/
def inside (f on off : Flags) : Flags :=
  let f := if on.choosesAlphabet then { f with ascii := false, unicode := false } else f
  (f.union on).diff off

def ofLetter? : Char → Option Flags
  | 'i' => some { ignoreCase := true }
  | 'm' => some { multiline := true }
  | 's' => some { dotAll := true }
  | 'x' => some { verbose := true }
  | 'a' => some { ascii := true }
  | 'u' => some { unicode := true }
  | 't' => some { plain := true }
  | _ => none

end Flags

inductive Kind where
  | digit
  | space
  | word
deriving DecidableEq, Repr

inductive Member where
  | char (code : Nat)
  | range (first last : Nat)
  | kind (kind : Kind) (negated : Bool)
deriving DecidableEq, Repr

inductive Anchor where
  | textStart
  | start
  | stop
  | textStop
  | boundary
  | inside
deriving DecidableEq, Repr

inductive Greed where
  | greedy
  | reluctant
  | possessive
deriving DecidableEq, Repr

/-- A part of a pattern. A repetition without an upper end has `none` for it. -/
inductive Term where
  | char (code : Nat)
  | otherThan (code : Nat)
  | any
  | set (negated : Bool) (members : List Member)
  | anchor (place : Anchor)
  | group (index : Option Nat) (on off : Flags) (body : List Term)
  | atomic (body : List Term)
  | look (behind negated : Bool) (body : List Term)
  | branch (alternatives : List (List Term))
  | reference (group : Nat)
  | condition (group : Nat) (yes no : List Term)
  | repeated (greed : Greed) (least : Nat) (most : Option Nat) (body : List Term)
deriving Repr

/-- The least and the most number of characters that a term takes. -/
structure Width where
  least : Nat
  most : Nat
deriving DecidableEq, Repr

namespace Width

def limit : Nat := Nat.pow 2 64

def zero : Width := ⟨0, 0⟩

def one : Width := ⟨1, 1⟩

def add (a b : Width) : Width :=
  ⟨min (a.least + b.least) limit, min (a.most + b.most) limit⟩

def either (a b : Width) : Width :=
  ⟨min a.least b.least, max a.most b.most⟩

def times (w : Width) (least : Nat) (most : Option Nat) : Width where
  least := min (w.least * least) limit
  most := match most with
    | some n => min (w.most * n) limit
    | none => if w.most == 0 then 0 else limit

end Width

mutual

def Term.width (groups : List (Option Width)) : Term → Width
  | .char _ => Width.one
  | .otherThan _ => Width.one
  | .any => Width.one
  | .set _ _ => Width.one
  | .anchor _ => Width.zero
  | .group _ _ _ body => widthAll groups body
  | .atomic body => widthAll groups body
  | .look _ _ _ => Width.zero
  | .branch alternatives => widthAny groups alternatives
  | .reference group => ((groups[group]?).bind id).getD Width.zero
  | .condition _ yes no => (widthAll groups yes).either (widthAll groups no)
  | .repeated _ least most body => (widthAll groups body).times least most

def widthAll (groups : List (Option Width)) : List Term → Width
  | [] => Width.zero
  | term :: rest => (term.width groups).add (widthAll groups rest)

def widthAny (groups : List (Option Width)) : List (List Term) → Width
  | [] => ⟨Width.limit, 0⟩
  | body :: rest => (widthAll groups body).either (widthAny groups rest)

end

def openGroups (terms : List Term) : List Term :=
  terms.flatMap fun term =>
    match term with
    | .group none on off body => if on.isEmpty && off.isEmpty then body else [term]
    | _ => [term]

def Term.sameUnit : Term → Term → Bool
  | .char a, .char b => a == b
  | .otherThan a, .otherThan b => a == b
  | .any, .any => true
  | .set n a, .set m b => n == m && a == b
  | .anchor a, .anchor b => a == b
  | .reference a, .reference b => a == b
  | _, _ => false

def sharedHead? : List (List Term) → Option Term
  | [] => none
  | [] :: _ => none
  | (head :: _) :: rest =>
    if rest.all fun body => (body.head?.map head.sameUnit).getD false then some head else none

def splitShared : Nat → List (List Term) → List Term × List (List Term)
  | 0, alternatives => ([], alternatives)
  | fuel + 1, alternatives =>
    match sharedHead? alternatives with
    | none => ([], alternatives)
    | some head =>
      let (shared, rest) := splitShared fuel (alternatives.map (·.drop 1))
      (head :: shared, rest)

def membersOf? : List Term → Option (List Member)
  | [.char code] => some [.char code]
  | [.set false members] => some members
  | _ => none

/-- Alternatives as terms: what they share comes first, and single characters become a set. -/
def alternativesOf (alternatives : List (List Term)) : List Term :=
  match alternatives with
  | [body] => body
  | _ =>
    let (shared, rest) := splitShared (alternatives.flatten.length + 1) alternatives
    match rest.mapM membersOf? with
    | some members => shared ++ [.set false members.flatten.eraseDups]
    | none => shared ++ [.branch rest]

end Folio.Pattern
