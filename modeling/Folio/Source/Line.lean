import Folio.Source.Refusal

/-!
# Lines of source text

What is found on a line without cutting it into tokens: its comment, the balance of its brackets, the
sign of an assignment and its indentation. Quoted text is passed over in the same way by all.
-/

namespace Folio.Source

inductive Quoting where
  | outside
  | inside (quote : Char)
  | escaped (quote : Char)
deriving DecidableEq, Repr

def Quoting.step : Quoting → Char → Quoting
  | .outside, c => if c == '\'' || c == '"' then .inside c else .outside
  | .inside quote, c =>
    if c == '\\' then .escaped quote else if c == quote then .outside else .inside quote
  | .escaped quote, _ => .inside quote

def beforeComment : Quoting → Text → Text
  | _, [] => []
  | q, c :: rest => if q == .outside && c == '#' then [] else c :: beforeComment (q.step c) rest

def stripComment (line : Text) : Text :=
  beforeComment .outside line

def isBlankLine (line : Text) : Bool :=
  Text.isBlank (stripComment line)

def bracketChange : Char → Int
  | '(' => 1
  | '[' => 1
  | ')' => -1
  | ']' => -1
  | _ => 0

def balanceFrom : Quoting → Text → Int
  | _, [] => 0
  | q, c :: rest => (if q == .outside then bracketChange c else 0) + balanceFrom (q.step c) rest

def balance (text : Text) : Int :=
  balanceFrom .outside text

def comparesBefore (c : Char) : Bool :=
  c == '=' || c == '!' || c == '<' || c == '>'

def deepen (depth : Nat) (c : Char) : Nat :=
  (depth + bracketChange c).toNat

/-- Looks for the sign of an assignment: the first `=` outside quotes and brackets that is no part
of a comparison. `i` is the position, `before` the character before it. -/
def assignmentFrom (i : Nat) (before : Option Char) (depth : Nat) : Quoting → Text → Option Nat
  | _, [] => none
  | .outside, c :: rest =>
    if c == '=' && depth == 0 && !before.any comparesBefore && rest.head? != some '=' then some i
    else assignmentFrom (i + 1) (some c) (deepen depth c) (Quoting.outside.step c) rest
  | q, c :: rest => assignmentFrom (i + 1) (some c) depth (q.step c) rest

def findAssignment (text : Text) : Option Nat :=
  assignmentFrom 0 none 0 .outside text

/-- The number of leading spaces; a tab after them is refused at its column. -/
def indentation (line : Text) : Except (Refusal × Nat) Nat :=
  let spaces := line.takeWhile (· == ' ')
  if (line.drop spaces.length).head? == some '\t' then .error (.tabIndentation, spaces.length + 1)
  else .ok spaces.length

end Folio.Source
