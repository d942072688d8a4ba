import Folio.Source.Expr.Parser
import Folio.Source.Line
import Folio.Source.Statement

/-!
# Reading programs

Statements are read line by line, and blocks by their indentation. An expression that leaves a
bracket open goes on in the lines after it. A header keeps its expression on its own line.
-/

namespace Folio.Source

structure Line where
  number : Nat
  text : Text

def linesOf (source : Text) : List Line :=
  (Text.splitLines source).zipIdx.map fun (text, i) => ⟨i + 1, text⟩

def Line.refuse {α : Type} (line : Line) (reason : Refusal) (column : Nat) :
    Except SourceError α :=
  .error (.refused reason ⟨line.number, column⟩ line.text)

def Line.indent (line : Line) : Except SourceError Nat :=
  match indentation line.text with
  | .ok n => .ok n
  | .error (reason, column) => line.refuse reason column

def Line.content (line : Line) (indent : Nat) : Text :=
  (Text.stripEnd Text.isSpace (stripComment line.text)).drop indent

def Line.parseExpr (line : Line) (text : Text) (column : Nat) : Except SourceError Expr :=
  match Source.parseExpr ⟨line.number, column⟩ text with
  | .ok e => .ok e
  | .error flaw => .error (flaw.locate ⟨line.number, column⟩ line.text)

def columnOf (indent : Nat) (content part : Text) : Nat :=
  indent + (Text.find? part content).getD 0 + 1

def isIdentifier : Text → Bool
  | [] => false
  | c :: rest =>
    (c.isAlpha || c == '_') && rest.all fun c => c.isAlpha || c.isDigit || c == '_'

/-- Adds the lines after an expression to it until its brackets are closed. -/
def continued (start : Line) : Text → Int → List Line → Except SourceError (Text × List Line)
  | text, open_, lines =>
    if open_ ≤ 0 then .ok (text, lines)
    else
      match lines with
      | [] => start.refuse .unterminatedExpression 1
      | line :: rest =>
        let more := Text.strip (stripComment line.text)
        continued start (text ++ '\n' :: more) (open_ + balance more) rest

def collect (start : Line) (text : Text) (rest : List Line) :
    Except SourceError (Text × List Line) :=
  continued start text (balance text) rest

/-- What stands between a header's keyword and its colon, if both are there with a blank and
something more between them. -/
def headerBody? : Text → Option Text
  | [] => none
  | c :: rest =>
    if Text.isSpace c && rest.length ≥ 2 && rest.getLast? == some ':' then
      some (Text.strip rest.dropLast)
    else none

def ifCondition? (content : Text) : Option Text :=
  headerBody? (content.drop 2)

def elifCondition? (content : Text) : Option Text :=
  headerBody? (content.drop 4)

def forParts? (content : Text) : Option (Text × Text) :=
  let afterFor := (content.drop 3).dropWhile Text.isSpace
  let name := afterFor.takeWhile fun c => c.isAlpha || c.isDigit || c == '_'
  match (afterFor.drop name.length).span Text.isSpace with
  | (_ :: _, 'i' :: 'n' :: rest) =>
    if isIdentifier name then (headerBody? rest).map (name, ·) else none
  | _ => none

def skipBlank (lines : List Line) : List Line :=
  lines.dropWhile fun line => isBlankLine line.text

def parseSimple (line : Line) (indent : Nat) (content : Text) (rest : List Line) :
    Except SourceError (Statement × List Line) :=
  let loc : Location := ⟨line.number, indent + 1⟩
  match findAssignment content with
  | some i => do
    let target := Text.strip (content.take i)
    let value := Text.strip (content.drop (i + 1))
    if !isIdentifier target then line.refuse .assignmentTarget (indent + 1)
    else if value.isEmpty then line.refuse .assignmentValue (indent + i + 2)
    else
      let (text, rest) ← collect line value rest
      let e ← line.parseExpr text (columnOf indent content value)
      return (.assign (String.ofList target) e (some loc), rest)
  | none => do
    let (text, rest) ← collect line content rest
    let e ← line.parseExpr text (indent + 1)
    return (.expr e (some loc), rest)

mutual

def parseBlock (indent : Nat) : Nat → List Line → Except SourceError (List Statement × List Line)
  | 0, lines => .ok ([], lines)
  | _ + 1, [] => .ok ([], [])
  | fuel + 1, line :: rest =>
    if isBlankLine line.text then parseBlock indent fuel rest
    else do
      let found ← line.indent
      if found < indent then return ([], line :: rest)
      else if indent < found then line.refuse .unexpectedIndentation (found + 1)
      else
        let (statement, rest) ← parseStatement fuel line found rest
        let (statements, rest) ← parseBlock indent fuel rest
        return (statement :: statements, rest)
termination_by structural fuel => fuel

def parseStatement : Nat → Line → Nat → List Line → Except SourceError (Statement × List Line)
  | 0, line, indent, _ => line.refuse .expectedBlock (indent + 1)
  | fuel + 1, line, indent, rest =>
    let content := line.content indent
    let loc : Location := ⟨line.number, indent + 1⟩
    if "for ".toList.isPrefixOf content then
      match forParts? content with
      | none => line.refuse .forHeader (indent + 1)
      | some (name, source) => do
        let e ← line.parseExpr source (columnOf indent content source)
        let (body, rest) ← parseChild fuel line indent rest
        return (.forEach (String.ofList name) e body (some loc), rest)
    else if "if ".toList.isPrefixOf content then
      match ifCondition? content with
      | none => line.refuse .ifHeader (indent + 1)
      | some condition => do
        let e ← line.parseExpr condition (columnOf indent content condition)
        let (body, rest) ← parseChild fuel line indent rest
        let (branches, otherwise, rest) ← parseBranches indent fuel none rest
        return (.choose ((e, body) :: branches) otherwise (some loc), rest)
    else if "elif ".toList.isPrefixOf content then line.refuse .elifWithoutIf (indent + 1)
    else if content == "else:".toList then line.refuse .elseWithoutIf (indent + 1)
    else parseSimple line indent content rest
termination_by structural fuel => fuel

def parseChild : Nat → Line → Nat → List Line → Except SourceError (List Statement × List Line)
  | 0, header, indent, _ => header.refuse .expectedBlock (indent + 1)
  | fuel + 1, header, indent, lines =>
    match skipBlank lines with
    | [] => header.refuse .expectedBlock (indent + 1)
    | line :: rest => do
      let found ← line.indent
      if found ≤ indent then line.refuse .expectedBlock (found + 1)
      else parseBlock found fuel (line :: rest)
termination_by structural fuel => fuel

/-- Reads the `elif` and `else` parts that stand at an indentation; `otherwise` is the `else` block
that has been read. -/
def parseBranches (indent : Nat) : Nat → Option (List Statement) → List Line →
    Except SourceError (List (Expr × List Statement) × Option (List Statement) × List Line)
  | 0, otherwise, lines => .ok ([], otherwise, lines)
  | fuel + 1, otherwise, lines =>
    match skipBlank lines with
    | [] => .ok ([], otherwise, [])
    | line :: rest => do
      let found ← line.indent
      let content := line.content found
      if found != indent then return ([], otherwise, line :: rest)
      else if "elif ".toList.isPrefixOf content then
        if otherwise.isSome then line.refuse .elifAfterElse (found + 1)
        else
          match elifCondition? content with
          | none => line.refuse .elifHeader (found + 1)
          | some condition => do
            let e ← line.parseExpr condition (columnOf found content condition)
            let (body, rest) ← parseChild fuel line found rest
            let (branches, otherwise, rest) ← parseBranches indent fuel otherwise rest
            return ((e, body) :: branches, otherwise, rest)
      else if content == "else:".toList then
        if otherwise.isSome then line.refuse .secondElse (found + 1)
        else do
          let (body, rest) ← parseChild fuel line found rest
          parseBranches indent fuel (some body) rest
      else return ([], otherwise, line :: rest)
termination_by structural fuel => fuel

end

/-- Reads a program. Every line takes at most four steps, which bounds the fuel. -/
def parseProgram (source : Text) : Except SourceError Program :=
  let lines := linesOf source
  (parseBlock 0 (4 * lines.length + 4) lines).map (·.1)

end Folio.Source
