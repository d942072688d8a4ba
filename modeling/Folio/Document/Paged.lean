import Folio.Document.Outline
import Folio.Document.Plain
import Folio.Json.Parser

/-!
# Paged documents

A paged document is stored as an object with the texts of its pages and the entries of its outline.
An entry is a list of a level, a title and a page; lists of another shape are passed over.
-/

namespace Folio

structure Paged where
  pages : List Text
  outline : List Json

namespace Paged

def textOf : Json → Text
  | .string t => t
  | other => other.shown

def entryOf : Json → Except Failure (List Json)
  | .array items => .ok items
  | .string t => .ok (t.map fun c => .string [c])
  | .object fields => .ok (fields.map fun field => .string field.1)
  | other => .error (.argument (.notIterable other.typeName))

def itemsOf : Option Json → List Json
  | some (.array items) => items
  | _ => []

def parse (t : Text) : Except Failure Paged :=
  match Json.parse t with
  | .error e => .error (.json t e)
  | .ok value =>
    .ok ⟨(itemsOf (value.field? "pages")).map textOf, itemsOf (value.field? "toc")⟩

def entries (document : Paged) : Except Failure (List (List Json)) :=
  document.outline.mapM entryOf

def shownPages (document : Paged) : List Text :=
  if document.pages.isEmpty then [[]] else document.pages.map Text.strip

/-- The level that a value gives, if it is a whole number or a truth value; at least one. -/
def levelOf? : Json → Option Nat
  | .int n => some (max 1 n.toNat)
  | .bool _ => some 1
  | _ => none

def pageOf : Json → Except Failure (Option Numeral)
  | .int n => .ok (if 1 ≤ n then some (.number n) else none)
  | .bool b => .ok (if b then some (.flag b) else none)
  | .float x =>
    match wholePart x with
    | .ok n => .ok (if 1 ≤ n then some (.number n) else none)
    | .error e => .error (.operand e)
  | _ => .ok none

def headingOf : List Json → Except Failure (Option Heading)
  | level :: title :: page :: _ =>
    match levelOf? level with
    | none => .ok none
    | some level =>
      let title := Text.strip title.shown
      if title.isEmpty then .ok none
      else do return some ⟨level, title, ← pageOf page⟩
  | _ => .ok none

end Paged

end Folio
