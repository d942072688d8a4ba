import Folio.Document
import Folio.Fault

/-!
# Pages of plain text

Plain text is cut into pages of a fixed number of lines. A page is its lines joined again, without
the blanks around them. Text without a line has one page, which is the text itself.
-/

namespace Folio

def linesPerPage : Nat := 80

def piecesOf {α : Type} (n : Nat) (items : List α) : List (List α) :=
  go items.length items
where
  go : Nat → List α → List (List α)
    | 0, _ => []
    | _ + 1, [] => []
    | fuel + 1, a :: rest => (a :: rest).take n :: go fuel ((a :: rest).drop n)

def pageOfLines (lines : List Text) : Text :=
  Text.strip (Text.joinWith ['\n'] lines)

/-- The pages of a text, `size` lines each. A size below zero leaves the text in one piece. -/
def pagesOfText (size : Int) (t : Text) : Except Failure (List Text) :=
  if t.isEmpty then .ok [[]]
  else if size == 0 then .error .pageSize
  else if size < 0 then .ok [t]
  else .ok ((piecesOf size.toNat (Text.splitLines t)).map pageOfLines)

/-- The number of checkpoints on the way to the pages of a text: one for every piece of lines. -/
def pieceCount (size : Int) (t : Text) : Nat :=
  if t.isEmpty || size ≤ 0 then 0 else (piecesOf size.toNat (Text.splitLines t)).length

def Content.bytes? : Content → Option (List UInt8)
  | .text t => some (String.ofList t).toUTF8.toList
  | .bytes raw => some raw
  | _ => none

def Content.plainText : Content → Text
  | .text t => Text.unixNewlines t
  | .bytes raw => Text.unixNewlines (Text.Utf8.decode raw)
  | _ => []

def Content.strictText : Content → Except Failure Text
  | .text t => .ok (Text.unixNewlines t)
  | .bytes raw =>
    match Text.Utf8.decodeStrict raw with
    | .ok t => .ok (Text.unixNewlines t)
    | .error flaw => .error (.decoding flaw)
  | _ => .ok []

end Folio
