import Folio.Text.Basic

/-!
# Places in the source

A place is a line and a column, both counted from one. A report shows a message with the line of the
source and a pointer below it.
-/

namespace Folio.Source

/-- A place in the source. Trees that were not read from source text may hold any numbers. -/
structure Location where
  line : Int
  column : Int
deriving DecidableEq, Repr

def Location.shift (l : Location) (offset : Nat) : Location :=
  { l with column := l.column + offset }

structure Report where
  message : Text
  line : Option Int
  column : Option Int
  sourceLine : Option Text
deriving DecidableEq, Repr

def pointer (column : Int) : Text :=
  List.replicate (column - 1).toNat ' ' ++ ['^']

/-- The report under a heading. Without a full place only the message is shown. -/
def Report.format (label : String) (r : Report) : Text :=
  let head := label.toList ++ ": ".toList ++ r.message
  match r.line, r.column, r.sourceLine with
  | some line, some column, some sourceLine =>
    head ++ "\n  at line ".toList ++ Text.ofInt line ++ ", column ".toList ++ Text.ofInt column
      ++ "\n    ".toList ++ sourceLine ++ "\n    ".toList ++ pointer column
  | _, _, _ => head

end Folio.Source
