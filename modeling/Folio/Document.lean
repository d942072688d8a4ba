import Folio.Text.Basic

/-!
# Documents

Word-processor documents made of paragraphs and tables, slide decks, and packed archives.
-/

namespace Folio

inductive Block where
  | paragraph (style : Text) (text : Text)
  | table (rows : List (List Text))
deriving DecidableEq, Repr

/-- A slide: its title, its other shapes in order, of which some have no text, and its notes. -/
structure Slide where
  title : Option Text
  shapes : List (Option Text)
  notes : Option Text
deriving DecidableEq, Repr

def Slide.allShapes (slide : Slide) : List (Option Text) :=
  match slide.title with
  | some title => some title :: slide.shapes
  | none => slide.shapes

inductive Content where
  | text (t : Text)
  | bytes (bytes : List UInt8)
  | word (blocks : List Block)
  | slides (slides : List Slide)
  | archive (members : List (Text × Text))
deriving DecidableEq, Repr

end Folio
