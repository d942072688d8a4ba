import Folio.Document.Word

/-!
# Slide decks

A deck is read slide by slide: the lines of its shapes and, for reading, of its notes. The title of a
slide is its title shape, or else the first line of its first shape with text.
-/

namespace Folio

def shownLines (t : Text) : List Text :=
  (Text.splitLines t).filterMap nonBlank?

namespace Slide

def shapeLines (slide : Slide) : List Text :=
  slide.allShapes.flatMap fun shape =>
    match shape with
    | some text => shownLines text
    | none => []

def noteLines (slide : Slide) : List Text :=
  match slide.notes.bind nonBlank? with
  | some text => Text.splitLines text
  | none => []

def page (number : Nat) (slide : Slide) : Text :=
  let notes := slide.noteLines
  let lines := slide.shapeLines
    ++ (if notes.isEmpty then [] else "[Notes]".toList :: notes.filterMap nonBlank?)
  if lines.isEmpty then "[Slide ".toList ++ Text.ofNat number ++ [']']
  else Text.joinWith ['\n'] lines

def shapeText (slide : Slide) : Text :=
  Text.strip (Text.joinWith ['\n'] slide.shapeLines)

def ownTitle? (slide : Slide) : Option Text :=
  slide.title.bind nonBlank?

def shapesToText (slide : Slide) : Nat :=
  let blank := slide.allShapes.takeWhile fun shape => (shape.bind nonBlank?).isNone
  min (blank.length + 1) slide.allShapes.length

def firstLine? (slide : Slide) : Option Text :=
  match slide.allShapes.findSome? (·.bind nonBlank?) with
  | some text => (Text.splitLines text).head?.bind nonBlank?
  | none => none

def heading (number : Nat) (slide : Slide) : Heading :=
  let title := (slide.ownTitle?.or slide.firstLine?).getD ("Slide ".toList ++ Text.ofNat number)
  ⟨1, title, some (.number number)⟩

def runs (slide : Slide) : List Text :=
  slide.allShapes.flatMap fun shape =>
    match shape with
    | some text => (Text.splitAll '\n' text).filter (!·.isEmpty)
    | none => []

end Slide

def slideMember (number : Nat) : Text :=
  "ppt/slides/slide".toList ++ Text.ofNat number ++ ".xml".toList

def isSlideMember (name : Text) : Bool :=
  "ppt/slides/slide".toList.isPrefixOf name && ".xml".toList.isSuffixOf name

def sortMembers {α : Type} (members : List (Text × α)) : List (Text × α) :=
  members.mergeSort fun a b => !(b.1 < a.1)

/-- The runs of each slide, in the order of the names of the members; a slide whose markup is not
well formed has none. -/
def Content.slideRuns? : Content → Option (List (Option (List Text)))
  | .slides deck =>
    let members := deck.zipIdx.map fun (slide, i) => (slideMember (i + 1), slide.runs)
    some ((sortMembers members).map fun (_, runs) => some runs)
  | .word _ => some []
  | content => do
    let members ← content.members?
    let slides := sortMembers (members.filter fun (name, _) => isSlideMember name)
    return slides.map fun (_, markup) => (Xml.parse? markup).map (·.textsBelow textElement)

def Content.slidesProblem? (path : Text) (content : Content) : Option Text :=
  match content with
  | .slides _ => none
  | .word _ =>
    some ("file ".toList ++ Text.quoted path ++ (" is not a PowerPoint file, content type is "
      ++ "'application/vnd.openxmlformats-officedocument.wordprocessingml.document.main+xml'"
      ).toList)
  | _ =>
    if content.members?.isSome then
      some "\"no member '/[Content_Types].xml' in package\"".toList
    else some ("Package not found at '".toList ++ path ++ ['\''])

end Folio
