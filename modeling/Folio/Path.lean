import Folio.Text.Case
import Folio.Text.Quoted

/-!
# Paths

Empty parts and single dots are dropped when a path is read; parts `..` are kept, since what they
mean depends on links. The library holds absolute paths; a written path may also be relative.
-/

namespace Folio

abbrev Name := String

structure WrittenPath where
  absolute : Bool
  parts : List Name
deriving DecidableEq, Repr

structure Path where
  parts : List Name
deriving DecidableEq, Repr

namespace WrittenPath

def ofText (t : Text) : WrittenPath where
  absolute := t.head? == some '/'
  parts := ((Text.splitAll '/' t).filter fun part => !part.isEmpty && part != ['.']).map
    String.ofList

def text (p : WrittenPath) : Text :=
  let body := Text.joinWith ['/'] (p.parts.map String.toList)
  if p.absolute then '/' :: body else if p.parts.isEmpty then ['.'] else body

def parent (p : WrittenPath) : WrittenPath :=
  { p with parts := p.parts.dropLast }

end WrittenPath

namespace Path

def root : Path := ⟨[]⟩

def text (p : Path) : Text :=
  WrittenPath.text ⟨true, p.parts⟩

def join (p : Path) (q : WrittenPath) : Path :=
  if q.absolute then ⟨q.parts⟩ else ⟨p.parts ++ q.parts⟩

def child (p : Path) (name : Name) : Path :=
  ⟨p.parts ++ [name]⟩

def parent (p : Path) : Path :=
  ⟨p.parts.dropLast⟩

def ancestors (p : Path) : List Path :=
  (List.range p.parts.length).map fun i => ⟨p.parts.take (p.parts.length - 1 - i)⟩

def isWithin (p base : Path) : Bool :=
  base.parts.isPrefixOf p.parts

def relativeTo? (p base : Path) : Option WrittenPath :=
  if p.isWithin base then some ⟨false, p.parts.drop base.parts.length⟩ else none

def inside (p folder : Path) : Text :=
  WrittenPath.text ⟨false, p.parts.drop folder.parts.length⟩

def name (p : Path) : Name :=
  p.parts.getLast?.getD ""

/-- Where the ending of a name starts: at its last dot, unless that is its first or last
character. -/
def endingStart? (name : Text) : Option Nat :=
  let ending := name.reverse.takeWhile (· != '.')
  let start := name.length - ending.length - 1
  if ending.isEmpty || start == 0 || ending.length == name.length then none else some start

def ending (p : Path) : Text :=
  let name := p.name.toList
  match endingStart? name with
  | some i => name.drop i
  | none => []

def stem (p : Path) : Text :=
  let name := p.name.toList
  match endingStart? name with
  | some i => name.take i
  | none => name

def seenFrom (p base : Path) : WrittenPath :=
  let shared := sharedLength p.parts base.parts
  ⟨false, List.replicate (base.parts.length - shared) ".." ++ p.parts.drop shared⟩
where
  sharedLength : List Name → List Name → Nat
    | a :: as, b :: bs => if a == b then sharedLength as bs + 1 else 0
    | _, _ => 0

def le (p q : Path) : Bool :=
  !(q.text < p.text)

def sort (paths : List Path) : List Path :=
  paths.mergeSort le

def sortDistinct (paths : List Path) : List Path :=
  sort paths.eraseDups

end Path

end Folio
