import Folio.Document.Outline
import Folio.Json

/-!
# Records of the index

The index has a record for every page of every document. Records are read back from a file that
anyone may have changed, so every field of a record may be missing or of another kind.
-/

namespace Folio.Index

structure Record where
  fields : List (Text × Json)

namespace Record

def ofPage (path : Text) (name : Text) (page : Nat) (text : Text) : Record where
  fields := [("relative_path".toList, .string path), ("file_name".toList, .string name),
    ("page".toList, .int page), ("text".toList, .string text)]

def field? (key : String) (r : Record) : Option Json :=
  r.fields.lookup key.toList

def path? (r : Record) : Option Text :=
  match r.field? "relative_path" with
  | some (.string t) => some t
  | _ => none

def page? (r : Record) : Option Numeral :=
  match r.field? "page" with
  | some (.int n) => some (.number n)
  | some (.bool b) => some (.flag b)
  | _ => none

def text (r : Record) : Text :=
  match r.field? "text" with
  | some value => value.shown
  | none => []

def isTooLong (r : Record) : Bool :=
  (r.page?.map fun page => Decimal.isTooLong page.value).getD false

def searched (path text : Text) : Text :=
  "File: ".toList ++ path ++ (if text.isEmpty then [] else '\n' :: text)

def searchText (r : Record) : Text :=
  searched (r.path?.getD []) r.text

end Record

/-- Items collected by their keys, in the order in which the keys first came. -/
def collect {α : Type} (pairs : List (Text × α)) : List (Text × List α) :=
  pairs.foldl (fun groups (key, item) =>
    if groups.any (·.1 == key) then
      groups.map fun (k, items) => if k == key then (k, items ++ [item]) else (k, items)
    else groups ++ [(key, [item])]) []

/-- The pages of every document, in the order of their numbers; a page without a number counts as
zero. -/
def pagesByPath (records : List Record) : List (Text × List (Int × Text)) :=
  (collect (records.filterMap fun r =>
    r.path?.map fun path => (path, ((r.page?.map (·.value)).getD 0, r.text)))).map
    fun (path, pages) => (path, pages.mergeSort fun a b => a.1 ≤ b.1)

def positionsByPath (records : List Record) : List (Text × List (Nat × Numeral)) :=
  (collect (records.zipIdx.filterMap fun (r, i) => do
    let path ← r.path?
    let page ← r.page?
    return (path, (i, page)))).map
    fun (path, positions) => (path, positions.mergeSort fun a b => a.2.value ≤ b.2.value)

end Folio.Index
