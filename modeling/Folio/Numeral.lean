import Folio.Text.Basic

/-!
# Numerals

A whole number as it was given: a truth value may stand in its place, and is shown as what it is.
-/

namespace Folio

inductive Numeral where
  | number (n : Int)
  | flag (b : Bool)
deriving DecidableEq, Repr

namespace Numeral

def value : Numeral → Int
  | number n => n
  | flag b => if b then 1 else 0

def text : Numeral → Text
  | number n => Text.ofInt n
  | flag b => if b then "True".toList else "False".toList

end Numeral

end Folio
