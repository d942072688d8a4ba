import Folio.Source.Expr

/-!
# Statements

A program is a list of statements. As with expressions, a tree put together by hand may hold nodes
that are no statements.
-/

namespace Folio.Source

inductive Statement where
  | assign (name : String) (value : Expr) (loc : Option Location)
  | expr (value : Expr) (loc : Option Location)
  | forEach (name : String) (source : Expr) (body : List Statement) (loc : Option Location)
  | choose (branches : List (Expr × List Statement)) (otherwise : Option (List Statement))
      (loc : Option Location)
  | misplaced (loc : Option Location)

def Statement.loc : Statement → Option Location
  | .assign _ _ loc => loc
  | .expr _ loc => loc
  | .forEach _ _ _ loc => loc
  | .choose _ _ loc => loc
  | .misplaced loc => loc

abbrev Program := List Statement

end Folio.Source
