import Folio.Source.Location

/-!
# Expressions

Every node has the place of the token it is named for, or none in a tree that was put together by
hand; such a tree may also hold operators the language does not have, ranges outside lists, and nodes
that are no expressions.
-/

namespace Folio.Source

inductive UnaryOp where
  | not
  | negate
  | other (spelling : Text)
deriving DecidableEq, Repr

inductive BinaryOp where
  | and
  | or
  | add
  | subtract
  | multiply
  | divide
  | remainder
  | other (spelling : Text)
deriving DecidableEq, Repr

inductive CompareOp where
  | equal
  | notEqual
  | less
  | lessEqual
  | greater
  | greaterEqual
  | isIn
  | other (spelling : Text)
deriving DecidableEq, Repr

inductive Constant where
  | none
  | bool (b : Bool)
  | int (n : Int)
  | float (x : Float)
  | text (t : Text)

inductive Expr where
  | constant (value : Constant) (loc : Option Location)
  | name (identifier : String) (loc : Option Location)
  | range (first last : Expr) (loc : Option Location)
  | list (items : List Expr) (loc : Option Location)
  | attribute (object : Expr) (name : String) (loc : Option Location)
  | call (callee : Expr) (args : List Expr) (named : List (String × Expr)) (loc : Option Location)
  | unary (op : UnaryOp) (operand : Expr) (loc : Option Location)
  | binary (op : BinaryOp) (left right : Expr) (loc : Option Location)
  | compare (op : CompareOp) (left right : Expr) (loc : Option Location)
  | misplaced (loc : Option Location)

def Expr.loc : Expr → Option Location
  | .constant _ loc => loc
  | .name _ loc => loc
  | .range _ _ loc => loc
  | .list _ loc => loc
  | .attribute _ _ loc => loc
  | .call _ _ _ loc => loc
  | .unary _ _ loc => loc
  | .binary _ _ _ loc => loc
  | .compare _ _ _ loc => loc
  | .misplaced loc => loc

def UnaryOp.spelling : UnaryOp → Text
  | .not => "not".toList
  | .negate => ['-']
  | .other spelling => spelling

def UnaryOp.ofSpelling (spelling : Text) : UnaryOp :=
  match String.ofList spelling with
  | "not" => .not
  | "-" => .negate
  | _ => .other spelling

def BinaryOp.spelling : BinaryOp → Text
  | .and => "and".toList
  | .or => "or".toList
  | .add => ['+']
  | .subtract => ['-']
  | .multiply => ['*']
  | .divide => ['/']
  | .remainder => ['%']
  | .other spelling => spelling

def BinaryOp.ofSpelling (spelling : Text) : BinaryOp :=
  match String.ofList spelling with
  | "and" => .and
  | "or" => .or
  | "+" => .add
  | "-" => .subtract
  | "*" => .multiply
  | "/" => .divide
  | "%" => .remainder
  | _ => .other spelling

def CompareOp.spelling : CompareOp → Text
  | .equal => ['=', '=']
  | .notEqual => ['!', '=']
  | .less => ['<']
  | .lessEqual => ['<', '=']
  | .greater => ['>']
  | .greaterEqual => ['>', '=']
  | .isIn => ['i', 'n']
  | .other spelling => spelling

def CompareOp.ofSpelling (spelling : Text) : CompareOp :=
  match String.ofList spelling with
  | "==" => .equal
  | "!=" => .notEqual
  | "<" => .less
  | "<=" => .lessEqual
  | ">" => .greater
  | ">=" => .greaterEqual
  | "in" => .isIn
  | _ => .other spelling

end Folio.Source
