import Folio.Source.Statement
import Folio.Value.Arithmetic
import Folio.Value.Call

/-!
# Evaluation

Programs are run statement by statement. What fails in a call is reported at the call, what fails
elsewhere at the innermost statement; the library's own complaints are passed on as they are.
-/

namespace Folio

open Source

/-- `patience` is the number of rounds that a loop over one list may take. -/
structure Scene where
  setting : Setting
  lines : Array Text
  patience : Nat

namespace Scene

/-- The place of a report; a line that the source does not have is shown as empty. -/
def place (sc : Scene) (loc : Option Location) : Option Place :=
  loc.map fun l =>
    ⟨l, if 1 ≤ l.line then (sc.lines[(l.line - 1).toNat]?).getD [] else []⟩

variable {α : Type}

def complain (sc : Scene) (c : Complaint) (loc : Option Location) : Run α :=
  throw (.complaint c (sc.place loc))

def reportAt (sc : Scene) (loc : Option Location) (step : Run α) : Run α :=
  tryCatch step fun
    | .failure e => sc.complain (.failed e) loc
    | fault => throw fault

/-- Reports what fails in a call at a place; arguments of the wrong type are marked as such. -/
def reportCallAt (sc : Scene) (loc : Option Location) (step : Run α) : Run α :=
  tryCatch step fun
    | .failure e => sc.complain (if e.isTypeMistake then .callFailed e else .failed e) loc
    | fault => throw fault

def lookUp (sc : Scene) (name : String) (loc : Option Location) : Run Value := do
  match (← get).valueOf? name with
  | some v => return v
  | none =>
    match Builtin.ofName? name with
    | some b => return .builtin b
    | none => sc.complain (.undefinedVariable name) loc

def getAttribute (sc : Scene) (object : Value) (name : String) (loc : Option Location) : Run Value :=
  match object.attribute? name with
  | some v => return v
  | none => sc.complain (.noAttribute object.typeName name) loc

def rangeOf (first last : Int) : List Int :=
  (List.range ((last - first).natAbs + 1)).map fun i : Nat =>
    if first ≤ last then first + i else first - i

def range (sc : Scene) (first last : Value) (loc : Option Location) : Run (List Value) :=
  match first.int?, last.int? with
  | some first, some last => return (rangeOf first last).map .int
  | _, _ => sc.complain .rangeBounds loc

def unary (sc : Scene) (op : UnaryOp) (v : Value) (loc : Option Location) : Run Value :=
  match op with
  | .not => do return .bool (!(← v.truth))
  | .negate =>
    match v.int? with
    | some n => return .int (-n)
    | none => sc.complain .negation loc
  | .other spelling => sc.complain (.unsupportedUnary spelling) loc

def binary (sc : Scene) (op : BinaryOp) (left right : Value) (loc : Option Location) :
    Run Value :=
  match op with
  | .add => left.add right
  | .subtract => left.subtract right
  | .multiply => left.multiply right
  | .divide => left.divide right
  | .remainder => left.remainder sc.setting right
  | op => sc.complain (.unsupportedBinary op.spelling) loc

def compareBySize (test : SizeTest) (left right : Value) : Run Value := do
  return .bool (← Run.ofOperand (Value.test (← get) test left right))

def compare (sc : Scene) (op : CompareOp) (left right : Value) (loc : Option Location) :
    Run Value :=
  match op with
  | .equal => do return .bool (Value.equal (← get) left right)
  | .notEqual => do return .bool (!Value.equal (← get) left right)
  | .less => compareBySize .less left right
  | .lessEqual => compareBySize .lessEqual left right
  | .greater => compareBySize .greater left right
  | .greaterEqual => compareBySize .greaterEqual left right
  | .isIn => sc.reportAt loc do
    return .bool (← Run.ofOperand (Value.isIn (← get) left right))
  | .other spelling => sc.complain (.unsupportedComparison spelling) loc

def addNamed (named : List (String × Value)) (name : String) (v : Value) :
    List (String × Value) :=
  if named.any (·.1 == name) then named.map fun (n, old) => if n == name then (n, v) else (n, old)
  else named ++ [(name, v)]

mutual

def eval (sc : Scene) : Expr → Run Value
  | .constant value _ => do
    Action.check "eval_expr"
    return .ofConstant value
  | .name identifier loc => do
    Action.check "eval_expr"
    sc.lookUp identifier loc
  | .range _ _ loc => do
    Action.check "eval_expr"
    sc.complain .strayRange loc
  | .list items _ => do
    Action.check "eval_expr"
    Run.newList (← evalItems sc items)
  | .attribute object name loc => do
    Action.check "eval_expr"
    sc.getAttribute (← eval sc object) name loc
  | .call callee args named loc => do
    Action.check "eval_expr"
    Action.check "eval_expr.call"
    let callee ← eval sc callee
    if !callee.isCallable then sc.complain .notCallable loc
    let positional ← evalArguments sc args
    let named ← evalNamed sc [] named
    sc.reportCallAt loc do
      Action.check "eval_expr.call.invoke"
      callee.call sc.setting ⟨positional, named⟩
  | .unary op operand loc => do
    Action.check "eval_expr"
    sc.unary op (← eval sc operand) loc
  | .binary .and left right _ => do
    Action.check "eval_expr"
    if ← (← eval sc left).truth then return .bool (← (← eval sc right).truth)
    return .bool false
  | .binary .or left right _ => do
    Action.check "eval_expr"
    if ← (← eval sc left).truth then return .bool true
    return .bool (← (← eval sc right).truth)
  | .binary op left right loc => do
    Action.check "eval_expr"
    let left ← eval sc left
    let right ← eval sc right
    sc.binary op left right loc
  | .compare op left right loc => do
    Action.check "eval_expr"
    let left ← eval sc left
    let right ← eval sc right
    sc.compare op left right loc
  | .misplaced loc => do
    Action.check "eval_expr"
    sc.complain .unsupportedExpression loc

def evalItems (sc : Scene) : List Expr → Run (List Value)
  | [] => return []
  | .range first last loc :: rest => do
    Action.check "eval_list_literal.item"
    let first ← eval sc first
    let last ← eval sc last
    let values ← sc.range first last loc
    return values ++ (← evalItems sc rest)
  | item :: rest => do
    Action.check "eval_list_literal.item"
    let value ← eval sc item
    return value :: (← evalItems sc rest)

def evalArguments (sc : Scene) : List Expr → Run (List Value)
  | [] => return []
  | arg :: rest => do
    Action.check "eval_expr.call.arg"
    let value ← eval sc arg
    return value :: (← evalArguments sc rest)

def evalNamed (sc : Scene) (done : List (String × Value)) :
    List (String × Expr) → Run (List (String × Value))
  | [] => return done
  | (name, arg) :: rest => do
    Action.check "eval_expr.call.kwarg"
    let value ← eval sc arg
    evalNamed sc (addNamed done name value) rest

end

def round (name : String) (body : Run Unit) (v : Value) : Run Unit := do
  Action.check "execute_statement.for_iteration"
  modify (·.assign name v)
  body

/-- The rounds of a loop over a list, from an item on. What is added to the list meanwhile is looped
over too. -/
def loopList (ref : Nat) (round : Value → Run Unit) : Nat → Nat → Run Unit
  | 0, _ => Action.giveUp
  | rounds + 1, i => do
    match (← Run.items ref)[i]? with
    | none => return ()
    | some v =>
      round v
      loopList ref round rounds (i + 1)

def loop (sc : Scene) (source : Value) (round : Value → Run Unit) (loc : Option Location) :
    Run Unit :=
  match source with
  | .text t => Action.forList (fun c => round (.text [c])) t
  | .list ref => loopList ref round sc.patience 0
  | .directory d => do
    let paths ← Run.onTree d.loopPaths
    Action.forList (fun path => do
      round (.file (← Run.onShelf (Directory.loopFile path)))) paths
  | _ => sc.complain .notIterable loc

mutual

def exec (sc : Scene) : Statement → Run Unit
  | .assign name value loc => do
    Action.check "execute_statement"
    sc.reportAt loc do
      let v ← sc.eval value
      modify (·.assign name v)
  | .expr value loc => do
    Action.check "execute_statement"
    sc.reportAt loc do
      let _ ← sc.eval value
  | .forEach name source body loc => do
    Action.check "execute_statement"
    sc.reportAt loc do
      let source ← sc.eval source
      sc.loop source (round name (execAll sc body)) loc
  | .choose branches otherwise loc => do
    Action.check "execute_statement"
    sc.reportAt loc <| execBranches sc branches <|
      match otherwise with
      | some body => execAll sc body
      | none => pure ()
  | .misplaced loc => do
    Action.check "execute_statement"
    sc.complain .unsupportedStatement loc

def execAll (sc : Scene) : List Statement → Run Unit
  | [] => return ()
  | statement :: rest => do
    exec sc statement
    execAll sc rest

def execBranches (sc : Scene) : List (Expr × List Statement) → Run Unit → Run Unit
  | [], otherwise => otherwise
  | (condition, body) :: rest, otherwise => do
    if ← (← sc.eval condition).truth then execAll sc body
    else execBranches sc rest otherwise

end

def execProgram (sc : Scene) : Program → Run Unit
  | [] => return ()
  | statement :: rest => do
    Action.check "execute_program"
    exec sc statement
    execProgram sc rest

end Scene

end Folio
