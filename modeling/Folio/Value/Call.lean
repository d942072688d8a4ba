import Folio.Value.HandleMethods
import Folio.Value.ListMethods
import Folio.Value.TextMethods

/-!
# Calls

Calling the built-in functions and the methods of values.
-/

namespace Folio

namespace Builtin

def openDirectory (s : Setting) (args : Arguments) : Run Value := do
  let b ← Run.ofArgument (args.bind "Interpreter._builtin_directory"
    [required "path", optional "recursive" (.bool true)])
  match b.value "path" with
  | .text path =>
    let found ← Run.onTree (s.locate path)
    match b.value "recursive" with
    | .bool recursive => return .directory (← Run.onShelf (s.openDirectoryAt found recursive))
    | _ => Run.complain .directoryRecursive
  | _ => Run.complain (.pathNotText Builtin.directory.name)

def openFile (s : Setting) (args : Arguments) : Run Value := do
  let b ← Run.ofArgument (args.bind "Interpreter._builtin_file" [required "path"])
  match b.value "path" with
  | .text path => return .file (← Run.onShelf (s.openFile path))
  | _ => Run.complain (.pathNotText Builtin.file.name)

/-- Prints values with blanks between them. What stands before a value that cannot be shown is
printed. -/
def printAll (s : Setting) : List Value → Run Unit
  | [] => Action.print ['\n']
  | v :: rest => do
    Action.print (← Run.ofFailure (v.shown s (← get)))
    if !rest.isEmpty then Action.print [' ']
    printAll s rest

def callPrint (s : Setting) (args : Arguments) : Run Value := do
  Run.ofArgument (Arguments.checkNames "Interpreter._builtin_print" ["self"] [] args.named)
  printAll s args.positional
  return .nothing

def callLength (args : Arguments) : Run Value := do
  match ← Run.ofArgument (args.takeOne "len") with
  | .text t => return .int t.length
  | .list ref => return .int (← Run.items ref).size
  | .directory d => return .int (← Run.onTree d.size)
  | v => Run.fail (.argument (.noLength v.typeName))

def call (s : Setting) (b : Builtin) (args : Arguments) : Run Value :=
  match b with
  | .directory => openDirectory s args
  | .file => openFile s args
  | .print => callPrint s args
  | .length => callLength args

end Builtin

namespace Value

def callWith (s : Setting) (callKey : Value → Value → Run Value) (args : Arguments) :
    Value → Run Value
  | .builtin b => b.call s args
  | .textMethod t m => m.call t args
  | .listMethod ref m => m.call s callKey ref args
  | .fileMethod f m => m.call s f args
  | .directoryMethod d m => m.call s d args
  | v => Run.fail (.argument (.notCallable v.typeName))

/-- The key of an item. A key is found by a call with one argument by position, which is never a
sort. -/
def callKey (s : Setting) (key item : Value) : Run Value :=
  key.callWith s (fun _ _ => Action.giveUp) ⟨[item], []⟩

def call (s : Setting) (callee : Value) (args : Arguments) : Run Value :=
  callee.callWith s (callKey s) args

end Value

end Folio
