import Folio.Command.Options
import Folio.Index.Prepare
import Folio.Program

/-!
# The command

The command runs a script, or makes the index of a folder if its first word says so.
-/

namespace Folio.Command

structure Exit where
  code : Nat
  stderr : Text
deriving DecidableEq, Repr

def commandName : Text := "fdsl".toList

def helpSwitch : Switch := ⟨["-h".toList, "--help".toList], false⟩

def sandboxSwitch : Switch := ⟨["--sandbox-root".toList], true⟩

def lines (ls : List String) : Text :=
  ls.flatMap fun l => l.toList ++ ['\n']

def runGrammar : Grammar where
  usage := lines ["usage: fdsl [-h] [--sandbox-root SANDBOX_ROOT] script"]
  help := lines
    ["",
     "Run FilesDSL scripts.",
     "",
     "positional arguments:",
     "  script                Path to the .fdsl script",
     "",
     "options:",
     "  -h, --help            show this help message and exit",
     "  --sandbox-root SANDBOX_ROOT",
     "                        Optional path limit. Defaults to the script directory."]
  helpSwitch := helpSwitch
  switches := [sandboxSwitch]
  argument := "script".toList

def prepareGrammar : Grammar where
  usage := lines ["usage: fdsl [-h] folder"]
  help := lines
    ["",
     "Prepare semantic index for a folder.",
     "",
     "positional arguments:",
     "  folder      Folder to index recursively",
     "",
     "options:",
     "  -h, --help  show this help message and exit"]
  helpSwitch := helpSwitch
  switches := []
  argument := "folder".toList

def withParsed (g : Grammar) (argv : List Text) (act : Parsed → Run Exit) : Run Exit :=
  match g.parse argv with
  | .ok parsed => act parsed
  | .error .help => do
    Action.print (g.usage ++ g.help)
    return ⟨0, []⟩
  | .error (.refused message) =>
    return ⟨2, g.usage ++ commandName ++ ": error: ".toList ++ message ++ ['\n']⟩

def reporting (step : Run Exit) : Run Exit :=
  tryCatch step fun
    | .failure e => throw (.failure e)
    | fault => return ⟨1, fault.text ++ ['\n']⟩

def badScript (cwd path : Path) (problem : String) : Run Exit := do
  let shown ← Run.onTree (TreeAction.shown cwd path)
  return ⟨2, "Error: script ".toList ++ problem.toList ++ ": ".toList ++ shown ++ ['\n']⟩

/-- The sandbox that a command line asks for; it is the current directory if it is left empty. -/
def sandboxPath (cwd : Path) (values : List (Switch × Text)) : Path :=
  match values.reverse.lookup sandboxSwitch with
  | some t => if t.isEmpty then cwd else cwd.join (WrittenPath.ofText t)
  | none => cwd

def runScript (readers : Readers) (cwd : Path) (parsed : Parsed) : Run Exit := do
  let path := cwd.join (WrittenPath.ofText parsed.argument)
  if !(← Run.onTree (TreeAction.ask (·.exists? path))) then
    return ← badScript cwd path "not found"
  if !(← Run.onTree (TreeAction.ask (·.isFile? path))) then
    return ← badScript cwd path "is not a file"
  let content ← Run.onTree (TreeAction.read path)
  let source ← Run.ofFailure content.strictText
  let directory ← Run.onTree (TreeAction.resolve path.parent)
  let sandbox ← Run.onTree (TreeAction.resolve (sandboxPath cwd parsed.values))
  reporting do
    Setting.runSource ⟨directory, sandbox, readers⟩ source
    return ⟨0, []⟩

def summaryText (cwd : Path) (summary : Index.Summary) : TreeAction Text := do
  let folder ← TreeAction.shown cwd summary.folder
  let db ← TreeAction.shown cwd summary.db
  return "Prepared semantic index for ".toList ++ folder ++ "\nDatabase: ".toList ++ db
    ++ "\nIndexed files: ".toList ++ Text.ofNat summary.files
    ++ "\nIndexed pages: ".toList ++ Text.ofNat summary.pages ++ ['\n']

def prepareFolder (readers : Readers) (cwd : Path) (parsed : Parsed) : Run Exit := do
  let folder ← Run.onTree (TreeAction.resolve (cwd.join (WrittenPath.ofText parsed.argument)))
  reporting do
    let summary ← Run.onTree (Index.prepare readers folder)
    Action.print (← Run.onTree (summaryText cwd summary))
    return ⟨0, []⟩

def prepareWord : Text := "prepare".toList

def perform (readers : Readers) (cwd : Path) (argv : List Text) : Run Exit :=
  match argv with
  | [] => withParsed runGrammar [] (runScript readers cwd)
  | first :: rest =>
    if first == prepareWord then withParsed prepareGrammar rest (prepareFolder readers cwd)
    else withParsed runGrammar argv (runScript readers cwd)

end Folio.Command
