import Folio.Budget
import Folio.Evaluation
import Folio.Source.Statement.Parser

/-!
# Programs

Running the text of a program.
-/

namespace Folio

/-- The rounds that a loop over one list may take; the bound only makes every run a finite one. -/
def patience : Nat := 1000000000

def Setting.scene (s : Setting) (source : Text) : Scene :=
  ⟨s, (Text.splitLines source).toArray, patience⟩

def Setting.runSource (s : Setting) (source : Text) : Run Unit :=
  match Source.parseProgram source with
  | .error e => throw (Fault.ofSource e)
  | .ok program => (s.scene source).execProgram program

/-- The place of a program: its directory and its sandbox, which is the directory itself if none is
given, both without links. -/
def Setting.make (tree : FileTree) (cwd : Path) (sandbox : Option Path) (readers : Readers) :
    Setting where
  cwd := tree.resolved cwd
  sandbox := tree.resolved (sandbox.getD cwd)
  readers := readers

def execute (tree : FileTree) (cwd : Path) (sandbox : Option Path) (readers : Readers)
    (timeout : Timeout) (source : Text) : Except TimeoutFlaw (Outcome World Fault Unit) := do
  let allowance ← timeout.allowance
  return ((Setting.make tree cwd sandbox readers).runSource source).run allowance
    (World.ofTree tree)

end Folio
