import Clausal.Solver.External

/-!
# The committee

A committee of at least three of six candidates is picked. At most one of each group of rivals can
be on it, and the chair has to be.
-/

namespace Clausal.Committee

def candidates : List String := ["ada", "bob", "cyd", "dee", "eve", "fay"]

/-- The groups of rivals by the places of the candidates. -/
def rivals : List (List Nat) := [[0, 1, 2], [3, 4]]

def chair : Nat := 5

def minSize : Nat := 3

/-- Where the instance goes if no path is given. -/
def defaultPath : String := "committee.cnf"

def picked (i : Nat) : Lit := Var.pos ⟨i⟩

/-- The instance and its counter. -/
def build : Except Violation (CounterMatrix × Model) := do
  let (_, m) ← (Model.named "committee").freshMany candidates.length
  let m ← rivals.foldlM (fun m group => m.addAtMostOne (group.map picked)) m
  let m ← m.addClause (.unit (picked chair))
  m.addAtLeast ((List.range candidates.length).map picked) minSize

def members (a : Assignment) : List String :=
  candidates.zipIdx.filterMap fun (name, i) => if a.value ⟨i⟩ = .true then some name else none

/-- What a run shows, and its exit code. -/
structure Report where
  stdout : String
  stderr : String
  code : Nat

/-- The dump of the instance and its counter. -/
def preamble (counter : CounterMatrix) (m : Model) : Except Violation String := do
  let output ← counter.output
  return String.ofList m.text ++ "\nc counter output variable: " ++ String.ofList output.text
    ++ " (" ++ toString counter.vars.length ++ " counter variables)\n"

def failureLine (message : String) : String := "Error: " ++ message ++ "\n"

/-- The instance with its text, and what is shown before it is saved. -/
structure Prepared where
  model : Model
  text : List Char
  shown : String

/-- Builds the instance and its text. -/
def prepare : Except Violation Prepared := do
  let (counter, m) ← build
  let shown ← preamble counter m
  let text ← m.writeCnf
  return ⟨m, text, shown⟩

namespace Prepared

/-- What has been shown once the instance is saved. -/
def shownWhenSaved (p : Prepared) (path : String) : String :=
  p.shown ++ "c instance written to " ++ path ++ "\n"

/-- The report of a run that could not save the instance. -/
def unsaved (p : Prepared) (e : FileError) : Report := ⟨p.shown, failureLine e.message, 1⟩

/-- The report of a run without a solver. -/
def unsolved (p : Prepared) (path : String) : Report :=
  ⟨p.shownWhenSaved path ++ "c set SATENC_SOLVER to solve the instance\n", "", 0⟩

/-- The report of a run with a solver. -/
def solved (p : Prepared) (path : String) : Outcome → Report
  | .sat a =>
    ⟨p.shownWhenSaved path ++ "s SATISFIABLE\nc committee: " ++ ", ".intercalate (members a)
      ++ "\n", "", 0⟩
  | .unsat => ⟨p.shownWhenSaved path ++ "s UNSATISFIABLE\n", "", 0⟩
  | .failure e => ⟨p.shownWhenSaved path, failureLine e.message, 1⟩

end Prepared

/-- The solver of a run. -/
def solverFor (program path : String) : ExternalSolver :=
  .withInstanceFile ⟨program, [], [], none⟩ path

/-- Writes the instance to a path and, if a solver is named, solves it. -/
def run (path : String) (solver : Option String) (machine : Machine) :
    Except Violation (Report × Storage) := do
  let p ← prepare
  match machine.storage.save path (utf8Encode p.text) with
  | .error e => return (p.unsaved e, machine.storage)
  | .ok storage =>
    match solver with
    | none => return (p.unsolved path, storage)
    | some program =>
      let (outcome, call) ← (solverFor program path).run p.model { machine with storage }
      return (p.solved path outcome, call.storage)

end Clausal.Committee
