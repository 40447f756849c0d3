import Clausal.Solver.Reply
import Clausal.Text.Quoted

/-!
# Outcomes

What a solver call comes to: an assignment, unsatisfiability, or a failure of the call.
-/

namespace Clausal

/-- What was done when a process could not be started. -/
inductive StartMode
  /-- Started to its end. -/
  | run
  /-- Started while its pipes are served. -/
  | spawn
deriving DecidableEq

/-- Why a solver call gave no answer. -/
inductive CallError
  /-- A file could not be opened. -/
  | file (e : FileError)
  /-- The instance could not be written to the file at a path. -/
  | writeInstance (path : String)
  /-- The program could not be started. -/
  | start (mode : StartMode) (program : String)
  /-- The output is no answer. -/
  | reply (e : ReplyError)
  /-- The output could not be read to its end. -/
  | undrained
  /-- The thread that reads the output broke off. -/
  | readerBroke
  /-- The exit code is none that solvers use. -/
  | badExit (n : Nat)
  /-- The solver was killed. -/
  | killed
  /-- The solver gave up. -/
  | undecided
  /-- A failure that a caller reports in its own words. -/
  | reported (text : String)
deriving DecidableEq

def StartMode.verb : StartMode → String
  | run => "run"
  | spawn => "spawn"

def CallError.message : CallError → String
  | file e => e.message
  | writeInstance path => "failed to write instance to " ++ path
  | start mode program => "failed to " ++ mode.verb ++ " " ++ Quoted.write program
  | reply e => e.message
  | undrained => "failed to read solver output"
  | readerBroke => "output parsing thread panicked"
  | badExit n => "solver returned unexpected code " ++ toString n
  | killed => "solver process terminated by signal"
  | undecided => "solver did not decide the instance"
  | reported text => text

/-- The outcome of a call. -/
inductive Outcome
  | sat (a : Assignment)
  | unsat
  | failure (e : CallError)
deriving DecidableEq

namespace Outcome

def isSat : Outcome → Bool
  | sat _ => true
  | _ => false

def isUnsat : Outcome → Bool
  | unsat => true
  | _ => false

def assignment? : Outcome → Option Assignment
  | sat a => some a
  | _ => none

def value? (o : Outcome) (v : Var) : Option Ternary := o.assignment?.map (·.value v)

/-- The outcome with failures apart: `none` stands for unsatisfiability. -/
def toExcept : Outcome → Except CallError (Option Assignment)
  | sat a => .ok (some a)
  | unsat => .ok none
  | failure e => .error e

end Outcome

end Clausal
