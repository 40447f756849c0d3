import Clausal.Assignment.ValueLine
import Clausal.Storage.Error
import Clausal.Text.Lines

/-!
# Solver replies

A solver answers in lines. A line that holds the word `UNSATISFIABLE` or a status line that starts
with `UNKNOWN` or `INDETERMINATE` decides the reply at once; value lines add to the assignment; all
other lines are ignored.
-/

namespace Clausal

/-- The answer of a solver. -/
inductive Reply
  | sat (a : Assignment)
  | unsat
  | unknown
deriving DecidableEq

/-- Why the output of a solver is no answer. Lines are counted from 1. -/
inductive ReplyError
  /-- No line decides the answer and none gives values. -/
  | noValueLine
  /-- A value line is at fault. -/
  | badValueLine (line : Nat) (e : ValueLineError)
  /-- The output could not be read. -/
  | file (e : FileError)
deriving DecidableEq

def ReplyError.message : ReplyError → String
  | noValueLine => "no value line found in the solver output"
  | badValueLine line e =>
    "invalid value line in line " ++ toString line ++ " of the solver output: " ++ e.message
  | file e => e.message

/-- Whether a text holds a word at any place. -/
def holdsWord (w : List Char) : List Char → Bool
  | [] => w.isEmpty
  | c :: cs => w.isPrefixOf (c :: cs) || holdsWord w cs

namespace Reply

/-- What a line of solver output says. -/
inductive LineKind
  | unsat
  | unknown
  | values
  | noise
deriving DecidableEq

/-- The kind of a status line without its tag. -/
def statusKind (status : List Char) : LineKind :=
  if "UNKNOWN".toList.isPrefixOf status || "INDETERMINATE".toList.isPrefixOf status then .unknown
  else .noise

def lineKind (cs : List Char) : LineKind :=
  if holdsWord "UNSATISFIABLE".toList cs then .unsat
  else match cs with
    | 's' :: ' ' :: status => statusKind (trimStart status)
    | _ => if (tokens cs).head? = some ['v'] then .values else .noise

/-- Reads the lines from line `n` on, after the values so far. -/
def readLines : Nat → Option Assignment → List RawLine → Except ReplyError Reply
  | _, none, [] => .error .noValueLine
  | _, some a, [] => .ok (.sat a)
  | n, sofar, l :: ls =>
    match l.text with
    | none => .error (.file .notUtf8)
    | some cs =>
      match lineKind cs with
      | .unsat => .ok .unsat
      | .unknown => .ok .unknown
      | .noise => readLines (n + 1) sofar ls
      | .values =>
        match (sofar.getD .empty).addValueLine cs with
        | (a, .ok ()) => readLines (n + 1) (some a) ls
        | (_, .error e) => .error (.badValueLine n e)

def read (bs : Bytes) : Except ReplyError Reply := readLines 1 none (rawLines bs)

end Reply

end Clausal
