import Clausal.Storage.Error
import Clausal.Text.Blank
import Clausal.Text.Decimal
import Clausal.Text.Lines
import Clausal.Var

/-!
# Headers

The header `p cnf <variables> <clauses>` or `p wcnf <variables> <clauses> <top>` is the first line
that is neither blank nor a comment. What follows the last number of a header is ignored.
-/

namespace Clausal.Dimacs

/-- The two file formats. -/
inductive Format
  | cnf
  | wcnf
deriving DecidableEq

def Format.name : Format → String
  | cnf => "cnf"
  | wcnf => "wcnf"

/-- The first line of an instance. -/
inductive Header
  /-- All clauses are hard. -/
  | cnf (vars clauses : Nat)
  /-- Clauses of weight `top` or more are hard. -/
  | wcnf (vars clauses top : Nat)
deriving DecidableEq

/-- Why bytes are no instance. Lines are counted from 1. -/
inductive Error
  /-- The input ends before a header. -/
  | noHeader
  /-- The first line that is neither blank nor a comment is no header. -/
  | badHeader (line : Nat) (content : List Char)
  /-- The header is of the other format. -/
  | wrongFormat (expected found : Format)
  /-- A line of the body is neither blank nor a comment nor a clause. -/
  | badClause (line : Nat) (content : List Char)
  /-- The header announces a variable that is not usable. -/
  | tooManyVars (line vars : Nat)
  /-- A soft clause weighs more than one. -/
  | heavySoftClause (line weight : Nat)
  /-- The header announces more clauses than memory holds. -/
  | tooManyClauses (clauses : Nat)
  /-- The bytes could not be read. -/
  | file (e : FileError)
deriving DecidableEq

def Error.message : Error → String
  | noHeader => "no DIMACS header found"
  | badHeader line content =>
    "invalid DIMACS header in line " ++ toString line ++ ": '" ++ String.ofList content ++ "'"
  | wrongFormat expected found =>
    "expected a " ++ expected.name ++ " file but found a " ++ found.name ++ " header"
  | badClause line content =>
    "invalid clause in line " ++ toString line ++ ": '" ++ String.ofList content ++ "'"
  | tooManyVars line vars =>
    "header in line " ++ toString line ++ " announces " ++ toString vars
      ++ " variables, at most " ++ toString Var.maxIndex ++ " are supported"
  | heavySoftClause line weight =>
    "soft clause in line " ++ toString line ++ " has weight " ++ toString weight
      ++ ", only unit weights are supported"
  | tooManyClauses _ => Violation.beyondMemory.message
  | file e => e.message

namespace Header

def format : Header → Format
  | cnf .. => .cnf
  | wcnf .. => .wcnf

def vars : Header → Nat
  | cnf v _ => v
  | wcnf v _ _ => v

def clauses : Header → Nat
  | cnf _ c => c
  | wcnf _ c _ => c

/-- The number at the start of a word. -/
def leadingCount (w : List Char) : Option Nat := (Decimal.readCount w).map (·.1)

def ofWords : List (List Char) → Option Header
  | ['p'] :: ['c', 'n', 'f'] :: v :: c :: _ => do
    let vars ← Decimal.parseCount v
    let clauses ← leadingCount c
    return .cnf vars clauses
  | ['p'] :: ['w', 'c', 'n', 'f'] :: v :: c :: t :: _ => do
    let vars ← Decimal.parseCount v
    let clauses ← Decimal.parseCount c
    let top ← leadingCount t
    return .wcnf vars clauses top
  | _ => none

/-- Whether a line that starts with no white space is blank or a comment. -/
def isSkipped : List Char → Bool
  | [] => true
  | c :: _ => c == 'c'

/-- Finds the header from line `n` on: the header, the number of its line, and the lines after. -/
def find : Nat → List RawLine → Except Error (Header × Nat × List RawLine)
  | _, [] => .error .noHeader
  | n, l :: ls =>
    match l.fullText with
    | none => .error (.file .notUtf8)
    | some cs =>
      if isSkipped (trimStart cs) then find (n + 1) ls
      else match ofWords (words (trimStart cs)) with
        | none => .error (.badHeader n (trimEnd cs))
        | some h =>
          if h.vars ≤ Var.maxIndex then .ok (h, n, ls) else .error (.tooManyVars n h.vars)

def read (bs : Bytes) : Except Error Header := (find 1 (rawLines bs)).map (·.1)

end Header

end Clausal.Dimacs
