import Clausal.Violation
import Clausal.Text.Decimal

/-!
# Variables

A variable is named by its index, counted from 0. The highest usable index leaves one bit of a
32-bit word for a polarity. In a file a variable is written as its index plus one, which must fit a
signed 32-bit number, so the highest variable cannot be written.
-/

namespace Clausal

structure Var where
  index : Nat
deriving DecidableEq, Hashable

/-- Why a number names no variable or no literal. -/
inductive IndexError
  /-- The index is above the highest usable one. -/
  | tooHigh (index : Nat)
  /-- Zero ends a clause in a file and is no literal. -/
  | zeroLiteral
deriving DecidableEq

namespace Var

/-- The highest usable index. -/
def maxIndex : Nat := 2147483647

/-- The variable with an index that the caller promises to be usable. -/
def new (index : Nat) : Except Violation Var :=
  if index ≤ maxIndex then .ok ⟨index⟩ else .error .indexTooHigh

/-- The variable with a given index, if that is usable. -/
def ofIndex (index : Nat) : Except IndexError Var :=
  if index ≤ maxIndex then .ok ⟨index⟩ else .error (.tooHigh index)

def add (v : Var) (n : Nat) : Except Violation Var :=
  if v.index + n < 4294967296 then new (v.index + n) else .error .indexOverflow

def sub (v : Var) (n : Nat) : Except Violation Var :=
  if n ≤ v.index then .ok ⟨v.index - n⟩ else .error .belowZero

def max (v w : Var) : Var := ⟨Nat.max v.index w.index⟩

/-- The number that stands for the variable in a file. -/
def fileNumber (v : Var) : Except Violation Nat :=
  if v.index < maxIndex then .ok (v.index + 1) else .error .noFileNumber

/-- The name of the variable in dumps. -/
def text (v : Var) : List Char := 'x' :: Decimal.write v.index

end Var

def IndexError.message : IndexError → String
  | tooHigh index =>
    "index " ++ toString index ++ " is too high (maximum " ++ toString Var.maxIndex ++ ")"
  | zeroLiteral => "zero is an invalid IPASIR literal"

end Clausal
