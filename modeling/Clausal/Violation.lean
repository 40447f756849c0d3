/-!
# Violations

An operation called outside its contract has no result; a `Violation` says which condition failed.
Errors that a caller is expected to handle (malformed text, files) have types of their own.
-/

namespace Clausal

/-- The condition that a call broke. -/
inductive Violation
  /-- A variable above the highest usable index was asked for. -/
  | indexTooHigh
  /-- Moving a variable up left the 32-bit index range. -/
  | indexOverflow
  /-- The highest usable variable has no number in a file. -/
  | noFileNumber
  /-- A sequential counter was asked for a bound below two. -/
  | boundTooSmall (bound : Nat)
  /-- A sequential counter was built over no literals. -/
  | noInputs
  /-- A positive bound was asked of no literals. -/
  | noInputsFor (bound : Nat)
  /-- A counter matrix was read beyond its last column. -/
  | columnOutOfRange
  /-- The output of a counter matrix without variables was asked for. -/
  | emptyMatrix
  /-- A sequence was read beyond its end. -/
  | outOfRange
  /-- A product has no 64-bit number. -/
  | productOverflow
  /-- A sum has no 64-bit number. -/
  | sumOverflow
  /-- A difference is below zero. -/
  | belowZero
  /-- A list was asked for that no memory holds. -/
  | beyondMemory
  /-- A place in an assignment has no 32-bit index. -/
  | tooManyValues
deriving DecidableEq

def Violation.message : Violation → String
  | indexTooHigh => "variable index too high"
  | indexOverflow => "variable index overflow"
  | noFileNumber => "variable index too high to fit in c_int: TryFromIntError(PosOverflow)"
  | boundTooSmall bound =>
    "sequential counter requires a bound larger than one, got " ++ toString bound
  | noInputs => "sequential counter requires at least one input literal"
  | noInputsFor bound =>
    "at-least-" ++ toString bound ++ " constraint requires at least one input literal"
  | columnOutOfRange => "counter column out of range"
  | emptyMatrix => "empty counter matrix"
  | outOfRange => "index out of range"
  | productOverflow => "attempt to multiply with overflow"
  | sumOverflow => "attempt to add with overflow"
  | belowZero => "attempt to subtract with overflow"
  | beyondMemory => "capacity overflow"
  | tooManyValues => "assignment longer than `u32::MAX`: TryFromIntError(PosOverflow)"

/-- The element at a position that the caller promises to be in range. -/
def elementAt {α : Type} (xs : List α) (i : Nat) : Except Violation α :=
  match xs[i]? with
  | some x => .ok x
  | none => .error .outOfRange

/-! ## Counts -/

/-- The product of two counts, which has to be a 64-bit number. -/
def countProduct (a b : Nat) : Except Violation Nat :=
  if a * b < 18446744073709551616 then .ok (a * b) else .error .productOverflow

/-- The sum of two counts, which has to be a 64-bit number. -/
def countSum (a b : Nat) : Except Violation Nat :=
  if a + b < 18446744073709551616 then .ok (a + b) else .error .sumOverflow

/-- Whether memory may hold that many items of a size in bytes. -/
def fitsMemory (items size : Nat) : Bool := items * size < 9223372036854775808

theorem countProduct_eq_ok {a b : Nat} (h : a * b < 18446744073709551616) : countProduct a b = .ok (a * b) :=
  if_pos h

theorem countSum_eq_ok {a b : Nat} (h : a + b < 18446744073709551616) : countSum a b = .ok (a + b) := if_pos h

end Clausal
