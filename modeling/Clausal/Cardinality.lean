import Clausal.Assignment.Basic

/-!
# Cardinality constraints

A constraint counts the true literals of a list, with repetition.
-/

namespace Clausal

/-- A bound on the number of true literals. -/
inductive Cardinality
  /-- At most one literal is true. -/
  | atMostOne (lits : List Lit)
  /-- At least the given number of literals are true. -/
  | atLeast (lits : List Lit) (bound : Nat)
deriving DecidableEq

namespace Cardinality

def lits : Cardinality → List Lit
  | atMostOne ls => ls
  | atLeast ls _ => ls

/-- Whether the number of literals alone makes the constraint hold. -/
def isTautology : Cardinality → Bool
  | atMostOne ls => ls.length ≤ 1
  | atLeast _ bound => bound == 0

/-- Whether the number of literals alone rules the constraint out. -/
def isUnsat : Cardinality → Bool
  | atMostOne _ => false
  | atLeast ls bound => bound > ls.length

def count (t : Ternary) (ls : List Lit) (a : Assignment) : Nat :=
  ls.countP fun l => a.litValue l = t

/-- The value of the constraint, open if the counts allow both. -/
def eval (c : Cardinality) (a : Assignment) : Ternary :=
  let sure := count .true c.lits a
  let possible := sure + count .dontCare c.lits a
  match c with
  | atMostOne _ => if sure > 1 then .false else if possible ≤ 1 then .true else .dontCare
  | atLeast _ bound =>
    if sure ≥ bound then .true else if possible < bound then .false else .dontCare

def text (c : Cardinality) : List Char :=
  let sum := " + ".toList.intercalate (c.lits.map Lit.text)
  match c with
  | atMostOne _ => sum ++ " <= 1".toList
  | atLeast _ bound => sum ++ " >= ".toList ++ Decimal.write bound

end Cardinality

end Clausal
