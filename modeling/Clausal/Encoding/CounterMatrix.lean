import Clausal.Lit

/-!
# Counter matrices

The variables of a sequential counter by rows. A matrix without columns has no rows. Trailing
variables that fill no row are reached by their place in the sequence only. Places are 64-bit
numbers, and so are the steps on the way to them.
-/

namespace Clausal

/-- Variables in rows of a common length. -/
structure CounterMatrix where
  vars : List Var
  columns : Nat
deriving DecidableEq

namespace CounterMatrix

/-- The number of full rows. -/
def rows (m : CounterMatrix) : Nat := m.vars.length / m.columns

def get (m : CounterMatrix) (row col : Nat) : Except Violation Var :=
  if col < m.columns then do
    let start ← countProduct row m.columns
    let place ← countSum start col
    elementAt m.vars place
  else .error .columnOutOfRange

def lit (m : CounterMatrix) (row col : Nat) : Except Violation Lit := do
  let v ← m.get row col
  Lit.new v.index false

def row (m : CounterMatrix) (r : Nat) : Except Violation (List Var) := do
  let start ← countProduct r m.columns
  let next ← countSum r 1
  let stop ← countProduct next m.columns
  if stop ≤ m.vars.length then .ok ((m.vars.drop start).take m.columns) else .error .outOfRange

def output (m : CounterMatrix) : Except Violation Var :=
  match m.vars.getLast? with
  | some v => .ok v
  | none => .error .emptyMatrix

/-- The full rows in order. -/
def toRows (m : CounterMatrix) : List (List Var) :=
  (List.range m.rows).map fun r => (m.vars.drop (r * m.columns)).take m.columns

def varText (v : Var) : List Char :=
  "Var \x7b idx: ".toList ++ Decimal.write v.index ++ " \x7d".toList

def listText (items : List (List Char)) : List Char :=
  '[' :: (", ".toList.intercalate items ++ [']'])

def text (m : CounterMatrix) : List Char :=
  listText (m.toRows.map fun r => listText (r.map varText))

end CounterMatrix

end Clausal
