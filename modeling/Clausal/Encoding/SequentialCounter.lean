import Clausal.Cnf
import Clausal.VarPool
import Clausal.Encoding.CounterMatrix

/-!
# Sequential counters

For inputs `x 0, …, x (n - 1)` and a bound `k ≥ 2` the counter has rows `0, …, k` of `n` fresh
variables, where the variable in row `j` and column `i` says that at least `j` of the inputs up to
`x i` are true. The clauses are listed family by family, each by column and then by row.
-/

namespace Clausal

namespace SequentialCounter

/-- Row 0 is reached, the bound holds, and the first column counts the first input alone. -/
def boundary (x : Nat → Lit) (y : Nat → Nat → Lit) (n k : Nat) : List Clause :=
  [.unit (y 0 0), .unit (y k (n - 1)), .implies (x 0) (y 1 0), .implies (y 1 0) (x 0),
    .refute (y 2 0)]

/-- A count of `j` is also a count of `j - 1`. -/
def downward (y : Nat → Nat → Lit) (n k : Nat) : List Clause :=
  (List.range n).flatMap fun i =>
    (List.range k).map fun j => .implies (y (j + 1) i) (y j i)

/-- A count is kept by the next column. -/
def kept (y : Nat → Nat → Lit) (n k : Nat) : List Clause :=
  (List.range (n - 1)).flatMap fun i =>
    (List.range (k + 1)).map fun j => .implies (y j i) (y j (i + 1))

/-- A count grows by at most one from a column to the next. -/
def bounded (y : Nat → Nat → Lit) (n k : Nat) : List Clause :=
  (List.range (n - 1)).flatMap fun i =>
    (List.range k).map fun j => .implies (y j i).negate (y (j + 1) (i + 1)).negate

/-- A true input raises the count. -/
def raised (x : Nat → Lit) (y : Nat → Nat → Lit) (n k : Nat) : List Clause :=
  (List.range (n - 1)).flatMap fun i =>
    (List.range k).map fun j => ⟨[(y j i).negate, (x (i + 1)).negate, y (j + 1) (i + 1)]⟩

/-- Only a true input raises the count. -/
def unraised (x : Nat → Lit) (y : Nat → Nat → Lit) (n k : Nat) : List Clause :=
  (List.range (n - 1)).flatMap fun i =>
    (List.range (k + 1)).map fun j => ⟨[x (i + 1), y j i, (y j (i + 1)).negate]⟩

/-- The clauses of a counter over `n` inputs with bound `k`. -/
def clauses (x : Nat → Lit) (y : Nat → Nat → Lit) (n k : Nat) : List Clause :=
  boundary x y n k ++ downward y n k ++ kept y n k ++ bounded y n k ++ raised x y n k
    ++ unraised x y n k

end SequentialCounter

/-- A sequential counter encoder: its literals and the totals over its runs. -/
structure SequentialCounter where
  lits : List Lit
  varCount : Nat
  clauseCount : Nat
deriving DecidableEq

namespace SequentialCounter

def ofLits (ls : List Lit) : SequentialCounter := ⟨ls, 0, 0⟩

def append (e : SequentialCounter) (ls : List Lit) : SequentialCounter :=
  { e with lits := e.lits ++ ls }

def input (ls : List Lit) (i : Nat) : Lit := ls.getD i ⟨0⟩

/-- The counter literal in a row and a column of a row by row list of variables. -/
def cell (vars : Array Var) (columns j i : Nat) : Lit :=
  (vars.getD (j * columns + i) ⟨0⟩).pos

/-- The clauses of the counter over a list of literals whose variables are given row by row. -/
def clausesOver (ls : List Lit) (vars : List Var) (k : Nat) : List Clause :=
  clauses (input ls) (cell vars.toArray ls.length) ls.length k

/-- What a run of the encoder leaves. -/
structure Encoded (γ : Type) where
  matrix : CounterMatrix
  encoder : SequentialCounter
  pool : VarPool
  collector : γ

/-- The room of the list of a row in memory, in bytes. -/
def rowSize : Nat := 24

/-- Takes the counter variables from a pool and adds the clauses of the bound to a collector. -/
def encode {γ : Type} [Collector γ] (e : SequentialCounter) (bound : Nat) (pool : VarPool)
    (col : γ) : Except Violation (Encoded γ) := do
  if bound ≤ 1 then throw (.boundTooSmall bound)
  if e.lits.isEmpty then throw .noInputs
  if !fitsMemory (bound + 1) rowSize then throw .beyondMemory
  let n := e.lits.length
  let (vars, pool') ← pool.freshRows (bound + 1) n
  let col' ← Collector.extend col (clausesOver e.lits vars bound)
  return {
    matrix := ⟨vars, n⟩
    encoder := {
      e with
      varCount := e.varCount + (pool'.used - pool.used)
      clauseCount := e.clauseCount + (Collector.count col' - Collector.count col) }
    pool := pool'
    collector := col' }

end SequentialCounter

end Clausal
