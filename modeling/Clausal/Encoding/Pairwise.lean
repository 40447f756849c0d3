import Clausal.Cnf

/-!
# Pairwise at-most-one

For each two positions of the list, the literal at the first excludes the one at the second. No
variables are added.
-/

namespace Clausal

/-- A pairwise encoder: its literals and the number of clauses of its last run. -/
structure Pairwise where
  lits : List Lit
  clauseCount : Nat
deriving DecidableEq

namespace Pairwise

def ofLits (ls : List Lit) : Pairwise := ⟨ls, 0⟩

def append (e : Pairwise) (ls : List Lit) : Pairwise := { e with lits := e.lits ++ ls }

/-- The clauses of the encoding, by first and then by second position. -/
def clauses : List Lit → List Clause
  | [] => []
  | l :: ls => ls.map (fun m => Clause.implies l m.negate) ++ clauses ls

def encode {γ : Type} [Collector γ] (e : Pairwise) (col : γ) : Except Violation (Pairwise × γ) := do
  let col' ← Collector.extend col (clauses e.lits)
  return ({ e with clauseCount := Collector.count col' - Collector.count col }, col')

end Pairwise

end Clausal
