import Clausal.Encoding.SequentialCounter

/-!
# At-least constraints

The cheapest encoding that fits the bound: no clause for bound 0, one clause for bound 1, a
sequential counter from bound 2 on.
-/

namespace Clausal.AtLeast

/-- What encoding a constraint leaves. -/
structure Encoded (γ : Type) where
  matrix : Option CounterMatrix
  pool : VarPool
  collector : γ

/-- Encodes that at least `bound` of the literals are true. -/
def encode {γ : Type} [Collector γ] (ls : List Lit) (bound : Nat) (pool : VarPool) (col : γ) :
    Except Violation (Encoded γ) :=
  if 0 < bound ∧ ls = [] then .error (.noInputsFor bound)
  else match bound with
    | 0 => .ok ⟨none, pool, col⟩
    | 1 => (Collector.extend col [.anyOf ls]).map fun col' => ⟨none, pool, col'⟩
    | _ => (SequentialCounter.encode (.ofLits ls) bound pool col).map fun r =>
        ⟨some r.matrix, r.pool, r.collector⟩

end Clausal.AtLeast
