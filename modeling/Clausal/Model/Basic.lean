import Clausal.Cardinality
import Clausal.Encoding.AtLeast
import Clausal.Encoding.Pairwise

/-!
# Models

A model holds a pool of variables, hard clauses and soft clauses of weight one. It only grows, and
adding a clause uses the variables that occur in it.
-/

namespace Clausal

/-- Uses the variables of each clause in turn. -/
def VarPool.coverClauses (p : VarPool) (cs : List Clause) : Except Violation VarPool :=
  cs.foldlM (fun p c => p.cover c.lits) p

/-- An instance under construction. -/
structure Model where
  name : String
  pool : VarPool
  hard : Cnf
  soft : List Clause
deriving DecidableEq

namespace Model

def named (name : String) : Model := ⟨name, .full, .empty, []⟩

def empty : Model := named ""

/-- The number of variables in use. -/
def varCount (m : Model) : Nat := m.pool.used

def isWeighted (m : Model) : Bool := !m.soft.isEmpty

def freshMany (m : Model) (n : Nat) : Except Violation (List Var × Model) :=
  (m.pool.freshMany n).map fun (vs, pool) => (vs, { m with pool })

def cover (m : Model) (ls : List Lit) : Except Violation Model :=
  (m.pool.cover ls).map fun pool => { m with pool }

def extend (m : Model) (cs : List Clause) : Except Violation Model :=
  (m.pool.coverClauses cs).map fun pool => { m with pool, hard := m.hard.append cs }

def addClause (m : Model) (c : Clause) : Except Violation Model := m.extend [c]

def extendSoft (m : Model) (cs : List Clause) : Except Violation Model :=
  (m.pool.coverClauses cs).map fun pool => { m with pool, soft := m.soft ++ cs }

def addSoftClause (m : Model) (c : Clause) : Except Violation Model := m.extendSoft [c]

instance : Collector Model where
  count m := m.hard.size
  extend := extend

/-- Demands that at most one of the literals is true. -/
def addAtMostOne (m : Model) (ls : List Lit) : Except Violation Model := do
  let m ← m.cover ls
  let (_, hard) ← (Pairwise.ofLits ls).encode m.hard
  return { m with hard }

/-- Demands by a sequential counter that at least `bound` of the literals are true. -/
def addAtLeast (m : Model) (ls : List Lit) (bound : Nat) :
    Except Violation (CounterMatrix × Model) := do
  let m ← m.cover ls
  let r ← (SequentialCounter.ofLits ls).encode bound m.pool m.hard
  return (r.matrix, { m with pool := r.pool, hard := r.collector })

/-- Demands a cardinality constraint by the cheapest encoding that fits. -/
def addCardinality (m : Model) : Cardinality → Except Violation (Option CounterMatrix × Model)
  | .atMostOne ls => (m.addAtMostOne ls).map fun m => (none, m)
  | .atLeast ls bound => do
    let m ← m.cover ls
    let r ← AtLeast.encode ls bound m.pool m.hard
    return (r.matrix, { m with pool := r.pool, hard := r.collector })

/-- The lines of a dump that show clauses. -/
def clauseLines (cs : List Clause) : List Char :=
  cs.flatMap fun c => "c   ".toList ++ c.text ++ ['\n']

def text (m : Model) : List Char :=
  "c model name: ".toList ++ m.name.toList ++ "\nc number of variables: ".toList
    ++ Decimal.write m.varCount ++ "\nc hard clauses:\n".toList ++ clauseLines m.hard.clauses
    ++ (if m.isWeighted then "c soft clauses:\n".toList ++ clauseLines m.soft else [])

end Model

end Clausal
