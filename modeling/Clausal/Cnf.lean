import Clausal.Clause.Implication

/-!
# Formulas in conjunctive normal form

A formula is a list of clauses in the order in which they were added.
-/

namespace Clausal

/-- A conjunction of clauses. -/
structure Cnf where
  clauses : List Clause
deriving DecidableEq

namespace Cnf

def empty : Cnf := ⟨[]⟩

def size (f : Cnf) : Nat := f.clauses.length

def append (f : Cnf) (cs : List Clause) : Cnf := ⟨f.clauses ++ cs⟩

def push (f : Cnf) (c : Clause) : Cnf := f.append [c]

def get (f : Cnf) (i : Nat) : Except Violation Clause := elementAt f.clauses i

/-- And on ternary values: false wins over open, open over true. -/
def andThen : Ternary → Ternary → Ternary
  | .false, _ => .false
  | .true, t => t
  | .dontCare, .false => .false
  | .dontCare, _ => .dontCare

/-- The value of the formula: false if some clause is, true if all are. -/
def eval (f : Cnf) (a : Assignment) : Ternary :=
  f.clauses.foldr (fun c t => andThen (c.eval a) t) .true

def text (f : Cnf) : List Char :=
  '[' :: (", ".toList.intercalate (f.clauses.map Clause.text) ++ [']'])

@[simp] theorem append_nil (f : Cnf) : f.append [] = f := congrArg mk (List.append_nil _)

theorem append_append (f : Cnf) (cs ds : List Clause) :
    (f.append cs).append ds = f.append (cs ++ ds) := congrArg mk (List.append_assoc _ _ _)

theorem andThen_eq_true_iff (s t : Ternary) : andThen s t = .true ↔ s = .true ∧ t = .true := by
  cases s <;> cases t <;> simp [andThen]

theorem andThen_eq_false_iff (s t : Ternary) :
    andThen s t = .false ↔ s = .false ∨ t = .false := by
  cases s <;> cases t <;> simp [andThen]

theorem eval_eq_true_iff (f : Cnf) (a : Assignment) :
    f.eval a = .true ↔ ∀ c ∈ f.clauses, c.eval a = .true := by
  rw [eval]
  induction f.clauses with
  | nil => simp
  | cons c cs ih => simp [andThen_eq_true_iff, ih]

theorem eval_eq_false_iff (f : Cnf) (a : Assignment) :
    f.eval a = .false ↔ ∃ c ∈ f.clauses, c.eval a = .false := by
  rw [eval]
  induction f.clauses with
  | nil => simp
  | cons c cs ih => simp [andThen_eq_false_iff, ih]

end Cnf

/-- What an encoding adds its clauses to. -/
class Collector (γ : Type) where
  /-- The number of clauses that have been collected. -/
  count : γ → Nat
  /-- Adds clauses at the end. -/
  extend : γ → List Clause → Except Violation γ

instance : Collector Cnf where
  count := Cnf.size
  extend f cs := .ok (f.append cs)

end Clausal
