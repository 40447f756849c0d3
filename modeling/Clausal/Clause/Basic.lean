import Clausal.Assignment.Basic

/-!
# Clauses

A clause is a disjunction of literals. Literals keep their order and may be repeated; the empty
clause is false.
-/

namespace Clausal

/-- A disjunction of literals. -/
structure Clause where
  lits : List Lit
deriving DecidableEq

namespace Clause

def size (c : Clause) : Nat := c.lits.length

def push (c : Clause) (l : Lit) : Clause := ⟨c.lits ++ [l]⟩

def append (c : Clause) (ls : List Lit) : Clause := ⟨c.lits ++ ls⟩

def get (c : Clause) (i : Nat) : Except Violation Lit := elementAt c.lits i

/-- Or on ternary values: true wins over open, open over false. -/
def orElse : Ternary → Ternary → Ternary
  | _, .true => .true
  | .false, t => t
  | s, _ => s

/-- The value of the clause: true if some literal is, false if all are. -/
def eval (c : Clause) (a : Assignment) : Ternary :=
  c.lits.foldl (fun t l => orElse t (a.litValue l)) .false

/-- The lexicographic order of clauses. -/
def le (c d : Clause) : Bool := go c.lits d.lits
where
  /-- Compares two lists of literals. -/
  go : List Lit → List Lit → Bool
    | [], _ => true
    | _ :: _, [] => false
    | l :: ls, m :: ms => if l = m then go ls ms else l.le m

def text (c : Clause) : List Char :=
  '(' :: (['|'].intercalate (c.lits.map Lit.text) ++ [')'])

theorem orElse_eq_true_iff (s t : Ternary) : orElse s t = .true ↔ s = .true ∨ t = .true := by
  cases s <;> cases t <;> simp [orElse]

theorem orElse_eq_false_iff (s t : Ternary) : orElse s t = .false ↔ s = .false ∧ t = .false := by
  cases s <;> cases t <;> simp [orElse]

theorem eval_eq_true_iff (c : Clause) (a : Assignment) :
    c.eval a = .true ↔ ∃ l ∈ c.lits, a.litValue l = .true := by
  have key : ∀ (ls : List Lit) (s : Ternary),
      ls.foldl (fun t l => orElse t (a.litValue l)) s = .true ↔
        s = .true ∨ ∃ l ∈ ls, a.litValue l = .true := by
    intro ls
    induction ls with
    | nil => simp
    | cons l ls ih => simp [ih, orElse_eq_true_iff, or_assoc]
  simp [eval, key]

theorem eval_eq_false_iff (c : Clause) (a : Assignment) :
    c.eval a = .false ↔ ∀ l ∈ c.lits, a.litValue l = .false := by
  have key : ∀ (ls : List Lit) (s : Ternary),
      ls.foldl (fun t l => orElse t (a.litValue l)) s = .false ↔
        s = .false ∧ ∀ l ∈ ls, a.litValue l = .false := by
    intro ls
    induction ls with
    | nil => simp
    | cons l ls ih => simp [ih, orElse_eq_false_iff, and_assoc]
  simp [eval, key]

end Clause

end Clausal
