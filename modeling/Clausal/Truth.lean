import Clausal.Cardinality
import Clausal.Cnf

/-!
# Truth

What literals, clauses, formulas and cardinality constraints say of a total assignment. An
assignment that leaves variables open stands for the total assignments that complete it.
-/

namespace Clausal

/-- A truth value for each variable. -/
abbrev Valuation := Var → Bool

namespace Lit

/-- Whether the literal is true. -/
def holds (l : Lit) (τ : Valuation) : Bool := τ l.var != l.isNeg

@[simp] theorem holds_negate (l : Lit) (τ : Valuation) : l.negate.holds τ = !l.holds τ := by
  have h : l.negate.var = l.var := by simp [var]
  simp only [holds, h, isNeg_negate]
  cases τ l.var <;> cases l.isNeg <;> rfl

end Lit

def Clause.Holds (c : Clause) (τ : Valuation) : Prop := ∃ l ∈ c.lits, l.holds τ

def Cnf.Holds (f : Cnf) (τ : Valuation) : Prop := ∀ c ∈ f.clauses, c.Holds τ

/-- The number of true literals, counted with repetition. -/
def trueCount (ls : List Lit) (τ : Valuation) : Nat := ls.countP fun l => l.holds τ

/-- The number of true literals respects the bound. -/
def Cardinality.Holds (c : Cardinality) (τ : Valuation) : Prop :=
  match c with
  | .atMostOne ls => trueCount ls τ ≤ 1
  | .atLeast ls bound => bound ≤ trueCount ls τ

@[simp] theorem trueCount_nil (τ : Valuation) : trueCount [] τ = 0 := rfl

theorem trueCount_cons (l : Lit) (ls : List Lit) (τ : Valuation) :
    trueCount (l :: ls) τ = trueCount ls τ + (l.holds τ).toNat := by
  cases h : l.holds τ <;> simp [trueCount, h]

@[simp] theorem trueCount_append (ls ms : List Lit) (τ : Valuation) :
    trueCount (ls ++ ms) τ = trueCount ls τ + trueCount ms τ := List.countP_append

theorem trueCount_le_length (ls : List Lit) (τ : Valuation) : trueCount ls τ ≤ ls.length :=
  List.countP_le_length

namespace Assignment

/-- Every usable variable that is decided keeps its value in `b`. -/
def Refines (b a : Assignment) : Prop :=
  ∀ v, v.index ≤ Var.maxIndex → a.value v ≠ .dontCare → b.value v = a.value v

/-- Every decided variable has its value in the total assignment. -/
def CompletedBy (a : Assignment) (τ : Valuation) : Prop :=
  ∀ v, a.value v ≠ .dontCare → a.value v = .ofBool (τ v)

/-- A decided literal has its value in every completion. -/
theorem CompletedBy.litValue {a : Assignment} {τ : Valuation} (h : a.CompletedBy τ) {l : Lit}
    (hl : a.litValue l ≠ .dontCare) : a.litValue l = .ofBool (l.holds τ) := by
  have hv : a.value l.var ≠ .dontCare := mt (a.litValue_eq_dontCare_iff l).mpr hl
  rw [Assignment.litValue, h l.var hv, Lit.holds]
  cases l.isNeg <;> cases τ l.var <;> rfl

end Assignment

end Clausal
