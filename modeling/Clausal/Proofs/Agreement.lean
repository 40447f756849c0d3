import Clausal.Truth
import Mathlib.Data.List.Basic
import Mathlib.Data.Nat.Init

/-!
# Agreement of valuations

A clause and a cardinality constraint read the variables of their literals and no others, so
valuations that agree on those variables give them the same truth value. The shapes of clauses that
the encodings use are spelled out as conditions on their literals.
-/

namespace Clausal

namespace Valuation

/-- The same values for all variables below an index. -/
def AgreesBelow (n : Nat) (σ τ : Valuation) : Prop := ∀ v : Var, v.index < n → σ v = τ v

/-- The same values for all variables outside a list. -/
def AgreesOff (vs : List Var) (σ τ : Valuation) : Prop := ∀ v, v ∉ vs → σ v = τ v

end Valuation

namespace Lit

theorem holds_congr {l : Lit} {σ τ : Valuation} (h : σ l.var = τ l.var) :
    l.holds σ = l.holds τ := by
  unfold holds
  rw [h]

theorem var_negate (l : Lit) : l.negate.var = l.var := by simp [var]

end Lit

theorem Var.toNat_index {v : Var} (h : v.index ≤ Var.maxIndex) :
    (UInt32.ofNat v.index).toNat = v.index := by
  rw [Var.maxIndex] at h
  simp
  omega

theorem Var.var_pos {v : Var} (h : v.index ≤ Var.maxIndex) : v.pos.var = v := by
  have hi := Var.toNat_index h
  rw [Lit.var, Var.pos, Lit.index_pack (by rw [hi]; exact h), hi]

theorem Var.holds_pos {v : Var} (h : v.index ≤ Var.maxIndex) (τ : Valuation) :
    v.pos.holds τ = τ v := by
  have hn : v.pos.isNeg = false := Lit.isNeg_pack (by rw [Var.toNat_index h]; exact h)
  simp [Lit.holds, Var.var_pos h, hn]

namespace Clause

theorem holds_congr {c : Clause} {σ τ : Valuation} (h : ∀ l ∈ c.lits, σ l.var = τ l.var) :
    c.Holds σ ↔ c.Holds τ := by
  unfold Holds
  constructor
  · rintro ⟨l, hl, hσ⟩
    exact ⟨l, hl, by rwa [← Lit.holds_congr (h l hl)]⟩
  · rintro ⟨l, hl, hτ⟩
    exact ⟨l, hl, by rwa [Lit.holds_congr (h l hl)]⟩

variable {τ : Valuation}

@[simp] theorem holds_unit (a : Lit) : (unit a).Holds τ ↔ a.holds τ := by simp [Holds, unit]

@[simp] theorem holds_refute (a : Lit) : (refute a).Holds τ ↔ a.holds τ = false := by
  simp [Holds, refute]

@[simp] theorem holds_implies (a b : Lit) : (implies a b).Holds τ ↔ (a.holds τ → b.holds τ) := by
  cases h : a.holds τ <;> simp [Holds, implies, h]

@[simp] theorem holds_impliesAny (a : Lit) (bs : List Lit) :
    (impliesAny a bs).Holds τ ↔ (a.holds τ → ∃ b ∈ bs, b.holds τ) := by
  cases h : a.holds τ <;> simp [Holds, impliesAny, h]

/-- A disjunction says that at least one of its literals is true. -/
theorem holds_iff_one_le_trueCount (c : Clause) : c.Holds τ ↔ 1 ≤ trueCount c.lits τ := by
  rw [Nat.one_le_iff_ne_zero, ← Nat.pos_iff_ne_zero, trueCount, List.countP_pos_iff]
  rfl

end Clause

/-! ## Counts -/

theorem trueCount_congr {ls : List Lit} {σ τ : Valuation} (h : ∀ l ∈ ls, σ l.var = τ l.var) :
    trueCount ls σ = trueCount ls τ := by
  unfold trueCount
  exact List.countP_congr fun l hl => by rw [Lit.holds_congr (h l hl)]

theorem Cardinality.holds_congr {c : Cardinality} {σ τ : Valuation}
    (h : ∀ l ∈ c.lits, σ l.var = τ l.var) : c.Holds σ ↔ c.Holds τ := by
  have hc := trueCount_congr h
  cases c <;> simp only [Cardinality.Holds, Cardinality.lits] at hc ⊢ <;> rw [hc]

/-- One more input adds at most one to the count. -/
theorem trueCount_take_succ {ls : List Lit} {i : Nat} (h : i < ls.length) (τ : Valuation) :
    trueCount (ls.take (i + 1)) τ = trueCount (ls.take i) τ + (ls[i].holds τ).toNat := by
  rw [List.take_succ_eq_append_getElem h, trueCount_append, trueCount_cons, trueCount_nil]
  omega

end Clausal
