import Clausal.Encoding.Pairwise
import Clausal.Proofs.Agreement

/-!
# What the pairwise clauses say

The pairwise clauses of a list hold if and only if at most one position of the list is true, so a
literal that is listed twice has to be false. They are over the listed variables alone.
-/

namespace Clausal.Pairwise

variable {τ : Valuation}

theorem trueCount_eq_zero_iff {ls : List Lit} :
    trueCount ls τ = 0 ↔ ∀ l ∈ ls, l.holds τ = false := by
  unfold trueCount
  rw [List.countP_eq_zero]
  simp

/-- The clauses of the first position exclude every later one. -/
theorem head_hold_iff (l : Lit) (ls : List Lit) :
    (∀ c ∈ ls.map fun m => Clause.implies l m.negate, c.Holds τ) ↔
      (l.holds τ → trueCount ls τ = 0) := by
  rw [trueCount_eq_zero_iff, List.forall_mem_map]
  simp only [Clause.holds_implies, Lit.holds_negate, Bool.not_eq_true']
  exact ⟨fun h hl m hm => h m hm hl, fun h m hm hl => h hl m hm⟩

theorem clauses_hold_iff (ls : List Lit) :
    (∀ c ∈ clauses ls, c.Holds τ) ↔ trueCount ls τ ≤ 1 := by
  induction ls with
  | nil => simp [clauses]
  | cons l ls ih =>
    rw [clauses, List.forall_mem_append, head_hold_iff, ih, trueCount_cons]
    cases l.holds τ
    · simp
    · simp only [forall_const, Bool.toNat_true]
      omega

theorem clauses_vars {P : Var → Prop} {ls : List Lit} (h : ∀ l ∈ ls, P l.var) :
    ∀ c ∈ clauses ls, ∀ l ∈ c.lits, P l.var := by
  induction ls with
  | nil => simp [clauses]
  | cons l ls ih =>
    obtain ⟨hl, hls⟩ := List.forall_mem_cons.mp h
    rw [clauses, List.forall_mem_append, List.forall_mem_map]
    refine ⟨fun m hm => ?_, ih hls⟩
    simp only [Clause.implies, List.forall_mem_cons, List.not_mem_nil, false_implies, implies_true,
      and_true, Lit.var_negate]
    exact ⟨hl, hls m hm⟩

end Clausal.Pairwise
