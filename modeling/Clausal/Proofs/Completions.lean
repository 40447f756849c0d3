import Clausal.Proofs.Agreement
import Clausal.Proofs.DecidedValues
import Mathlib.Data.List.Nodup

/-!
# Completions of open assignments

The number of true literals under a completion lies between the number of sure ones and the number
of possible ones, so a constraint that has a value under an open assignment has it under every
completion, whatever its literals are. Over distinct variables both bounds are attained: one
completion makes all open literals true and another makes all of them false. There the value is open
exactly if the completions disagree, and the constraints that hold or fail by the number of their
literals alone are those that hold or fail under every assignment (`eval_exact`).
-/

namespace Clausal

variable {a : Assignment} {ls : List Lit} {τ : Valuation}

/-! ## Between the bounds -/

/-- The literals that are not false are the possible ones. -/
theorem possibleCount_eq_countP (ls : List Lit) (a : Assignment) :
    possibleCount ls a = ls.countP fun l => a.litValue l ≠ .false := by
  induction ls with
  | nil => rfl
  | cons l ls ih =>
    rw [possibleCount_cons, List.countP_cons, ih]
    by_cases h : a.litValue l = .false <;> simp [h]

namespace Assignment.CompletedBy

theorem sureCount_le (h : a.CompletedBy τ) (ls : List Lit) : sureCount ls a ≤ trueCount ls τ := by
  refine List.countP_mono_left fun l _ hl => ?_
  have hl : a.litValue l = .true := of_decide_eq_true hl
  have hdecided : a.value l.var ≠ .dontCare := by
    rw [ne_eq, ← litValue_eq_dontCare_iff, hl]
    exact nofun
  exact (h.litValue_eq_true_iff hdecided).mp hl

theorem le_possibleCount (h : a.CompletedBy τ) (ls : List Lit) :
    trueCount ls τ ≤ possibleCount ls a := by
  rw [possibleCount_eq_countP]
  refine List.countP_mono_left fun l _ hl => ?_
  apply decide_eq_true
  intro hfalse
  have hdecided : a.value l.var ≠ .dontCare := by
    rw [ne_eq, ← litValue_eq_dontCare_iff, hfalse]
    exact nofun
  rw [(h.litValue_eq_false_iff hdecided).mp hfalse] at hl
  cases hl

end Assignment.CompletedBy

namespace Cardinality

variable {c : Cardinality}

theorem holds_of_eval_eq_true (h : a.CompletedBy τ) (hc : c.eval a = .true) : c.Holds τ := by
  cases c with
  | atMostOne ls =>
    exact Nat.le_trans (h.le_possibleCount ls) (eval_atMostOne_eq_true_iff.mp hc)
  | atLeast ls k => exact Nat.le_trans (eval_atLeast_eq_true_iff.mp hc) (h.sureCount_le ls)

theorem not_holds_of_eval_eq_false (h : a.CompletedBy τ) (hc : c.eval a = .false) :
    ¬ c.Holds τ := by
  cases c with
  | atMostOne ls =>
    exact Nat.not_le.mpr (Nat.lt_of_lt_of_le (eval_atMostOne_eq_false_iff.mp hc) (h.sureCount_le ls))
  | atLeast ls k =>
    exact Nat.not_le.mpr
      (Nat.lt_of_le_of_lt (h.le_possibleCount ls) (eval_atLeast_eq_false_iff.mp hc))

end Cardinality

/-! ## Completions at the bounds -/

namespace Assignment

/-- The completion that makes an open variable true if a literal of the list is that variable, and
false otherwise. -/
def favouring (a : Assignment) (ls : List Lit) : Valuation := fun v =>
  (a.value v).getD (ls.any fun l => l.var = v ∧ l.isNeg = false)

theorem completedBy_favouring (a : Assignment) (ls : List Lit) :
    a.CompletedBy (a.favouring ls) := a.completedBy_getD _

/-- Over distinct variables no other literal of the list stands against an open one. -/
theorem holds_favouring (hd : (ls.map Lit.var).Nodup) {l : Lit} (hl : l ∈ ls)
    (hopen : a.value l.var = .dontCare) : l.holds (a.favouring ls) = true := by
  have hfav : a.favouring ls l.var = !l.isNeg := by
    unfold favouring
    rw [hopen, Bool.eq_iff_iff]
    show (ls.any fun m => decide (m.var = l.var ∧ m.isNeg = false)) = true ↔ _
    simp only [List.any_eq_true, decide_eq_true_eq, Bool.not_eq_true']
    constructor
    · rintro ⟨m, hm, hvar, hpos⟩
      rwa [← List.inj_on_of_nodup_map hd hm hl hvar]
    · intro hpos
      exact ⟨l, hl, rfl, hpos⟩
  rw [Lit.holds, hfav]
  cases l.isNeg <;> rfl

/-- Some completion makes every open literal true. -/
theorem exists_trueCount_eq_possibleCount (a : Assignment) (hd : (ls.map Lit.var).Nodup) :
    ∃ τ, a.CompletedBy τ ∧ trueCount ls τ = possibleCount ls a := by
  have hcompl := a.completedBy_favouring ls
  refine ⟨a.favouring ls, hcompl, ?_⟩
  rw [possibleCount_eq_countP]
  refine List.countP_congr fun l hl => ?_
  rw [decide_eq_true_eq]
  by_cases hopen : a.value l.var = .dontCare
  · simp [holds_favouring hd hl hopen, (a.litValue_eq_dontCare_iff l).mpr hopen]
  · rw [ne_eq, hcompl.litValue_eq_false_iff hopen, Bool.not_eq_false]

/-- Some completion makes every open literal false. -/
theorem exists_trueCount_eq_sureCount (a : Assignment) (hd : (ls.map Lit.var).Nodup) :
    ∃ τ, a.CompletedBy τ ∧ trueCount ls τ = sureCount ls a := by
  have hcompl := a.completedBy_favouring (ls.map Lit.negate)
  have hdneg : ((ls.map Lit.negate).map Lit.var).Nodup := by
    rw [List.map_map]
    have hvar : Lit.var ∘ Lit.negate = Lit.var := funext Lit.var_negate
    rwa [hvar]
  refine ⟨a.favouring (ls.map Lit.negate), hcompl, ?_⟩
  refine List.countP_congr fun l hl => ?_
  rw [decide_eq_true_eq]
  by_cases hopen : a.value l.var = .dontCare
  · have hneg := holds_favouring hdneg (List.mem_map_of_mem hl) (by rwa [Lit.var_negate])
    rw [Lit.holds_negate, Bool.not_eq_true'] at hneg
    simp [hneg, (a.litValue_eq_dontCare_iff l).mpr hopen]
  · exact (hcompl.litValue_eq_true_iff hopen).symm

end Assignment

/-! ## Values are exact -/

namespace Cardinality

variable {c : Cardinality}

theorem eval_eq_true_of_forall (hd : (c.lits.map Lit.var).Nodup)
    (h : ∀ τ, a.CompletedBy τ → c.Holds τ) : c.eval a = .true := by
  cases c with
  | atMostOne ls =>
    obtain ⟨τ, hτ, hcount⟩ := a.exists_trueCount_eq_possibleCount hd
    exact eval_atMostOne_eq_true_iff.mpr (hcount ▸ h τ hτ)
  | atLeast ls k =>
    obtain ⟨τ, hτ, hcount⟩ := a.exists_trueCount_eq_sureCount hd
    exact eval_atLeast_eq_true_iff.mpr (hcount ▸ h τ hτ)

theorem eval_eq_false_of_forall (hd : (c.lits.map Lit.var).Nodup)
    (h : ∀ τ, a.CompletedBy τ → ¬ c.Holds τ) : c.eval a = .false := by
  cases c with
  | atMostOne ls =>
    obtain ⟨τ, hτ, hcount⟩ := a.exists_trueCount_eq_sureCount hd
    exact eval_atMostOne_eq_false_iff.mpr (hcount ▸ Nat.not_le.mp (h τ hτ))
  | atLeast ls k =>
    obtain ⟨τ, hτ, hcount⟩ := a.exists_trueCount_eq_possibleCount hd
    exact eval_atLeast_eq_false_iff.mpr (hcount ▸ Nat.not_le.mp (h τ hτ))

/-- A value is open if it is neither true nor false. -/
theorem eval_eq_dontCare_iff : c.eval a = .dontCare ↔ c.eval a ≠ .true ∧ c.eval a ≠ .false := by
  cases c.eval a <;> simp

/-! ## Values without any decision -/

theorem completedBy_empty (τ : Valuation) : Assignment.empty.CompletedBy τ :=
  fun _ hv => absurd rfl hv

theorem litValue_empty (l : Lit) : Assignment.empty.litValue l = .dontCare :=
  (Assignment.empty.litValue_eq_dontCare_iff l).mpr rfl

theorem sureCount_empty (ls : List Lit) : sureCount ls .empty = 0 :=
  List.countP_eq_zero.mpr fun l _ => by simp [litValue_empty]

theorem possibleCount_empty (ls : List Lit) : possibleCount ls .empty = ls.length := by
  rw [possibleCount_eq_countP, List.countP_eq_length]
  simp [litValue_empty]

theorem isTautology_iff : c.isTautology = true ↔ c.eval .empty = .true := by
  cases c with
  | atMostOne ls =>
    rw [eval_atMostOne_eq_true_iff, possibleCount_empty]
    exact decide_eq_true_iff
  | atLeast ls k =>
    rw [eval_atLeast_eq_true_iff, sureCount_empty, Nat.le_zero]
    exact beq_iff_eq

theorem isUnsat_iff : c.isUnsat = true ↔ c.eval .empty = .false := by
  cases c with
  | atMostOne ls =>
    rw [eval_atMostOne_eq_false_iff, sureCount_empty]
    simp [isUnsat]
  | atLeast ls k =>
    rw [eval_atLeast_eq_false_iff, possibleCount_empty]
    exact decide_eq_true_iff

/-- A value that is not open is right under every completion, and so are the answers by number alone.
Over distinct variables the value is true or false exactly if all completions agree on that, it is open
exactly if two of them disagree, and the answers by number alone miss no constraint. -/
theorem eval_exact (c : Cardinality) (a : Assignment) :
    (c.eval a = .true → ∀ τ, a.CompletedBy τ → c.Holds τ) ∧
    (c.eval a = .false → ∀ τ, a.CompletedBy τ → ¬ c.Holds τ) ∧
    (c.isTautology = true → ∀ τ, c.Holds τ) ∧
    (c.isUnsat = true → ∀ τ, ¬ c.Holds τ) ∧
    ((c.lits.map Lit.var).Nodup →
      (c.eval a = .true ↔ ∀ τ, a.CompletedBy τ → c.Holds τ) ∧
      (c.eval a = .false ↔ ∀ τ, a.CompletedBy τ → ¬ c.Holds τ) ∧
      (c.eval a = .dontCare ↔
        (∃ τ, a.CompletedBy τ ∧ c.Holds τ) ∧ ∃ τ, a.CompletedBy τ ∧ ¬ c.Holds τ) ∧
      (c.isTautology = true ↔ ∀ τ, c.Holds τ) ∧
      (c.isUnsat = true ↔ ∀ τ, ¬ c.Holds τ)) := by
  have htrue : ∀ b : Assignment, c.eval b = .true → ∀ τ, b.CompletedBy τ → c.Holds τ :=
    fun _ h _ hτ => holds_of_eval_eq_true hτ h
  have hfalse : ∀ b : Assignment, c.eval b = .false → ∀ τ, b.CompletedBy τ → ¬ c.Holds τ :=
    fun _ h _ hτ => not_holds_of_eval_eq_false hτ h
  have htaut : c.isTautology = true → ∀ τ, c.Holds τ :=
    fun h τ => htrue .empty (isTautology_iff.mp h) τ (completedBy_empty τ)
  have hunsat : c.isUnsat = true → ∀ τ, ¬ c.Holds τ :=
    fun h τ => hfalse .empty (isUnsat_iff.mp h) τ (completedBy_empty τ)
  refine ⟨htrue a, hfalse a, htaut, hunsat, fun hd => ?_⟩
  have hall : c.eval a = .true ↔ ∀ τ, a.CompletedBy τ → c.Holds τ :=
    ⟨htrue a, eval_eq_true_of_forall hd⟩
  have hnone : c.eval a = .false ↔ ∀ τ, a.CompletedBy τ → ¬ c.Holds τ :=
    ⟨hfalse a, eval_eq_false_of_forall hd⟩
  refine ⟨hall, hnone, ?_, ⟨htaut, fun h => ?_⟩, ⟨hunsat, fun h => ?_⟩⟩
  · rw [eval_eq_dontCare_iff, ne_eq, hall, ne_eq, hnone]
    push Not
    exact and_comm
  · exact isTautology_iff.mpr (eval_eq_true_of_forall hd fun τ _ => h τ)
  · exact isUnsat_iff.mpr (eval_eq_false_of_forall hd fun τ _ => h τ)

/-- One of three inputs is true, one is negated and open, and one lies beyond the assignment. -/
theorem eval_exact_open :
    let a := Assignment.ofValues [.true, .dontCare]
    let ls := [Var.pos ⟨0⟩, Var.neg ⟨1⟩, Var.pos ⟨7⟩]
    (ls.map Lit.var).Nodup ∧ (atLeast ls 2).eval a = .dontCare ∧
      (∃ τ, a.CompletedBy τ ∧ (atLeast ls 2).Holds τ) ∧
      (∃ τ, a.CompletedBy τ ∧ ¬ (atLeast ls 2).Holds τ) ∧
      (∀ τ, a.CompletedBy τ → (atLeast ls 1).Holds τ) ∧ ∀ τ, ¬ (atLeast ls 4).Holds τ := by
  intro a ls
  have hd : (ls.map Lit.var).Nodup := by decide
  have hopen : (atLeast ls 2).eval a = .dontCare := rfl
  obtain ⟨-, -, -, -, hexact⟩ := eval_exact (atLeast ls 2) a
  obtain ⟨hsome, hother⟩ := (hexact hd).2.2.1.mp hopen
  exact ⟨hd, hopen, hsome, hother, (eval_exact (atLeast ls 1) a).1 rfl,
    (eval_exact (atLeast ls 4) a).2.2.2.1 rfl⟩

end Cardinality

end Clausal
