import Clausal.Truth
import Mathlib.Data.Nat.Init

/-!
# Counts under open assignments

An assignment that leaves literals open bounds the number of true ones from both sides: the sure
literals are true, the possible ones are at least not false. Deciding more variables moves the two
bounds towards each other, so a cardinality constraint that has a value keeps it
(`eval_of_refines`).
-/

namespace Clausal

/-! ## The two bounds -/

/-- The number of literals that are true. -/
def sureCount (ls : List Lit) (a : Assignment) : Nat := Cardinality.count .true ls a

/-- The number of literals that are not false. -/
def possibleCount (ls : List Lit) (a : Assignment) : Nat :=
  sureCount ls a + Cardinality.count .dontCare ls a

variable {a b : Assignment} {ls : List Lit}

@[simp] theorem possibleCount_nil : possibleCount [] a = 0 := rfl

theorem possibleCount_cons (l : Lit) : possibleCount (l :: ls) a =
    possibleCount ls a + if a.litValue l = .false then 0 else 1 := by
  unfold possibleCount sureCount Cardinality.count
  rw [List.countP_cons, List.countP_cons]
  cases h : a.litValue l <;> simp <;> omega

theorem sureCount_cons (l : Lit) :
    sureCount (l :: ls) a = sureCount ls a + if a.litValue l = .true then 1 else 0 := by
  unfold sureCount Cardinality.count
  rw [List.countP_cons]
  simp

theorem sureCount_le_possibleCount (ls : List Lit) (a : Assignment) :
    sureCount ls a ≤ possibleCount ls a := Nat.le_add_right _ _

theorem sureCount_pos_iff : 0 < sureCount ls a ↔ ∃ l ∈ ls, a.litValue l = .true := by
  unfold sureCount Cardinality.count
  rw [List.countP_pos_iff]
  simp

theorem possibleCount_eq_zero_iff : possibleCount ls a = 0 ↔ ∀ l ∈ ls, a.litValue l = .false := by
  induction ls with
  | nil => simp
  | cons l ls ih =>
    rw [possibleCount_cons, List.forall_mem_cons, ← ih]
    by_cases h : a.litValue l = .false
    · simp [h]
    · simp [h]

/-- One more literal of a list is counted if it is true. -/
theorem sureCount_take_succ {i : Nat} (h : i < ls.length) : sureCount (ls.take (i + 1)) a =
    sureCount (ls.take i) a + if a.litValue ls[i] = .true then 1 else 0 := by
  rw [List.take_succ_eq_append_getElem h]
  unfold sureCount Cardinality.count
  rw [List.countP_append]
  simp [List.countP_cons]

/-! ## Values of constraints -/

namespace Cardinality

theorem eval_atMostOne_eq_true_iff : (atMostOne ls).eval a = .true ↔ possibleCount ls a ≤ 1 := by
  have hle := sureCount_le_possibleCount ls a
  show (if 1 < sureCount ls a then Ternary.false
    else if possibleCount ls a ≤ 1 then .true else .dontCare) = .true ↔ _
  split
  · simp only [reduceCtorEq, false_iff]
    omega
  · split <;> simp [*]

theorem eval_atMostOne_eq_false_iff : (atMostOne ls).eval a = .false ↔ 1 < sureCount ls a := by
  show (if 1 < sureCount ls a then Ternary.false
    else if possibleCount ls a ≤ 1 then .true else .dontCare) = .false ↔ _
  split
  · simp [*]
  · split <;> simp [*]

theorem eval_atLeast_eq_true_iff {k : Nat} :
    (atLeast ls k).eval a = .true ↔ k ≤ sureCount ls a := by
  show (if k ≤ sureCount ls a then Ternary.true
    else if possibleCount ls a < k then .false else .dontCare) = .true ↔ _
  split
  · simp [*]
  · split <;> simp [*]

theorem eval_atLeast_eq_false_iff {k : Nat} :
    (atLeast ls k).eval a = .false ↔ possibleCount ls a < k := by
  have hle := sureCount_le_possibleCount ls a
  show (if k ≤ sureCount ls a then Ternary.true
    else if possibleCount ls a < k then .false else .dontCare) = .false ↔ _
  split
  · simp only [reduceCtorEq, false_iff]
    omega
  · split <;> simp [*]

end Cardinality

/-! ## Deciding more variables -/

namespace Assignment

/-- A decided literal keeps its value. -/
theorem Refines.litValue_eq (h : b.Refines a) {l : Lit} (hl : a.litValue l ≠ .dontCare) :
    b.litValue l = a.litValue l := by
  have hv : a.value l.var ≠ .dontCare := mt (litValue_eq_dontCare_iff a l).mpr hl
  unfold litValue
  rw [h l.var l.index_le hv]

theorem Refines.sureCount_le (h : b.Refines a) (ls : List Lit) :
    sureCount ls a ≤ sureCount ls b := by
  refine List.countP_mono_left fun l _ hl => ?_
  have hl : a.litValue l = .true := of_decide_eq_true hl
  rw [h.litValue_eq (by simp [hl]), hl]
  rfl

theorem Refines.possibleCount_le (h : b.Refines a) (ls : List Lit) :
    possibleCount ls b ≤ possibleCount ls a := by
  induction ls with
  | nil => exact Nat.le_refl _
  | cons l ls ih =>
    rw [possibleCount_cons, possibleCount_cons]
    by_cases hl : a.litValue l = .false
    · have hb : b.litValue l = .false := by rw [h.litValue_eq (by simp [hl]), hl]
      rw [if_pos hl, if_pos hb]
      exact ih
    · rw [if_neg hl]
      split <;> omega

end Assignment

/-- A constraint that has a value keeps it when more variables are decided. -/
theorem Cardinality.eval_of_refines {c : Cardinality} (h : b.Refines a)
    (hc : c.eval a ≠ .dontCare) : c.eval b = c.eval a := by
  have hsure := h.sureCount_le c.lits
  have hpossible := h.possibleCount_le c.lits
  cases hv : c.eval a with
  | dontCare => exact absurd hv hc
  | true =>
    cases c with
    | atMostOne ls =>
      rw [eval_atMostOne_eq_true_iff] at hv ⊢
      exact Nat.le_trans hpossible hv
    | atLeast ls k =>
      rw [eval_atLeast_eq_true_iff] at hv ⊢
      exact Nat.le_trans hv hsure
  | false =>
    cases c with
    | atMostOne ls =>
      rw [eval_atMostOne_eq_false_iff] at hv ⊢
      exact Nat.lt_of_lt_of_le hv hsure
    | atLeast ls k =>
      rw [eval_atLeast_eq_false_iff] at hv ⊢
      exact Nat.lt_of_le_of_lt hpossible hv

end Clausal
