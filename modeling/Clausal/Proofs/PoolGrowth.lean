import Clausal.Model.Basic
import Mathlib.Data.Nat.Init

/-!
# How a pool grows

The operations of a pool in closed form. Fresh variables are the `block` above the used ones, taken
at once or row by row; covering literals moves the first free index up to `reach`, the least index
above the used variables and those of the literals. Both succeed exactly if the new first free index
is usable.
-/

namespace Clausal

/-! ## Results of calls -/

theorem bind_ok_iff {ε α β : Type} {x : Except ε α} {f : α → Except ε β} {b : β} :
    x >>= f = .ok b ↔ ∃ a, x = .ok a ∧ f a = .ok b := by
  cases x with
  | error e => simp [bind, Except.bind]
  | ok a => simp [bind, Except.bind]

theorem map_ok_iff {ε α β : Type} {x : Except ε α} {f : α → β} {b : β} :
    x.map f = .ok b ↔ ∃ a, x = .ok a ∧ f a = b := by
  cases x with
  | error e => simp [Except.map]
  | ok a => simp [Except.map]

theorem bind_error_iff {ε α β : Type} {x : Except ε α} {f : α → Except ε β} {e : ε} :
    x >>= f = .error e ↔ x = .error e ∨ ∃ a, x = .ok a ∧ f a = .error e := by
  cases x with
  | error e => simp [bind, Except.bind]
  | ok a => simp [bind, Except.bind]

theorem map_error_iff {ε α β : Type} {x : Except ε α} {f : α → β} {e : ε} :
    x.map f = .error e ↔ x = .error e := by
  cases x with
  | error e => simp [Except.map]
  | ok a => simp [Except.map]

/-! ## Reach -/

/-- The least number that is at least `n` and above the index of each literal. -/
def reach (n : Nat) (ls : List Lit) : Nat := ls.foldl (fun n l => max n (l.index + 1)) n

@[simp] theorem reach_nil (n : Nat) : reach n [] = n := rfl

@[simp] theorem reach_cons (n : Nat) (l : Lit) (ls : List Lit) :
    reach n (l :: ls) = reach (max n (l.index + 1)) ls := rfl

theorem reach_append (n : Nat) (ls ms : List Lit) : reach n (ls ++ ms) = reach (reach n ls) ms :=
  List.foldl_append

theorem reach_le_iff {n k : Nat} {ls : List Lit} :
    reach n ls ≤ k ↔ n ≤ k ∧ ∀ l ∈ ls, l.index < k := by
  induction ls generalizing n with
  | nil => simp
  | cons l ls ih =>
    rw [reach_cons, ih, List.forall_mem_cons, Nat.max_le]
    exact and_assoc

theorem le_reach (n : Nat) (ls : List Lit) : n ≤ reach n ls :=
  (reach_le_iff.mp (Nat.le_refl _)).1

theorem index_lt_reach {n : Nat} {l : Lit} {ls : List Lit} (h : l ∈ ls) : l.index < reach n ls :=
  (reach_le_iff.mp (Nat.le_refl _)).2 l h

/-- Literals below the first free index move nothing. -/
theorem reach_eq_self {n : Nat} {ls : List Lit} (h : ∀ l ∈ ls, l.index < n) : reach n ls = n :=
  Nat.le_antisymm (reach_le_iff.mpr ⟨Nat.le_refl n, h⟩) (le_reach n ls)

namespace VarPool

/-! ## Fresh variables -/

/-- The next `n` variables of a pool. -/
def block (p : VarPool) (n : Nat) : List Var := (List.range n).map fun i => ⟨p.used + i⟩

theorem mem_block {p : VarPool} {n : Nat} {v : Var} :
    v ∈ p.block n ↔ p.used ≤ v.index ∧ v.index < p.used + n := by
  unfold block
  rw [List.mem_map]
  constructor
  · rintro ⟨i, hi, rfl⟩
    have := List.mem_range.mp hi
    exact ⟨Nat.le_add_right _ _, by simp only; omega⟩
  · rintro ⟨h1, h2⟩
    refine ⟨v.index - p.used, List.mem_range.mpr (by omega), ?_⟩
    rw [Nat.add_sub_cancel' h1]

theorem getElem?_block {p : VarPool} {n i : Nat} (h : i < n) :
    (p.block n)[i]? = some ⟨p.used + i⟩ := by
  simp [block, h]

theorem length_block (p : VarPool) (n : Nat) : (p.block n).length = n := by simp [block]

theorem block_rising (p : VarPool) (n : Nat) :
    (p.block n).Pairwise fun v w => v.index < w.index := by
  unfold block
  rw [List.pairwise_map]
  exact List.pairwise_lt_range.imp fun h => Nat.add_lt_add_left h p.used

theorem freshMany_ok {p q : VarPool} {n : Nat} {vs : List Var} (h : p.freshMany n = .ok (vs, q)) :
    (n = 0 ∨ p.used + n ≤ Var.maxIndex) ∧ vs = p.block n ∧ q = ⟨⟨p.used + n⟩⟩ := by
  unfold freshMany at h
  split at h
  · next hn =>
    injection h with h
    injection h with hv hq
    exact ⟨hn, hv.symm, hq.symm⟩
  · cases h

theorem block_add (p : VarPool) (m n : Nat) :
    p.block (m + n) = p.block m ++ (⟨⟨p.used + m⟩⟩ : VarPool).block n := by
  have hq : (⟨⟨p.used + m⟩⟩ : VarPool).used = p.used + m := rfl
  unfold block
  rw [List.range_add, List.map_append, List.map_map, hq]
  simp only [Function.comp_def, Nat.add_assoc]

/-- Taking many variables in two goes gives the same as taking them at once. -/
theorem freshMany_add_ok_iff {p : VarPool} {m n : Nat} {x : List Var × VarPool} :
    p.freshMany (m + n) = .ok x ↔ ∃ vs q ws r, p.freshMany m = .ok (vs, q) ∧
      q.freshMany n = .ok (ws, r) ∧ (vs ++ ws, r) = x := by
  have hq : (⟨⟨p.used + m⟩⟩ : VarPool).used = p.used + m := rfl
  constructor
  · intro h
    obtain ⟨vs, q⟩ := x
    obtain ⟨hroom, rfl, rfl⟩ := freshMany_ok h
    refine ⟨p.block m, ⟨⟨p.used + m⟩⟩, _, ⟨⟨p.used + m + n⟩⟩, if_pos (by omega),
      if_pos (by rw [hq]; omega), ?_⟩
    rw [block_add, Nat.add_assoc]
    rfl
  · rintro ⟨vs, q, ws, r, hm, hn, rfl⟩
    obtain ⟨hroom, rfl, rfl⟩ := freshMany_ok hm
    obtain ⟨hroom', rfl, rfl⟩ := freshMany_ok hn
    rw [hq] at hroom'
    rw [← block_add, hq, Nat.add_assoc]
    exact if_pos (by omega)

/-- Variables that are taken row by row are one block. -/
theorem freshRows_ok_iff {p : VarPool} {rows n : Nat} {x : List Var × VarPool} :
    p.freshRows rows n = .ok x ↔ p.freshMany (rows * n) = .ok x := by
  induction rows generalizing p x with
  | zero =>
    rw [Nat.zero_mul, freshMany_zero]
    rfl
  | succ rows ih =>
    rw [Nat.succ_mul, Nat.add_comm (rows * n) n, freshMany_add_ok_iff]
    show (p.freshMany n >>= fun y => y.2.freshRows rows n >>= fun z =>
      .ok (y.1 ++ z.1, z.2)) = _ ↔ _
    simp only [bind_ok_iff, Prod.exists, ih]
    constructor
    · rintro ⟨vs, q, hm, ws, r, hn, h⟩
      exact ⟨vs, q, ws, r, hm, hn, Except.ok.inj h⟩
    · rintro ⟨vs, q, ws, r, hm, hn, rfl⟩
      exact ⟨vs, q, hm, ws, r, hn, rfl⟩

/-- Rows that fit are one block from the first free variable on. -/
theorem freshRows_eq_ok (p : VarPool) {rows n : Nat} (h : p.used + rows * n ≤ Var.maxIndex) :
    p.freshRows rows n = .ok (p.block (rows * n), ⟨⟨p.used + rows * n⟩⟩) :=
  freshRows_ok_iff.mpr (p.freshMany_eq_ok _ h)

theorem fresh_ok {p q : VarPool} {v : Var} (h : p.fresh = .ok (v, q)) :
    p.used < Var.maxIndex ∧ v = ⟨p.used⟩ ∧ q = ⟨⟨p.used + 1⟩⟩ := by
  by_cases hp : p.used < Var.maxIndex
  · rw [p.fresh_eq_ok hp] at h
    injection h with h
    injection h with hv hq
    exact ⟨hp, hv.symm, hq.symm⟩
  · rw [p.fresh_eq_error (by omega)] at h
    cases h

/-! ## Used variables -/

theorem advance_eq (p : VarPool) (v : Var) :
    p.advance v = (decide (p.used < v.index), ⟨⟨max p.used v.index⟩⟩) := by
  unfold advance used
  split
  · next h => rw [Nat.max_eq_right (Nat.le_of_lt h), decide_eq_true h]
  · next h => rw [Nat.max_eq_left (by omega), decide_eq_false h]

theorem advance_used (p : VarPool) (v : Var) : (p.advance v).2.used = max p.used v.index := by
  rw [advance_eq]
  rfl

theorem markUsed_ok {p q : VarPool} {v : Var} {b : Bool} (h : p.markUsed v = .ok (b, q)) :
    v.index < Var.maxIndex ∧ q.used = max p.used (v.index + 1) := by
  unfold markUsed Var.add Var.new at h
  split at h
  · next w hw =>
    split at hw
    · split at hw
      · next hle =>
        injection hw with hw
        injection h with h
        have hq : q = (p.advance w).2 := by rw [h]
        rw [hq, advance_used, ← hw]
        exact ⟨hle, rfl⟩
      · cases hw
    · cases hw
  · cases h

theorem markUsed_eq_ok {p : VarPool} {v : Var} (h : v.index < Var.maxIndex) :
    p.markUsed v = .ok (p.advance ⟨v.index + 1⟩) := by
  have h32 : v.index + 1 < 4294967296 := by rw [Var.maxIndex] at h; omega
  have hmax : v.index + 1 ≤ Var.maxIndex := h
  unfold markUsed Var.add Var.new
  rw [if_pos h32, if_pos hmax]

/-- The highest variable of a list of literals, in numbers. -/
theorem max_index_foldl (v : Var) (n : Nat) (ls : List Lit) :
    max n ((ls.foldl (fun v m => v.max m.var) v).index + 1) = reach (max n (v.index + 1)) ls := by
  induction ls generalizing v with
  | nil => rfl
  | cons m ls ih =>
    rw [List.foldl_cons, ih, reach_cons]
    congr 1
    show max n (max v.index m.index + 1) = max (max n (v.index + 1)) (m.index + 1)
    omega

/-- Covering literals succeeds if none of them is over the highest variable. -/
theorem cover_ok_iff {p q : VarPool} {ls : List Lit} :
    p.cover ls = .ok q ↔ (∀ l ∈ ls, l.index < Var.maxIndex) ∧ q = ⟨⟨reach p.used ls⟩⟩ := by
  cases ls with
  | nil =>
    constructor
    · intro h
      injection h with h
      exact ⟨by simp, h.symm⟩
    · rintro ⟨-, rfl⟩
      rfl
  | cons l ls =>
    have hcover : p.cover (l :: ls) =
        (p.markUsed (ls.foldl (fun v m => v.max m.var) l.var)).map (·.2) := rfl
    have hreach : max p.used ((ls.foldl (fun v m => v.max m.var) l.var).index + 1) =
        reach p.used (l :: ls) := max_index_foldl l.var p.used ls
    have hlt : (ls.foldl (fun v m => v.max m.var) l.var).index < Var.maxIndex ↔
        ∀ m ∈ l :: ls, m.index < Var.maxIndex := by
      have h0 := max_index_foldl l.var 0 ls
      rw [Nat.zero_max, Nat.zero_max] at h0
      rw [← Nat.succ_le_iff, Nat.succ_eq_add_one, h0, reach_le_iff, List.forall_mem_cons]
      rfl
    rw [hcover, ← hreach, ← hlt, map_ok_iff]
    generalize ls.foldl (fun v m => v.max m.var) l.var = w
    constructor
    · rintro ⟨⟨b, q'⟩, hm, rfl⟩
      obtain ⟨hw, hq⟩ := markUsed_ok hm
      exact ⟨hw, congrArg (fun n => (⟨⟨n⟩⟩ : VarPool)) hq⟩
    · rintro ⟨hw, rfl⟩
      exact ⟨_, markUsed_eq_ok hw, congrArg (fun n => (⟨⟨n⟩⟩ : VarPool)) (p.advance_used _)⟩

/-- Covering clauses one after the other covers all their literals. -/
theorem coverClauses_ok_iff {p q : VarPool} {cs : List Clause} :
    p.coverClauses cs = .ok q ↔
      (∀ c ∈ cs, ∀ l ∈ c.lits, l.index < Var.maxIndex) ∧
        q = ⟨⟨reach p.used (cs.flatMap Clause.lits)⟩⟩ := by
  induction cs generalizing p with
  | nil =>
    constructor
    · intro h
      injection h with h
      exact ⟨by simp, h.symm⟩
    · rintro ⟨-, rfl⟩
      rfl
  | cons c cs ih =>
    have hstep : p.coverClauses (c :: cs) = p.cover c.lits >>= fun p => p.coverClauses cs := rfl
    rw [hstep, List.flatMap_cons, reach_append, List.forall_mem_cons, bind_ok_iff]
    constructor
    · rintro ⟨p', hc, h⟩
      obtain ⟨hlt, rfl⟩ := cover_ok_iff.mp hc
      obtain ⟨hlts, hq⟩ := ih.mp h
      exact ⟨⟨hlt, hlts⟩, hq⟩
    · rintro ⟨⟨hlt, hlts⟩, hq⟩
      exact ⟨_, cover_ok_iff.mpr ⟨hlt, rfl⟩, ih.mpr ⟨hlts, hq⟩⟩

end VarPool

/-- The reach of literals is one more than their highest variable. -/
theorem reach_eq_maxVar (n : Nat) (ls : List Lit) :
    reach n ls = (maxVar? ls).elim n fun v => max n (v.index + 1) := by
  cases ls with
  | nil => rfl
  | cons l ls => exact (VarPool.max_index_foldl l.var n ls).symm

end Clausal
