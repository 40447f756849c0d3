import Clausal.Encoding.SequentialCounter
import Clausal.Proofs.Agreement

/-!
# What the clauses of a counter say

Under a total assignment the clauses of a counter over `x 0, …, x (n - 1)` with bound `k` hold if
and only if the cell in row `j` and column `i` is true exactly when at least `j` of `x 0, …, x i`
are, and the bound is met (`clauses_hold_iff`).

The clauses are first read as rules on the cells (`Rules`). Column 0 counts one input, and the rules
carry the count from each column to the next, so one induction on the column gives every cell; in
the other direction each rule is a comparison of two neighbouring counts. Inputs may be repeated,
and they may even be cells: the equivalence is for one assignment and needs no fresh variables.
-/

namespace Clausal.SequentialCounter

variable {x : Nat → Lit} {y : Nat → Nat → Lit} {n k : Nat} {τ : Valuation}

/-! ## The clauses as rules -/

/-- A family of clauses by column and row has a property if each of its members does. -/
theorem forall_mem_family (P : Clause → Prop) (f : Nat → Nat → Clause) (n k : Nat) :
    (∀ c ∈ (List.range n).flatMap fun i => (List.range k).map fun j => f i j, P c) ↔
      ∀ i < n, ∀ j < k, P (f i j) := by
  constructor
  · intro h i hi j hj
    exact h _ (List.mem_flatMap.mpr
      ⟨i, List.mem_range.mpr hi, List.mem_map.mpr ⟨j, List.mem_range.mpr hj, rfl⟩⟩)
  · intro h c hc
    obtain ⟨i, hi, hc⟩ := List.mem_flatMap.mp hc
    obtain ⟨j, hj, rfl⟩ := List.mem_map.mp hc
    exact h i (List.mem_range.mp hi) j (List.mem_range.mp hj)

/-- All clauses of a counter have a property, family by family. -/
structure EachClause (P : Clause → Prop) (x : Nat → Lit) (y : Nat → Nat → Lit) (n k : Nat) :
    Prop where
  start : P (.unit (y 0 0))
  goal : P (.unit (y k (n - 1)))
  first : P (.implies (x 0) (y 1 0))
  firstOnly : P (.implies (y 1 0) (x 0))
  second : P (.refute (y 2 0))
  down : ∀ i < n, ∀ j < k, P (.implies (y (j + 1) i) (y j i))
  keep : ∀ i < n - 1, ∀ j < k + 1, P (.implies (y j i) (y j (i + 1)))
  bound : ∀ i < n - 1, ∀ j < k, P (.implies (y j i).negate (y (j + 1) (i + 1)).negate)
  raise : ∀ i < n - 1, ∀ j < k, P ⟨[(y j i).negate, (x (i + 1)).negate, y (j + 1) (i + 1)]⟩
  unraise : ∀ i < n - 1, ∀ j < k + 1, P ⟨[x (i + 1), y j i, (y j (i + 1)).negate]⟩

theorem forall_mem_clauses {P : Clause → Prop} :
    (∀ c ∈ clauses x y n k, P c) ↔ EachClause P x y n k := by
  simp only [clauses, boundary, downward, kept, bounded, raised, unraised, List.forall_mem_append,
    List.forall_mem_cons, List.not_mem_nil, false_implies, implies_true, and_true,
    forall_mem_family P]
  constructor
  · rintro ⟨⟨⟨⟨⟨⟨h0, hk, h1, h1', h2⟩, hd⟩, hkeep⟩, hb⟩, hr⟩, hu⟩
    exact ⟨h0, hk, h1, h1', h2, hd, hkeep, hb, hr, hu⟩
  · rintro ⟨h0, hk, h1, h1', h2, hd, hkeep, hb, hr, hu⟩
    exact ⟨⟨⟨⟨⟨⟨h0, hk, h1, h1', h2⟩, hd⟩, hkeep⟩, hb⟩, hr⟩, hu⟩

theorem holds_bound (a b : Lit) :
    (Clause.implies a.negate b.negate).Holds τ ↔ (b.holds τ → a.holds τ) := by
  rw [Clause.holds_implies, Lit.holds_negate, Lit.holds_negate]
  cases a.holds τ <;> simp

theorem holds_raise (a b c : Lit) :
    (⟨[a.negate, b.negate, c]⟩ : Clause).Holds τ ↔ (a.holds τ → b.holds τ → c.holds τ) := by
  cases ha : a.holds τ <;> cases hb : b.holds τ <;> simp [Clause.Holds, ha, hb]

theorem holds_unraise (a b c : Lit) :
    (⟨[a, b, c.negate]⟩ : Clause).Holds τ ↔ (c.holds τ → a.holds τ ∨ b.holds τ) := by
  cases hc : c.holds τ <;> simp [Clause.Holds, hc]

/-- The clauses of a counter, read as conditions on the inputs and the cells. -/
structure Rules (x : Nat → Lit) (y : Nat → Nat → Lit) (n k : Nat) (τ : Valuation) : Prop where
  start : (y 0 0).holds τ
  goal : (y k (n - 1)).holds τ
  first : (x 0).holds τ ↔ (y 1 0).holds τ
  second : (y 2 0).holds τ = false
  down : ∀ i < n, ∀ j < k, (y (j + 1) i).holds τ → (y j i).holds τ
  keep : ∀ i < n - 1, ∀ j < k + 1, (y j i).holds τ → (y j (i + 1)).holds τ
  bound : ∀ i < n - 1, ∀ j < k, (y (j + 1) (i + 1)).holds τ → (y j i).holds τ
  raise : ∀ i < n - 1, ∀ j < k,
    (y j i).holds τ → (x (i + 1)).holds τ → (y (j + 1) (i + 1)).holds τ
  unraise : ∀ i < n - 1, ∀ j < k + 1,
    (y j (i + 1)).holds τ → (x (i + 1)).holds τ ∨ (y j i).holds τ

/-- The clauses of a counter hold if and only if its rules do. -/
theorem clauses_iff_rules : (∀ c ∈ clauses x y n k, c.Holds τ) ↔ Rules x y n k τ := by
  rw [forall_mem_clauses (P := (Clause.Holds · τ))]
  constructor
  · intro h
    exact {
      start := (Clause.holds_unit _).mp h.start
      goal := (Clause.holds_unit _).mp h.goal
      first := ⟨(Clause.holds_implies _ _).mp h.first, (Clause.holds_implies _ _).mp h.firstOnly⟩
      second := (Clause.holds_refute _).mp h.second
      down := fun i hi j hj => (Clause.holds_implies _ _).mp (h.down i hi j hj)
      keep := fun i hi j hj => (Clause.holds_implies _ _).mp (h.keep i hi j hj)
      bound := fun i hi j hj => (holds_bound _ _).mp (h.bound i hi j hj)
      raise := fun i hi j hj => (holds_raise _ _ _).mp (h.raise i hi j hj)
      unraise := fun i hi j hj => (holds_unraise _ _ _).mp (h.unraise i hi j hj) }
  · intro h
    exact {
      start := (Clause.holds_unit _).mpr h.start
      goal := (Clause.holds_unit _).mpr h.goal
      first := (Clause.holds_implies _ _).mpr h.first.mp
      firstOnly := (Clause.holds_implies _ _).mpr h.first.mpr
      second := (Clause.holds_refute _).mpr h.second
      down := fun i hi j hj => (Clause.holds_implies _ _).mpr (h.down i hi j hj)
      keep := fun i hi j hj => (Clause.holds_implies _ _).mpr (h.keep i hi j hj)
      bound := fun i hi j hj => (holds_bound _ _).mpr (h.bound i hi j hj)
      raise := fun i hi j hj => (holds_raise _ _ _).mpr (h.raise i hi j hj)
      unraise := fun i hi j hj => (holds_unraise _ _ _).mpr (h.unraise i hi j hj) }

/-- The clauses of a counter are over its inputs and its cells. -/
theorem clauses_vars {P : Var → Prop} (hn : 0 < n) (hk : 2 ≤ k) (hx : ∀ i < n, P (x i).var)
    (hy : ∀ j ≤ k, ∀ i < n, P (y j i).var) :
    ∀ c ∈ clauses x y n k, ∀ l ∈ c.lits, P l.var := by
  rw [forall_mem_clauses (P := fun c => ∀ l ∈ c.lits, P l.var)]
  constructor
  all_goals
    simp only [Clause.unit, Clause.implies, Clause.refute, List.forall_mem_cons, List.not_mem_nil,
      false_implies, implies_true, and_true, Lit.var_negate]
  case start => exact hy _ (by omega) _ hn
  case goal => exact hy _ (by omega) _ (by omega)
  case first => exact ⟨hx _ hn, hy _ (by omega) _ hn⟩
  case firstOnly => exact ⟨hy _ (by omega) _ hn, hx _ hn⟩
  case second => exact hy _ hk _ hn
  case down => exact fun i hi j hj => ⟨hy _ (by omega) _ hi, hy _ (by omega) _ hi⟩
  case keep => exact fun i hi j hj => ⟨hy _ (by omega) _ (by omega), hy _ (by omega) _ (by omega)⟩
  case bound => exact fun i hi j hj => ⟨hy _ (by omega) _ (by omega), hy _ (by omega) _ (by omega)⟩
  case raise =>
    exact fun i hi j hj =>
      ⟨hy _ (by omega) _ (by omega), hx _ (by omega), hy _ (by omega) _ (by omega)⟩
  case unraise =>
    exact fun i hi j hj =>
      ⟨hx _ (by omega), hy _ (by omega) _ (by omega), hy _ (by omega) _ (by omega)⟩

/-! ## The rules as counts -/

/-- Each cell says whether the count `s` of the inputs up to its column reaches its row. -/
def CellsCount (y : Nat → Nat → Lit) (s : Nat → Nat) (n k : Nat) (τ : Valuation) : Prop :=
  ∀ j ≤ k, ∀ i < n, ((y j i).holds τ ↔ j ≤ s (i + 1))

section Counts

-- `s i` is the number of true inputs among the first `i`
variable {s : Nat → Nat} (hs0 : s 0 = 0)
  (hs : ∀ i < n, s (i + 1) = s i + ((x i).holds τ).toNat)

/-- No row from the second on is reached by one input. -/
theorem Rules.column_zero_high (h : Rules x y n k τ) (hn : 0 < n) {j : Nat} (hj2 : 2 ≤ j)
    (hjk : j ≤ k) : (y j 0).holds τ = false := by
  induction j, hj2 using Nat.le_induction with
  | base => exact h.second
  | succ j hj ih =>
    have hjf := ih (by omega)
    by_contra ht
    have hd := h.down 0 hn j (by omega) (by simpa using ht)
    rw [hjf] at hd
    exact absurd hd (by decide)

include hs0 hs

theorem Rules.column_zero (h : Rules x y n k τ) (hn : 0 < n) {j : Nat} (hj : j ≤ k) :
    (y j 0).holds τ ↔ j ≤ s (0 + 1) := by
  rw [hs 0 hn, hs0]
  have hb := Bool.toNat_le ((x 0).holds τ)
  match j with
  | 0 => simpa using h.start
  | 1 =>
    rw [← h.first]
    cases (x 0).holds τ <;> simp
  | j + 2 =>
    rw [h.column_zero_high hn (by omega) hj]
    simp only [Bool.false_eq_true, false_iff]
    omega

omit hs0 in
/-- A column that counts makes the next one count. -/
theorem Rules.column_succ (h : Rules x y n k τ) {i : Nat} (hi : i + 1 < n)
    (ih : ∀ j ≤ k, ((y j i).holds τ ↔ j ≤ s (i + 1))) {j : Nat} (hj : j ≤ k) :
    (y j (i + 1)).holds τ ↔ j ≤ s (i + 1 + 1) := by
  rw [hs (i + 1) hi]
  constructor
  · intro hy
    rcases h.unraise i (by omega) j (by omega) hy with hx | hp
    · rw [hx, Bool.toNat_true]
      match j with
      | 0 => exact Nat.zero_le _
      | j + 1 =>
        have hp := h.bound i (by omega) j (by omega) hy
        have := (ih j (by omega)).mp hp
        omega
    · exact Nat.le_add_right_of_le ((ih j hj).mp hp)
  · intro hle
    by_cases hp : j ≤ s (i + 1)
    · exact h.keep i (by omega) j (by omega) ((ih j hj).mpr hp)
    · -- the new input is the one that reaches row `j`
      have hx : (x (i + 1)).holds τ = true := by
        by_contra hx
        rw [Bool.not_eq_true] at hx
        rw [hx, Bool.toNat_false] at hle
        omega
      rw [hx, Bool.toNat_true] at hle
      obtain ⟨j, rfl⟩ := Nat.exists_eq_succ_of_ne_zero (n := j) (by omega)
      exact h.raise i (by omega) j (by omega) ((ih j (by omega)).mpr (by omega)) hx

/-- The rules make every cell count. -/
theorem Rules.cellsCount (h : Rules x y n k τ) : CellsCount y s n k τ := by
  intro j hj i
  induction i generalizing j with
  | zero => exact fun hn => h.column_zero hs0 hs hn hj
  | succ i ih => exact fun hi => h.column_succ hs hi (fun j hj => ih j hj (by omega)) hj

/-- Cells that count obey the rules, if the bound is met. -/
theorem rules_of_cellsCount (hn : 0 < n) (hk : 2 ≤ k) (h : CellsCount y s n k τ)
    (hb : k ≤ s n) : Rules x y n k τ := by
  have hle : ∀ i < n, s i ≤ s (i + 1) := fun i hi => by rw [hs i hi]; omega
  have hge : ∀ i < n, s (i + 1) ≤ s i + 1 := fun i hi => by
    have := Bool.toNat_le ((x i).holds τ)
    rw [hs i hi]; omega
  have h1 := hs 0 hn
  have hx0 := Bool.toNat_le ((x 0).holds τ)
  refine ⟨?_, ?_, ?_, ?_, ?_, ?_, ?_, ?_, ?_⟩
  · exact (h 0 (by omega) 0 hn).mpr (Nat.zero_le _)
  · rw [h k (by omega) (n - 1) (by omega), Nat.sub_add_cancel hn]
    exact hb
  · rw [h 1 (by omega) 0 hn, h1, hs0]
    cases (x 0).holds τ <;> simp
  · rw [← Bool.not_eq_true, h 2 (by omega) 0 hn]
    omega
  · intro i hi j hj hy
    rw [h _ (by omega) i hi] at hy ⊢
    omega
  · intro i hi j hj hy
    have := hle (i + 1) (by omega)
    rw [h _ (by omega) _ (by omega)] at hy ⊢
    omega
  · intro i hi j hj hy
    have := hge (i + 1) (by omega)
    rw [h _ (by omega) _ (by omega)] at hy ⊢
    omega
  · intro i hi j hj hy hx
    rw [h _ (by omega) _ (by omega)] at hy ⊢
    rw [hs (i + 1) (by omega), hx, Bool.toNat_true]
    omega
  · intro i hi j hj hy
    rw [h _ (by omega) _ (by omega), hs (i + 1) (by omega)] at hy
    rw [h _ (by omega) _ (by omega)]
    cases hx : (x (i + 1)).holds τ
    · rw [hx, Bool.toNat_false] at hy
      exact .inr (by omega)
    · exact .inl rfl

/-- The clauses of a counter say that its cells count and that the bound is met. -/
theorem clauses_hold_iff (hn : 0 < n) (hk : 2 ≤ k) :
    (∀ c ∈ clauses x y n k, c.Holds τ) ↔ CellsCount y s n k τ ∧ k ≤ s n := by
  rw [clauses_iff_rules]
  constructor
  · intro h
    have hc := h.cellsCount hs0 hs
    have hg := (hc k (Nat.le_refl k) (n - 1) (by omega)).mp h.goal
    rw [Nat.sub_add_cancel hn] at hg
    exact ⟨hc, hg⟩
  · rintro ⟨hc, hb⟩
    exact rules_of_cellsCount hs0 hs hn hk hc hb

end Counts

end Clausal.SequentialCounter
