import Clausal.Proofs.ClauseChecking
import Mathlib.Data.List.Forall2
import Mathlib.Data.Nat.Choose.Basic

/-!
# Encodings without cells under open assignments

The pairwise clauses, no clauses and a single disjunction need no cells, and as formulas they have
the value of their constraint under every assignment, also where that value is open. A formula is
false by one false clause while the constraint is false by a count, so both ends of the scale are
compared: the clauses are all true if at most one position is possible, and some clause is false if
two positions are sure.

The pairwise clauses stand for the pairs of positions, one for each pair and by rising pairs, so a
literal that is listed twice excludes itself.
-/

namespace Clausal

variable {a : Assignment} {ls : List Lit}

theorem Ternary.eq_of_iff {s t : Ternary} (htrue : s = .true ↔ t = .true)
    (hfalse : s = .false ↔ t = .false) : s = t := by
  cases s <;> cases t <;> simp_all

namespace Pairwise

/-! ## Values -/

/-- A clause of the first position is false if it is true and so is a later one. -/
theorem exists_head_eval_iff (l : Lit) (ls : List Lit) :
    (∃ c ∈ ls.map fun m => Clause.implies l m.negate, c.eval a = .false) ↔
      a.litValue l = .true ∧ 0 < sureCount ls a := by
  rw [sureCount_pos_iff]
  simp only [List.mem_map, exists_exists_and_eq_and, Clause.eval_implies_eq_false_iff,
    Assignment.litValue_negate, Ternary.negate_eq_false_iff]
  constructor
  · rintro ⟨m, hm, hl, hv⟩
    exact ⟨hl, m, hm, hv⟩
  · rintro ⟨hl, m, hm, hv⟩
    exact ⟨m, hm, hl, hv⟩

theorem exists_clauses_eval_iff (ls : List Lit) :
    (∃ c ∈ clauses ls, c.eval a = .false) ↔ 1 < sureCount ls a := by
  induction ls with
  | nil => simp [clauses, sureCount, Cardinality.count]
  | cons l ls ih =>
    have hsplit : (∃ c ∈ clauses (l :: ls), c.eval a = .false) ↔
        (∃ c ∈ ls.map fun m => Clause.implies l m.negate, c.eval a = .false) ∨
          ∃ c ∈ clauses ls, c.eval a = .false := by
      simp only [clauses, List.mem_append, or_and_right, exists_or]
    rw [hsplit, exists_head_eval_iff, ih, sureCount_cons]
    by_cases h : a.litValue l = .true
    · simp only [h, true_and, if_true]
      omega
    · simp [h]

/-- The pairwise clauses have the value of the constraint. -/
theorem eval_clauses (ls : List Lit) (a : Assignment) :
    Cnf.eval ⟨clauses ls⟩ a = (Cardinality.atMostOne ls).eval a := by
  apply Ternary.eq_of_iff
  · rw [Cnf.eval_eq_true_iff, clauses_eval_iff, Cardinality.eval_atMostOne_eq_true_iff]
  · rw [Cnf.eval_eq_false_iff, exists_clauses_eval_iff, Cardinality.eval_atMostOne_eq_false_iff]

/-! ## Pairs of positions -/

/-- The pairs of positions below `n` with the lower one first, by rising pairs. -/
def positionPairs : Nat → List (Nat × Nat)
  | 0 => []
  | n + 1 => (List.range n).map (fun j => (0, j + 1)) ++
      (positionPairs n).map fun p => (p.1 + 1, p.2 + 1)

theorem mem_positionPairs {n i j : Nat} : (i, j) ∈ positionPairs n ↔ i < j ∧ j < n := by
  induction n generalizing i j with
  | zero => simp [positionPairs]
  | succ n ih =>
    simp only [positionPairs, List.mem_append, List.mem_map, List.mem_range, Prod.exists,
      Prod.mk.injEq, ih]
    constructor
    · rintro (⟨j', hj, rfl, rfl⟩ | ⟨i', j', ⟨hij, hj⟩, rfl, rfl⟩)
      · omega
      · omega
    · rintro ⟨hij, hj⟩
      obtain ⟨j, rfl⟩ := Nat.exists_eq_succ_of_ne_zero (n := j) (by omega)
      cases i with
      | zero => exact .inl ⟨j, by omega, rfl, rfl⟩
      | succ i => exact .inr ⟨i, j, ⟨by omega, by omega⟩, rfl, rfl⟩

theorem positionPairs_rising (n : Nat) :
    (positionPairs n).Pairwise (Prod.Lex (· < ·) (· < ·)) := by
  induction n with
  | zero => exact .nil
  | succ n ih =>
    rw [positionPairs, List.pairwise_append, List.pairwise_map, List.pairwise_map]
    refine ⟨?_, ?_, ?_⟩
    · exact List.pairwise_lt_range.imp fun h => .right _ (by omega)
    · apply ih.imp
      rintro p q (⟨_, _, h⟩ | ⟨_, h⟩)
      · exact .left _ _ (by omega)
      · exact .right _ (by omega)
    · -- the pairs with the first position come before all others
      intro p hp q hq
      obtain ⟨j, -, rfl⟩ := List.mem_map.mp hp
      obtain ⟨q, -, rfl⟩ := List.mem_map.mp hq
      exact .left _ _ (Nat.succ_pos _)

theorem length_positionPairs (n : Nat) : (positionPairs n).length = n * (n - 1) / 2 := by
  induction n with
  | zero => rfl
  | succ n ih =>
    rw [Nat.triangle_succ, ← ih]
    simp [positionPairs, Nat.add_comm]

/-- The clause says that the literals at the two positions are not both true. -/
def Excludes (ls : List Lit) (p : Nat × Nat) (c : Clause) : Prop :=
  ∃ l m, ls[p.1]? = some l ∧ ls[p.2]? = some m ∧ c.lits = [l.negate, m.negate]

theorem clauses_excludes (ls : List Lit) :
    List.Forall₂ (Excludes ls) (positionPairs ls.length) (clauses ls) := by
  induction ls with
  | nil => exact .nil
  | cons l ls ih =>
    rw [List.length_cons, positionPairs, clauses]
    apply List.rel_append
    · -- the first position against each later one
      rw [List.forall₂_map_left_iff, List.forall₂_map_right_iff, List.forall₂_iff_get]
      refine ⟨List.length_range, fun i hi hi' => ⟨l, ls[i], rfl, ?_, rfl⟩⟩
      simp
    · rw [List.forall₂_map_left_iff]
      exact ih

/-- One clause for each pair of positions, by rising pairs. -/
structure OnePerPair (ls : List Lit) (cs : List Clause) : Prop where
  length_eq : cs.length = ls.length * (ls.length - 1) / 2
  pairs : ∃ ps : List (Nat × Nat), ps.Pairwise (Prod.Lex (· < ·) (· < ·)) ∧
    (∀ i j, (i, j) ∈ ps ↔ i < j ∧ j < ls.length) ∧ List.Forall₂ (Excludes ls) ps cs

theorem clauses_onePerPair (ls : List Lit) : OnePerPair ls (clauses ls) where
  length_eq := by rw [← (clauses_excludes ls).length_eq, length_positionPairs]
  pairs := ⟨_, positionPairs_rising _, fun _ _ => mem_positionPairs, clauses_excludes ls⟩

end Pairwise

/-! ## Disjunctions -/

/-- A bound of at most one needs no cells, and its clauses have the value of the constraint. -/
theorem Cardinality.eval_clauses_atLeast {k : Nat} (hk : k ≤ 1) (cells : List Var) (ls : List Lit)
    (a : Assignment) : Cnf.eval ⟨(atLeast ls k).clauses cells⟩ a = (atLeast ls k).eval a := by
  match k with
  | 0 => exact (eval_atLeast_eq_true_iff.mpr (Nat.zero_le _)).symm
  | 1 =>
    apply Ternary.eq_of_iff
    · rw [eval_atLeast_eq_true_iff, Cnf.eval_eq_true_iff]
      simp only [clauses, List.forall_mem_singleton, Clause.eval_eq_true_iff, Clause.anyOf]
      exact sureCount_pos_iff.symm
    · rw [eval_atLeast_eq_false_iff, Cnf.eval_eq_false_iff, Nat.lt_one_iff, possibleCount_eq_zero_iff]
      simp [clauses, Clause.eval_eq_false_iff, Clause.anyOf]

/-! ## Encoders -/

/-- A run with a bound of at most one adds its clauses and takes no variable. -/
theorem AtLeast.encode_uncounted {γ : Type} [Collector γ] {k : Nat} (hk : k ≤ 1) {p : VarPool}
    {col : γ} {r : Encoded γ} (h : AtLeast.encode ls k p col = .ok r) :
    r.matrix = none ∧ r.pool = p ∧
      Collected col ((Cardinality.atLeast ls k).clauses []) r.collector := by
  have hcol := (encode_collects h).2
  rcases encode_ok h with ⟨rfl, rfl⟩ | ⟨rfl, col', -, rfl⟩ | ⟨s, hs, -⟩
  · exact ⟨rfl, rfl, hcol⟩
  · exact ⟨rfl, rfl, hcol⟩
  · have := (SequentialCounter.encode_ok hs).two_le
    omega

/-- Whatever literals are listed and whichever variables are open, the encodings without cells have
the value of their constraint. Pairwise clauses are one for each pair of positions; to a model they
come when the inputs are in use, and its pool is left at that. A bound of at most one takes no
variable either. -/
theorem open_eval_without_cells (ls : List Lit) :
    ((∀ a, Cnf.eval ⟨Pairwise.clauses ls⟩ a = (Cardinality.atMostOne ls).eval a) ∧
      Pairwise.OnePerPair ls (Pairwise.clauses ls) ∧
      (∀ (γ : Type) [Collector γ] (e e' : Pairwise) (col col' : γ), e.lits = ls →
        e.encode col = .ok (e', col') →
        Collector.extend col (Pairwise.clauses ls) = .ok col') ∧
      (∀ f : Cnf, ∃ e', (Pairwise.ofLits ls).encode f =
        .ok (e', f.append (Pairwise.clauses ls))) ∧
      ∀ m m' : Model, m.addAtMostOne ls = .ok m' → m.pool.cover ls = .ok m'.pool ∧
        m'.hard = m.hard.append (Pairwise.clauses ls)) ∧
    ∀ k, k = 0 ∨ (k = 1 ∧ ls ≠ []) → ∃ cs,
      (∀ a, Cnf.eval ⟨cs⟩ a = (Cardinality.atLeast ls k).eval a) ∧
      (∀ (γ : Type) [Collector γ] (p : VarPool) (col : γ) (r : AtLeast.Encoded γ),
        AtLeast.encode ls k p col = .ok r →
        r.matrix = none ∧ r.pool = p ∧ Collected col cs r.collector) ∧
      ∀ (p : VarPool) (f : Cnf), AtLeast.encode ls k p f = .ok ⟨none, p, f.append cs⟩ := by
  refine ⟨⟨Pairwise.eval_clauses ls, Pairwise.clauses_onePerPair ls, ?_, ?_, ?_⟩, ?_⟩
  · rintro γ _ e e' col col' rfl h
    exact Pairwise.encode_ok h
  · exact fun f => ⟨_, rfl⟩
  · intro m m' h
    obtain ⟨q, hq, rfl⟩ := Model.addAtMostOne_ok h
    obtain ⟨pool, hpool, rfl⟩ := map_ok_iff.mp hq
    exact ⟨hpool, rfl⟩
  · intro k hk
    have hle : k ≤ 1 := by omega
    refine ⟨_, Cardinality.eval_clauses_atLeast hle [] ls, fun γ _ p col r h =>
      AtLeast.encode_uncounted hle h, fun p f => ?_⟩
    rcases hk with rfl | ⟨rfl, hne⟩
    · rw [Cardinality.clauses, Cnf.append_nil]
      rfl
    · unfold AtLeast.encode
      rw [if_neg (fun h => hne h.2)]
      rfl

/-- A literal, its negation and a second copy of it, where open positions clash. -/
theorem open_eval_without_cells_clash :
    let ls := [Var.pos ⟨0⟩, Var.neg ⟨0⟩, Var.pos ⟨1⟩, Var.pos ⟨0⟩]
    (Pairwise.ofLits ls).encode Cnf.empty = .ok (⟨ls, 6⟩, ⟨Pairwise.clauses ls⟩) ∧
      Collector.extend Cnf.empty (Pairwise.clauses ls) = .ok ⟨Pairwise.clauses ls⟩ ∧
      ∃ cs, AtLeast.encode ls 1 .full Cnf.empty = .ok ⟨none, .full, ⟨cs⟩⟩ ∧
        ∀ a, Cnf.eval ⟨cs⟩ a = (Cardinality.atLeast ls 1).eval a := by
  intro ls
  have hrun : (Pairwise.ofLits ls).encode Cnf.empty = .ok (⟨ls, 6⟩, ⟨Pairwise.clauses ls⟩) := rfl
  obtain ⟨⟨-, -, hpairs, -⟩, hlow⟩ := open_eval_without_cells ls
  obtain ⟨cs, heval, -, henc⟩ := hlow 1 (.inr ⟨rfl, by decide⟩)
  exact ⟨hrun, hpairs Cnf _ _ _ _ rfl hrun, cs, henc .full Cnf.empty, heval⟩

end Clausal
