import Clausal.Proofs.ModelCalls
import Clausal.Proofs.OpenCounts

/-!
# Checking constraints by their clauses

The clauses that encode a cardinality constraint check it under any assignment, however many
variables it leaves open: if all clauses are true then so is the constraint, and if the constraint
is false then no assignment that decides more makes all clauses true.

An argument by total completions does not reach this, since an open literal and its negation count
once in every completion and not at all while they are open. For a counter the truth of a cell is
therefore followed back through the clauses: a true cell in row `j` and column `i` has `j` true
inputs up to its column, by induction on the column. Nothing is asked of the cells, which may even
be inputs.
-/

namespace Clausal

/-- The clauses of the constraint, with a counter over the given cells from bound 2 on. -/
def Cardinality.clauses (cells : List Var) : Cardinality → List Clause
  | atMostOne ls => Pairwise.clauses ls
  | atLeast _ 0 => []
  | atLeast ls 1 => [.anyOf ls]
  | atLeast ls k => SequentialCounter.clausesOver ls cells k

/-- The clauses are true only if the constraint is, and cannot become true if it is false. -/
structure Cardinality.CheckedBy (c : Cardinality) (cs : List Clause) : Prop where
  sound : ∀ a : Assignment, (∀ d ∈ cs, d.eval a = .true) → c.eval a = .true
  refutes : ∀ a : Assignment, c.eval a = .false →
    ∀ b : Assignment, b.Refines a → ¬ ∀ d ∈ cs, d.eval b = .true

/-- Soundness alone is enough, since a refined assignment keeps the constraint false. -/
theorem Cardinality.CheckedBy.of_sound {c : Cardinality} {cs : List Clause}
    (h : ∀ a : Assignment, (∀ d ∈ cs, d.eval a = .true) → c.eval a = .true) : c.CheckedBy cs where
  sound := h
  refutes a ha b hb hcs := by
    have hkept : c.eval b = c.eval a := eval_of_refines hb (by simp [ha])
    rw [h b hcs, ha] at hkept
    cases hkept

variable {a : Assignment}

/-! ## Clauses under open assignments -/

namespace Clause

theorem eval_unit_eq_true_iff (l : Lit) : (unit l).eval a = .true ↔ a.litValue l = .true := by
  simp [eval_eq_true_iff, unit]

theorem eval_refute_eq_true_iff (l : Lit) :
    (refute l).eval a = .true ↔ a.litValue l = .false := by
  simp [eval_eq_true_iff, refute, Ternary.negate_eq_true_iff]

theorem eval_implies_eq_true_iff (l m : Lit) :
    (implies l m).eval a = .true ↔ a.litValue l = .false ∨ a.litValue m = .true := by
  simp [eval_eq_true_iff, implies, Ternary.negate_eq_true_iff]

theorem eval_implies_eq_false_iff (l m : Lit) :
    (implies l m).eval a = .false ↔ a.litValue l = .true ∧ a.litValue m = .false := by
  simp [eval_eq_false_iff, implies, Ternary.negate_eq_false_iff]

end Clause

/-! ## Pairwise clauses -/

/-- The clauses of the first position are true if it is false or all later ones are. -/
theorem Pairwise.head_eval_iff (l : Lit) (ls : List Lit) :
    (∀ c ∈ ls.map fun m => Clause.implies l m.negate, c.eval a = .true) ↔
      a.litValue l = .false ∨ possibleCount ls a = 0 := by
  rw [List.forall_mem_map, possibleCount_eq_zero_iff]
  simp only [Clause.eval_implies_eq_true_iff, Assignment.litValue_negate,
    Ternary.negate_eq_true_iff]
  by_cases h : a.litValue l = .false
  · simp [h]
  · simp [h]

theorem Pairwise.clauses_eval_iff (ls : List Lit) :
    (∀ c ∈ clauses ls, c.eval a = .true) ↔ possibleCount ls a ≤ 1 := by
  induction ls with
  | nil => simp [clauses]
  | cons l ls ih =>
    rw [clauses, List.forall_mem_append, head_eval_iff, ih, possibleCount_cons]
    by_cases h : a.litValue l = .false
    · simp [h]
    · simp only [h, false_or, if_false]
      omega

/-! ## Counters -/

namespace SequentialCounter

variable {x : Nat → Lit} {y : Nat → Nat → Lit} {n k : Nat}

/-- What true clauses of a counter say of its true cells. -/
structure OpenRules (x : Nat → Lit) (y : Nat → Nat → Lit) (n k : Nat) (a : Assignment) : Prop where
  goal : a.litValue (y k (n - 1)) = .true
  first : a.litValue (y 1 0) = .true → a.litValue (x 0) = .true
  second : a.litValue (y 2 0) ≠ .true
  down : ∀ i < n, ∀ j < k, a.litValue (y (j + 1) i) = .true → a.litValue (y j i) = .true
  bound : ∀ i < n - 1, ∀ j < k,
    a.litValue (y (j + 1) (i + 1)) = .true → a.litValue (y j i) = .true
  unraise : ∀ i < n - 1, ∀ j < k + 1, a.litValue (y j (i + 1)) = .true →
    a.litValue (x (i + 1)) = .true ∨ a.litValue (y j i) = .true

/-- A true implication carries the truth of its premise on. -/
theorem litValue_of_implies {l m : Lit} (h : (Clause.implies l m).eval a = .true)
    (hl : a.litValue l = .true) : a.litValue m = .true := by
  rcases (Clause.eval_implies_eq_true_iff l m).mp h with hf | hm
  · rw [hl] at hf
    cases hf
  · exact hm

theorem openRules_of_clauses (h : ∀ c ∈ clauses x y n k, c.eval a = .true) :
    OpenRules x y n k a := by
  have h := forall_mem_clauses.mp h
  refine ⟨(Clause.eval_unit_eq_true_iff _).mp h.goal, litValue_of_implies h.firstOnly, ?_, ?_, ?_,
    ?_⟩
  · rw [(Clause.eval_refute_eq_true_iff _).mp h.second]
    decide
  · intro i hi j hj
    exact litValue_of_implies (h.down i hi j hj)
  · intro i hi j hj hy
    have h := (Clause.eval_implies_eq_true_iff _ _).mp (h.bound i hi j hj)
    simp only [Assignment.litValue_negate, Ternary.negate_eq_true_iff, Ternary.negate_eq_false_iff,
      hy, reduceCtorEq, or_false] at h
    exact h
  · intro i hi j hj hy
    have h := (Clause.eval_eq_true_iff _ _).mp (h.unraise i hi j hj)
    simpa [Ternary.negate_eq_true_iff, hy] using h

section Counts

-- `s i` is the number of true inputs among the first `i`
variable {s : Nat → Nat} (hs0 : s 0 = 0)
  (hs : ∀ i < n, s (i + 1) = s i + if a.litValue (x i) = .true then 1 else 0)

/-- No row from the second on is true in the first column. -/
theorem OpenRules.column_zero_high (h : OpenRules x y n k a) (hn : 0 < n) {j : Nat} (hj2 : 2 ≤ j)
    (hjk : j ≤ k) : a.litValue (y j 0) ≠ .true := by
  induction j, hj2 using Nat.le_induction with
  | base => exact h.second
  | succ j hj ih =>
    intro ht
    exact ih (by omega) (h.down 0 hn j (by omega) ht)

include hs0 hs

theorem OpenRules.column_zero (h : OpenRules x y n k a) (hn : 0 < n) {j : Nat} (hj : j ≤ k)
    (hy : a.litValue (y j 0) = .true) : j ≤ s (0 + 1) := by
  match j with
  | 0 => exact Nat.zero_le _
  | 1 =>
    have hone : s (0 + 1) = 0 + 1 := by rw [hs 0 hn, hs0, if_pos (h.first hy)]
    exact Nat.le_of_eq hone.symm
  | j + 2 => exact absurd hy (h.column_zero_high hn (by omega) hj)

/-- A true cell has as many true inputs up to its column as its row says. -/
theorem OpenRules.row_le (h : OpenRules x y n k a) {j i : Nat} (hj : j ≤ k) (hi : i < n)
    (hy : a.litValue (y j i) = .true) : j ≤ s (i + 1) := by
  induction i generalizing j with
  | zero => exact h.column_zero hs0 hs hi hj hy
  | succ i ih =>
    rw [hs (i + 1) hi]
    rcases h.unraise i (by omega) j (by omega) hy with hx | hp
    · -- a true input pays for one row, and the row below is true in the column before
      rw [if_pos hx]
      match j with
      | 0 => exact Nat.zero_le _
      | j + 1 =>
        have := ih (by omega) (by omega) (h.bound i (by omega) j (by omega) hy)
        omega
    · exact Nat.le_add_right_of_le (ih hj (by omega) hp)

end Counts

/-- If all clauses of a counter are true then as many inputs are true as its bound asks for. -/
theorem le_sureCount_of_clausesOver {ls : List Lit} {cells : List Var} (hn : ls ≠ [])
    (h : ∀ c ∈ clausesOver ls cells k, c.eval a = .true) : k ≤ sureCount ls a := by
  have hpos : 0 < ls.length := List.length_pos_iff.mpr hn
  have hs : ∀ i < ls.length, sureCount (ls.take (i + 1)) a =
      sureCount (ls.take i) a + if a.litValue (input ls i) = .true then 1 else 0 := by
    intro i hi
    rw [sureCount_take_succ hi, input_eq hi]
  have hrules := openRules_of_clauses h
  have hle := hrules.row_le (s := fun i => sureCount (ls.take i) a) rfl hs (Nat.le_refl k)
    (Nat.sub_lt hpos Nat.one_pos) hrules.goal
  rwa [Nat.sub_add_cancel hpos, List.take_length] at hle

end SequentialCounter

/-! ## Constraints -/

namespace Cardinality

theorem checkedBy_atMostOne (ls : List Lit) (cells : List Var) :
    (atMostOne ls).CheckedBy ((atMostOne ls).clauses cells) :=
  .of_sound fun _ h => eval_atMostOne_eq_true_iff.mpr ((Pairwise.clauses_eval_iff ls).mp h)

/-- A positive bound needs a literal to count. -/
theorem checkedBy_atLeast {ls : List Lit} {k : Nat} (hn : 0 < k → ls ≠ []) (cells : List Var) :
    (atLeast ls k).CheckedBy ((atLeast ls k).clauses cells) := by
  apply CheckedBy.of_sound
  intro a h
  rw [eval_atLeast_eq_true_iff]
  match k with
  | 0 => exact Nat.zero_le _
  | 1 =>
    have hany := (Clause.eval_eq_true_iff _ a).mp (h _ (List.mem_singleton.mpr rfl))
    exact sureCount_pos_iff.mpr hany
  | k + 2 => exact SequentialCounter.le_sureCount_of_clausesOver (hn (by omega)) h

end Cardinality

/-! ## Encoded constraints -/

/-- The cells of a matrix, if there is one. -/
def cellsOf (x : Option CounterMatrix) : List Var := (x.map CounterMatrix.vars).getD []

/-- The clauses were added to the collector; no clauses leave it alone. -/
def Collected {γ : Type} [Collector γ] (col : γ) (cs : List Clause) (col' : γ) : Prop :=
  (cs = [] ∧ col' = col) ∨ Collector.extend col cs = .ok col'

theorem AtLeast.encode_collects {γ : Type} [Collector γ] {ls : List Lit} {k : Nat} {p : VarPool}
    {col : γ} {r : Encoded γ} (h : AtLeast.encode ls k p col = .ok r) :
    (0 < k → ls ≠ []) ∧
      Collected col ((Cardinality.atLeast ls k).clauses (cellsOf r.matrix)) r.collector := by
  have hn : 0 < k → ls ≠ [] := by
    intro hk hnil
    unfold AtLeast.encode at h
    rw [if_pos ⟨hk, hnil⟩] at h
    cases h
  refine ⟨hn, ?_⟩
  rcases AtLeast.encode_ok h with ⟨rfl, rfl⟩ | ⟨rfl, col', hc, rfl⟩ | ⟨s, hs, rfl⟩
  · exact .inl ⟨rfl, rfl⟩
  · exact .inr hc
  · obtain ⟨hk, -, -, -, -, hc⟩ := SequentialCounter.encode_ok hs
    obtain ⟨k, rfl⟩ := Nat.exists_eq_add_of_le' hk
    exact .inr hc

/-- Covering literals leaves the clauses alone. -/
theorem Model.cover_hard {m q : Model} {ls : List Lit} (h : m.cover ls = .ok q) :
    q.hard = m.hard := by
  obtain ⟨-, rfl⟩ := cover_ok_iff.mp h
  rfl

/-- A constraint that a model takes is checked by the clauses that it appends. -/
theorem Model.addCardinality_appends {m m' : Model} {c : Cardinality} {x : Option CounterMatrix}
    (h : m.addCardinality c = .ok (x, m')) :
    m'.hard = m.hard.append (c.clauses (cellsOf x)) ∧ c.CheckedBy (c.clauses (cellsOf x)) := by
  cases c with
  | atMostOne ls =>
    obtain ⟨m'', hm, h⟩ := map_ok_iff.mp h
    injection h with hx h
    obtain ⟨q, hq, rfl⟩ := addAtMostOne_ok hm
    rw [← h, ← cover_hard hq]
    exact ⟨rfl, Cardinality.checkedBy_atMostOne _ _⟩
  | atLeast ls k =>
    obtain ⟨q, hq, h⟩ := bind_ok_iff.mp h
    obtain ⟨r, hr, h⟩ := bind_ok_iff.mp h
    injection h with h
    injection h with hx h
    obtain ⟨hn, hc⟩ := AtLeast.encode_collects hr
    rw [← h, ← hx, ← cover_hard hq]
    refine ⟨?_, Cardinality.checkedBy_atLeast hn _⟩
    rcases hc with ⟨hnil, hcol⟩ | hcol
    · rw [hnil, hcol]
      exact (Cnf.append_nil _).symm
    · injection hcol with hcol
      exact hcol.symm

/-- Whatever constraint a model takes or an encoder encodes, the clauses that are added check it
under open assignments. The pool of the encoder is arbitrary, so its cells may be inputs. -/
theorem cardinality_checked_by_added :
    (∀ (m m' : Model) (c : Cardinality) (x : Option CounterMatrix),
      m.addCardinality c = .ok (x, m') → ∃ cs, m'.hard = m.hard.append cs ∧ c.CheckedBy cs) ∧
    ∀ (γ : Type) [Collector γ] (ls : List Lit) (k : Nat) (p : VarPool) (col : γ)
      (r : AtLeast.Encoded γ), AtLeast.encode ls k p col = .ok r →
      ∃ cs, Collected col cs r.collector ∧ (Cardinality.atLeast ls k).CheckedBy cs := by
  constructor
  · intro m m' c x h
    exact ⟨_, Model.addCardinality_appends h⟩
  · intro γ _ ls k p col r h
    obtain ⟨hn, hc⟩ := AtLeast.encode_collects h
    exact ⟨_, hc, Cardinality.checkedBy_atLeast hn _⟩

/-- A model that counts a literal and its negation, and a counter whose cells are its inputs. -/
theorem cardinality_checked_by_added_overlap :
    (∃ x m', Model.empty.addCardinality (.atLeast [Var.pos ⟨0⟩, Var.neg ⟨0⟩, Var.pos ⟨1⟩] 2) =
        .ok (x, m') ∧
      ∃ cs, m'.hard = Cnf.empty.append cs ∧
        (Cardinality.atLeast [Var.pos ⟨0⟩, Var.neg ⟨0⟩, Var.pos ⟨1⟩] 2).CheckedBy cs) ∧
    ∃ r, AtLeast.encode [Var.pos ⟨0⟩, Var.pos ⟨1⟩] 2 .full Cnf.empty = .ok r ∧
      ⟨0⟩ ∈ cellsOf r.matrix ∧ ⟨1⟩ ∈ cellsOf r.matrix ∧
      ∃ cs, Collected Cnf.empty cs r.collector ∧
        (Cardinality.atLeast [Var.pos ⟨0⟩, Var.pos ⟨1⟩] 2).CheckedBy cs := by
  obtain ⟨x, m', hm⟩ : ∃ x m', Model.empty.addCardinality
      (.atLeast [Var.pos ⟨0⟩, Var.neg ⟨0⟩, Var.pos ⟨1⟩] 2) = .ok (x, m') := ⟨_, _, rfl⟩
  obtain ⟨r, hr, h0, h1⟩ : ∃ r, AtLeast.encode [Var.pos ⟨0⟩, Var.pos ⟨1⟩] 2 .full Cnf.empty = .ok r ∧
      ⟨0⟩ ∈ cellsOf r.matrix ∧ ⟨1⟩ ∈ cellsOf r.matrix := ⟨_, rfl, by decide, by decide⟩
  exact ⟨⟨x, m', hm, cardinality_checked_by_added.1 _ _ _ _ hm⟩,
    r, hr, h0, h1, cardinality_checked_by_added.2 _ _ _ _ _ _ hr⟩

end Clausal
