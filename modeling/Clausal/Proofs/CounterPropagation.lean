import Clausal.Proofs.CounterEncoding

/-!
# Sequential counters propagate

Unit propagation adds the last literal of a clause that is not false yet, so it sees single clauses
and never two of them at once. On the clauses of a counter that is enough: assuming inputs false
gives a conflict once fewer than the bound are left, and the truth of every input that is left when
there are just as many as the bound (`encode_propagates`).

The proof follows the two directions in which propagation passes over the matrix. From the left, the
cells above the number of inputs that are left so far become false, column by column. From the right,
starting at the cell that has to be true, the cell at exactly that number becomes true. Between two
columns where the number grows, the two meet in a clause that has only its input left.
-/

namespace Clausal

/-! ## Unit propagation -/

/-- The literals that unit propagation derives from clauses and assumptions. -/
inductive Propagated (cs : List Clause) (as : List Lit) : Lit → Prop where
  | assumed {l : Lit} (h : l ∈ as) : Propagated cs as l
  | forced {c : Clause} {l : Lit} (hc : c ∈ cs) (hl : l ∈ c.lits)
      (h : ∀ m ∈ c.lits, m ≠ l → Propagated cs as m.negate) : Propagated cs as l

/-- Unit propagation makes every literal of a clause false. -/
def Conflict (cs : List Clause) (as : List Lit) : Prop :=
  ∃ c ∈ cs, ∀ l ∈ c.lits, Propagated cs as l.negate

section Propagation

variable {cs : List Clause} {as : List Lit}

/-- What is derived is true wherever the clauses and the assumptions are. -/
theorem Propagated.holds {l : Lit} (h : Propagated cs as l) {τ : Valuation}
    (hcs : ∀ c ∈ cs, c.Holds τ) (has : ∀ a ∈ as, a.holds τ) : l.holds τ := by
  induction h with
  | assumed h => exact has _ h
  | @forced c l hc _ _ ih =>
    obtain ⟨m, hm, hτ⟩ := hcs c hc
    by_cases hml : m = l
    · exact hml ▸ hτ
    · have hneg := ih m hm hml
      rw [Lit.holds_negate, hτ] at hneg
      cases hneg

/-- A conflict refutes the assumptions. -/
theorem Conflict.refutes (h : Conflict cs as) {τ : Valuation} (hcs : ∀ c ∈ cs, c.Holds τ) :
    ¬ ∀ a ∈ as, a.holds τ := by
  intro has
  obtain ⟨c, hc, hfalse⟩ := h
  obtain ⟨l, hl, hτ⟩ := hcs c hc
  have hneg := (hfalse l hl).holds hcs has
  rw [Lit.holds_negate, hτ] at hneg
  cases hneg

/-- A clause that forces a literal is false once the negation is derived too. -/
theorem Propagated.mem_or_conflict {l : Lit} (h : Propagated cs as l)
    (hn : Propagated cs as l.negate) : l ∈ as ∨ Conflict cs as := by
  cases h with
  | assumed h => exact .inl h
  | @forced c _ hc _ h =>
    refine .inr ⟨c, hc, fun m hm => ?_⟩
    by_cases hml : m = l
    · exact hml ▸ hn
    · exact h m hm hml

/-- Short of a conflict, what a clause forces was not false before: a literal and its negation are
derived together only from contradictory assumptions. -/
theorem Propagated.conflict_of_negate {l : Lit} (h : Propagated cs as l)
    (hn : Propagated cs as l.negate) : Conflict cs as ∨ (l ∈ as ∧ l.negate ∈ as) := by
  rcases h.mem_or_conflict hn with hl | hc
  · rcases hn.mem_or_conflict (by rwa [Lit.negate_negate]) with hnl | hc
    · exact .inr ⟨hl, hnl⟩
    · exact .inl hc
  · exact .inl hc

/-- A clause forces a literal when all the literals around it are false. -/
theorem Propagated.of_append (ls ms : List Lit) {l : Lit} (hc : ⟨ls ++ l :: ms⟩ ∈ cs)
    (hls : ∀ m ∈ ls, Propagated cs as m.negate) (hms : ∀ m ∈ ms, Propagated cs as m.negate) :
    Propagated cs as l := by
  refine .forced hc (by simp) fun m hm hml => ?_
  rcases List.mem_append.mp hm with hm | hm
  · exact hls m hm
  · rcases List.mem_cons.mp hm with rfl | hm
    · exact absurd rfl hml
    · exact hms m hm

theorem Propagated.of_unit {l : Lit} (hc : Clause.unit l ∈ cs) : Propagated cs as l :=
  of_append [] [] hc (by simp) (by simp)

theorem Propagated.of_implies {l m : Lit} (hc : Clause.implies l m ∈ cs)
    (hl : Propagated cs as l) : Propagated cs as m :=
  of_append [l.negate] [] hc (by simpa using hl) (by simp)

theorem Propagated.of_implies_negate {l m : Lit} (hc : Clause.implies l m ∈ cs)
    (hm : Propagated cs as m.negate) : Propagated cs as l.negate :=
  of_append [] [m] hc (by simp) (by simpa using hm)

end Propagation

/-! ## Inputs that are left -/

/-- The number of literals that no assumption makes false. -/
def leftCount (as ls : List Lit) : Nat := ls.countP fun l => l.negate ∉ as

/-- The assumptions that make the literals at some positions of a list false. -/
def assumeFalse (ls : List Lit) (positions : List (Fin ls.length)) : List Lit :=
  positions.map fun i => ls[i].negate

/-- One more literal of a list is left if it is not assumed false. -/
theorem leftCount_take_succ {as ls : List Lit} {i : Nat} (h : i < ls.length) :
    leftCount as (ls.take (i + 1)) =
      leftCount as (ls.take i) + if ls[i].negate ∈ as then 0 else 1 := by
  rw [List.take_succ_eq_append_getElem h]
  unfold leftCount
  rw [List.countP_append]
  by_cases hl : ls[i].negate ∈ as <;> simp [hl]

namespace SequentialCounter

variable {x : Nat → Lit} {y : Nat → Nat → Lit} {n k : Nat} {cs : List Clause} {as : List Lit}

/-! ## The clauses as steps of propagation -/

/-- What the clauses of a counter let propagation derive from single cells and inputs. The name of a
clause read from a false literal ends in `Not`. -/
structure Steps (x : Nat → Lit) (y : Nat → Nat → Lit) (n k : Nat) (P : Lit → Prop) : Prop where
  goal : P (y k (n - 1))
  first : P (y 1 0) → P (x 0)
  firstNot : P (x 0).negate → P (y 1 0).negate
  second : P (y 2 0).negate
  downNot : ∀ i < n, ∀ j < k, P (y j i).negate → P (y (j + 1) i).negate
  bound : ∀ i < n - 1, ∀ j < k, P (y (j + 1) (i + 1)) → P (y j i)
  boundNot : ∀ i < n - 1, ∀ j < k, P (y j i).negate → P (y (j + 1) (i + 1)).negate
  unraise : ∀ i < n - 1, ∀ j < k + 1, P (x (i + 1)).negate → P (y j (i + 1)) → P (y j i)
  unraiseNot : ∀ i < n - 1, ∀ j < k + 1,
    P (x (i + 1)).negate → P (y j i).negate → P (y j (i + 1)).negate
  raised : ∀ i < n - 1, ∀ j < k + 1, P (y j i).negate → P (y j (i + 1)) → P (x (i + 1))

theorem steps_of_mem (h : ∀ c ∈ clauses x y n k, c ∈ cs) : Steps x y n k (Propagated cs as) := by
  have h := forall_mem_clauses.mp h
  refine ⟨.of_unit h.goal, .of_implies h.firstOnly, .of_implies_negate h.firstOnly,
    .of_unit h.second, ?_, ?_, ?_, ?_, ?_, ?_⟩
  · intro i hi j hj
    exact .of_implies_negate (h.down i hi j hj)
  · intro i hi j hj hy
    simpa using Propagated.of_implies_negate (h.bound i hi j hj) (by simpa using hy)
  · intro i hi j hj
    exact .of_implies (h.bound i hi j hj)
  · intro i hi j hj hx hy
    exact .of_append [x (i + 1)] [(y j (i + 1)).negate] (h.unraise i hi j hj)
      (by simpa using hx) (by simpa using hy)
  · intro i hi j hj hx hy
    exact .of_append [x (i + 1), y j i] [] (h.unraise i hi j hj)
      (by simpa using ⟨hx, hy⟩) (by simp)
  · intro i hi j hj hp hy
    exact .of_append [] [y j i, (y j (i + 1)).negate] (h.unraise i hi j hj)
      (by simp) (by simpa using ⟨hp, hy⟩)

/-! ## The two passes -/

section Passes

-- `t i` is the number of inputs that are left among the first `i`
variable {t : Nat → Nat} (ht0 : t 0 = 0)
  (ht : ∀ i < n, t (i + 1) = t i + if (x i).negate ∈ as then 0 else 1)

/-- All cells above a false one in its column are false. -/
theorem Steps.column_above (h : Steps x y n k (Propagated cs as)) {i j j' : Nat} (hi : i < n)
    (hjj : j ≤ j') (hj' : j' ≤ k) (hy : Propagated cs as (y j i).negate) :
    Propagated cs as (y j' i).negate := by
  induction j', hjj using Nat.le_induction with
  | base => exact hy
  | succ j' _ ih => exact h.downNot i hi j' (by omega) (ih (by omega))

include ht0 ht

theorem Steps.false_column_zero (h : Steps x y n k (Propagated cs as)) (hn : 0 < n) {j : Nat}
    (hj : j ≤ k) (htj : t (0 + 1) < j) : Propagated cs as (y j 0).negate := by
  have h1 := ht 0 hn
  by_cases hx : (x 0).negate ∈ as
  · rw [if_pos hx] at h1
    exact h.column_above hn (by omega) hj (h.firstNot (.assumed hx))
  · rw [if_neg hx] at h1
    exact h.column_above hn (by omega) hj h.second

/-- From the left: every cell above the number of inputs left so far becomes false. -/
theorem Steps.false_of_lt (h : Steps x y n k (Propagated cs as)) {i : Nat} (hi : i < n) {j : Nat}
    (hj : j ≤ k) (htj : t (i + 1) < j) : Propagated cs as (y j i).negate := by
  induction i generalizing j with
  | zero => exact h.false_column_zero ht0 ht hi hj htj
  | succ i ih =>
    have hs := ht (i + 1) hi
    by_cases hx : (x (i + 1)).negate ∈ as
    · rw [if_pos hx] at hs
      exact h.unraiseNot i (by omega) j (by omega) (.assumed hx) (ih (by omega) hj (by omega))
    · -- the input may raise the count to row `j`, but not above it
      rw [if_neg hx] at hs
      obtain ⟨j, rfl⟩ := Nat.exists_eq_succ_of_ne_zero (n := j) (by omega)
      exact h.boundNot i (by omega) j (by omega) (ih (by omega) (by omega) (by omega))

omit ht0 in
/-- The inputs left before a column are among those left in all. -/
theorem left_le {i : Nat} (hi : i ≤ n) : t i ≤ t n := by
  induction n, hi using Nat.le_induction with
  | base => exact Nat.le_refl _
  | succ n hn ih =>
    have := ih fun i hi => ht i (by omega)
    have := ht n (by omega)
    omega

omit ht0 in
/-- From the right: if just the bound is left, the cell at the number of inputs left so far becomes
true. -/
theorem Steps.true_at (h : Steps x y n k (Propagated cs as)) (htn : t n = k) {i : Nat}
    (hi : i < n) : Propagated cs as (y (t (i + 1)) i) := by
  have hle : i ≤ n - 1 := by omega
  induction hle using Nat.decreasingInduction with
  | self =>
    rw [Nat.sub_add_cancel (by omega), htn]
    exact h.goal
  | of_succ i hlt ih =>
    have hy := ih (by omega)
    have hs := ht (i + 1) (by omega)
    have hk : t (i + 1 + 1) ≤ k := htn ▸ left_le ht (by omega)
    by_cases hx : (x (i + 1)).negate ∈ as
    · rw [if_pos hx] at hs
      rw [hs] at hy
      exact h.unraise i hlt _ (by omega) (.assumed hx) hy
    · rw [if_neg hx] at hs
      rw [hs] at hy
      exact h.bound i hlt _ (by omega) hy

/-- Where the number grows, the two passes leave nothing but the input open. -/
theorem Steps.input_true (h : Steps x y n k (Propagated cs as)) (htn : t n = k) {i : Nat}
    (hi : i < n) (hx : (x i).negate ∉ as) : Propagated cs as (x i) := by
  have hy := h.true_at ht htn hi
  have hs := ht i hi
  have hk : t (i + 1) ≤ k := htn ▸ left_le ht (by omega)
  rw [if_neg hx] at hs
  match i with
  | 0 =>
    rw [hs, ht0] at hy
    exact h.first hy
  | i + 1 =>
    rw [hs] at hy
    exact h.raised i (by omega) _ (by omega)
      (h.false_of_lt ht0 ht (by omega) (by omega) (Nat.lt_succ_self _)) hy

/-- If less than the bound is left, the cell that has to be true becomes false. -/
theorem conflict_of_lt (h : ∀ c ∈ clauses x y n k, c ∈ cs) (hn : 0 < n) (htn : t n < k) :
    Conflict cs as := by
  have hgoal : Clause.unit (y k (n - 1)) ∈ cs := (forall_mem_clauses.mp h).goal
  have hfalse : Propagated cs as (y k (n - 1)).negate :=
    (steps_of_mem h).false_of_lt ht0 ht (by omega) (Nat.le_refl k)
      (by rwa [Nat.sub_add_cancel hn])
  exact ⟨_, hgoal, by simpa [Clause.unit] using hfalse⟩

end Passes

/-! ## The encoding propagates -/

/-- Assume inputs false at any positions. If fewer than the bound are left, propagation on the
clauses of a run finds a conflict, and if just as many as the bound are left, it makes them true. -/
theorem encode_propagates {γ : Type} [Collector γ] (e : SequentialCounter) (k : Nat) (p : VarPool)
    (col : γ) (r : Encoded γ) (h : e.encode k p col = .ok r)
    (positions : List (Fin e.lits.length)) :
    let added := clausesOver e.lits r.matrix.vars k
    let as := assumeFalse e.lits positions
    Collector.extend col added = .ok r.collector ∧
    (leftCount as e.lits < k → Conflict added as) ∧
    (leftCount as e.lits = k → ∀ l ∈ e.lits, l.negate ∉ as → Propagated added as l) := by
  intro added as
  obtain ⟨-, hn, -, -, -, hcol⟩ := encode_ok h
  have ht : ∀ i < e.lits.length, leftCount as (e.lits.take (i + 1)) =
      leftCount as (e.lits.take i) + if (input e.lits i).negate ∈ as then 0 else 1 := by
    intro i hi
    rw [leftCount_take_succ hi, input_eq hi]
  have htn : leftCount as (e.lits.take e.lits.length) = leftCount as e.lits := by
    rw [List.take_length]
  refine ⟨hcol, fun hlt => ?_, fun heq l hl hleft => ?_⟩
  · exact conflict_of_lt (t := fun i => leftCount as (e.lits.take i)) rfl ht (fun _ hc => hc) hn
      (htn ▸ hlt)
  · obtain ⟨i, hi, rfl⟩ := List.getElem_of_mem hl
    have hsteps : Steps (input e.lits) (cell r.matrix.vars.toArray e.lits.length) e.lits.length k
        (Propagated added as) := steps_of_mem fun _ hc => hc
    rw [← input_eq hi] at hleft ⊢
    exact hsteps.input_true (t := fun i => leftCount as (e.lits.take i)) rfl ht (htn.trans heq) hi
      hleft

/-- Two of three inputs: one assumed false makes the others true, and two are a conflict. -/
theorem encode_propagates_two_of_three :
    let ls := [Var.pos ⟨0⟩, Var.pos ⟨1⟩, Var.pos ⟨2⟩]
    ∃ r, (ofLits ls).encode 2 ⟨⟨3⟩⟩ Cnf.empty = .ok r ∧
      (∀ l ∈ [Var.pos ⟨0⟩, Var.pos ⟨2⟩],
        Propagated (clausesOver ls r.matrix.vars 2) [(Var.pos ⟨1⟩).negate] l) ∧
      Conflict (clausesOver ls r.matrix.vars 2)
        [(Var.pos ⟨0⟩).negate, (Var.pos ⟨1⟩).negate] := by
  intro ls
  obtain ⟨r, hr⟩ : ∃ r, (ofLits ls).encode 2 ⟨⟨3⟩⟩ Cnf.empty = .ok r := ⟨_, rfl⟩
  refine ⟨r, hr, fun l hl => ?_, ?_⟩
  · exact (encode_propagates (ofLits ls) 2 ⟨⟨3⟩⟩ _ r hr [⟨1, by decide⟩]).2.2 (by decide) l
      (by revert l; decide) (by revert l; decide)
  · exact (encode_propagates (ofLits ls) 2 ⟨⟨3⟩⟩ _ r hr [⟨0, by decide⟩, ⟨1, by decide⟩]).2.1
      (by decide)

end SequentialCounter

end Clausal
