import Clausal.Proofs.CounterEncoding

/-!
# What a counter takes and adds

A counter over `n` literals with bound `k` takes `k + 1` rows of `n` consecutive variables, and its
matrix reads them row by row. It adds `5 + n * k + (n - 1) * (4 * k + 2)` clauses of one to three
literals, which are over the inputs and the cells, and no cell is missing from them. All of this
happens if the rows fit below the highest variable, and nothing otherwise (`encode_layout`).
-/

namespace Clausal

/-! ## Rows of consecutive variables -/

/-- The variables of a row, where the rows have `n` variables each and row 0 starts at `u`. -/
def rowVars (u n j : Nat) : List Var := (List.range n).map fun i => ⟨u + j * n + i⟩

theorem length_rowVars (u n j : Nat) : (rowVars u n j).length = n := by simp [rowVars]

theorem getElem?_rowVars {u n j i : Nat} (h : i < n) :
    (rowVars u n j)[i]? = some ⟨u + j * n + i⟩ := by
  simp [rowVars, h]

/-- A matrix of rows `0, …, k` over the variables from `u` on, with all that is read from it. -/
structure CounterMatrix.FillsRows (m : CounterMatrix) (u n k : Nat) : Prop where
  rows_eq : m.rows = k + 1
  columns_eq : m.columns = n
  get_eq : ∀ j ≤ k, ∀ i < n, m.get j i = .ok ⟨u + j * n + i⟩
  row_eq : ∀ j ≤ k, m.row j = .ok (rowVars u n j)
  elementAt_row : ∀ j ≤ k, ∀ i < n, (m.row j >>= fun vs => elementAt vs i) = m.get j i
  vars_eq : m.vars = (List.range (k + 1)).flatMap (rowVars u n)
  output_eq : m.output = m.get k (n - 1)

namespace VarPool

variable {p : VarPool}

/-- A part of a block is a row. -/
theorem take_drop_block {n j k : Nat} (hj : j ≤ k) :
    ((p.block ((k + 1) * n)).drop (j * n)).take n = rowVars p.used n j := by
  have hle : (j + 1) * n ≤ (k + 1) * n := Nat.mul_le_mul_right n (Nat.succ_le_succ hj)
  rw [Nat.succ_mul] at hle
  apply List.ext_getElem?
  intro i
  rw [List.getElem?_take, List.getElem?_drop]
  split
  · next hi =>
    rw [getElem?_block (by omega), getElem?_rowVars hi, Nat.add_assoc]
  · next hi => rw [List.getElem?_eq_none (by rw [length_rowVars]; omega)]

/-- A block of full rows is the rows one after the other. -/
theorem block_mul (p : VarPool) (n : Nat) (rows : Nat) :
    p.block (rows * n) = (List.range rows).flatMap (rowVars p.used n) := by
  induction rows with
  | zero => simp [block]
  | succ rows ih =>
    rw [List.range_succ, List.flatMap_append, ← ih, Nat.succ_mul]
    simp [block, rowVars, List.range_add, Function.comp_def, Nat.add_assoc]

theorem row_block {n j k : Nat} (hn : 0 < n) (hroom : p.used + (k + 1) * n ≤ Var.maxIndex)
    (hj : j ≤ k) :
    CounterMatrix.row ⟨p.block ((k + 1) * n), n⟩ j = .ok (rowVars p.used n j) := by
  have hstop : (j + 1) * n ≤ (k + 1) * n := Nat.mul_le_mul_right n (Nat.succ_le_succ hj)
  have hstart : j * n ≤ (j + 1) * n := Nat.mul_le_mul_right n (Nat.le_succ j)
  have hnext : j + 1 ≤ (j + 1) * n := Nat.le_mul_of_pos_right _ hn
  rw [Var.maxIndex] at hroom
  simp only [CounterMatrix.row]
  rw [countProduct_eq_ok (by omega)]
  show (countSum j 1 >>= _) = _
  rw [countSum_eq_ok (by omega)]
  show (countProduct (j + 1) n >>= _) = _
  rw [countProduct_eq_ok (by omega)]
  show (if (j + 1) * n ≤ (p.block ((k + 1) * n)).length then _ else _) = _
  rw [length_block, if_pos hstop, take_drop_block hj]

/-- The matrix over a block fills its rows with it. -/
theorem fillsRows_block {n k : Nat} (hn : 0 < n) (hroom : p.used + (k + 1) * n ≤ Var.maxIndex) :
    CounterMatrix.FillsRows ⟨p.block ((k + 1) * n), n⟩ p.used n k := by
  have hget : ∀ j ≤ k, ∀ i < n, CounterMatrix.get ⟨p.block ((k + 1) * n), n⟩ j i =
      .ok ⟨p.used + j * n + i⟩ := by
    intro j hj i hi
    rw [SequentialCounter.get_block hroom hj hi, Nat.add_assoc]
  have hlast : (k + 1) * n - 1 = k * n + (n - 1) := by
    rw [Nat.succ_mul, Nat.add_sub_assoc hn]
  refine ⟨?_, rfl, hget, fun j hj => row_block hn hroom hj, fun j hj i hi => ?_,
    p.block_mul n (k + 1), ?_⟩
  · show (p.block ((k + 1) * n)).length / n = k + 1
    rw [length_block, Nat.mul_div_cancel _ hn]
  · rw [row_block hn hroom hj, hget j hj i hi]
    show elementAt (rowVars p.used n j) i = _
    rw [elementAt, getElem?_rowVars hi]
  · rw [hget k (Nat.le_refl k) (n - 1) (by omega), CounterMatrix.output,
      List.getLast?_eq_getElem?, length_block, hlast,
      getElem?_block (cell_place_lt (Nat.le_refl k) (by omega)), Nat.add_assoc]

end VarPool

namespace SequentialCounter

/-! ## The clauses in numbers -/

section Clauses

variable {x : Nat → Lit} {y : Nat → Nat → Lit} {n k : Nat}

theorem length_family (f : Nat → Nat → Clause) (n k : Nat) :
    ((List.range n).flatMap fun i => (List.range k).map fun j => f i j).length = n * k := by
  induction n with
  | zero => simp
  | succ n ih =>
    rw [List.range_succ, List.flatMap_append, List.length_append, ih, Nat.succ_mul]
    simp

theorem length_clauses (x : Nat → Lit) (y : Nat → Nat → Lit) (n k : Nat) :
    (clauses x y n k).length = 5 + n * k + (n - 1) * (4 * k + 2) := by
  have hsum : (n - 1) * (4 * k + 2) = 4 * ((n - 1) * k) + (n - 1) * 2 := by
    rw [Nat.mul_add, Nat.mul_left_comm]
  simp only [clauses, boundary, downward, kept, bounded, raised, unraised, List.length_append,
    length_family, List.length_cons, List.length_nil]
  rw [hsum, Nat.mul_add]
  omega

theorem clauses_size : ∀ c ∈ clauses x y n k, 1 ≤ c.size ∧ c.size ≤ 3 := by
  rw [forall_mem_clauses (P := fun c => 1 ≤ c.size ∧ c.size ≤ 3)]
  constructor <;> simp [Clause.size, Clause.unit, Clause.refute, Clause.implies]

/-- Every cell is in a clause about the count going down from its row or to its row. -/
theorem exists_clause_cell (hk : 0 < k) {j i : Nat} (hj : j ≤ k) (hi : i < n) :
    ∃ c ∈ clauses x y n k, ∃ l ∈ c.lits, l.var = (y j i).var := by
  have hdown := (forall_mem_clauses (P := (· ∈ clauses x y n k)).mp fun _ hc => hc).down i hi
  rcases Nat.lt_or_eq_of_le hj with hlt | rfl
  · exact ⟨_, hdown j hlt, y j i, by simp [Clause.implies], rfl⟩
  · obtain ⟨j, rfl⟩ := Nat.exists_eq_succ_of_ne_zero (n := j) (by omega)
    exact ⟨_, hdown j (Nat.lt_succ_self j), (y (j + 1) i).negate, by simp [Clause.implies],
      Lit.var_negate _⟩

theorem length_clauses_le (x : Nat → Lit) (y : Nat → Nat → Lit) (hn : 0 < n) :
    (clauses x y n k).length ≤ 5 * ((k + 1) * n) := by
  obtain ⟨m, rfl⟩ := Nat.exists_eq_succ_of_ne_zero (n := n) (by omega)
  have hfour : m * (4 * k + 2) = 4 * (m * k) + m * 2 := by rw [Nat.mul_add, Nat.mul_left_comm]
  have hcells : (k + 1) * (m + 1) = m * k + m + (k + 1) := by
    rw [Nat.mul_succ, Nat.succ_mul, Nat.mul_comm]
  rw [length_clauses, Nat.succ_eq_add_one, Nat.add_sub_cancel, Nat.succ_mul, hfour, hcells]
  omega

end Clauses

/-! ## Runs -/

section Runs

variable {γ : Type} [Collector γ] {e : SequentialCounter} {k : Nat} {p : VarPool}

/-- A run whose rows fit takes them as one block and hands all clauses to the collector at once. -/
theorem encode_eq_map (hk : 2 ≤ k) (hn : 0 < e.lits.length)
    (hroom : p.used + (k + 1) * e.lits.length ≤ Var.maxIndex) (col : γ) :
    e.encode k p col =
      (Collector.extend col (clausesOver e.lits (p.block ((k + 1) * e.lits.length)) k)).map
        fun col' => {
          matrix := ⟨p.block ((k + 1) * e.lits.length), e.lits.length⟩
          encoder := {
            e with
            varCount := e.varCount + (k + 1) * e.lits.length
            clauseCount := e.clauseCount + (Collector.count col' - Collector.count col) }
          pool := ⟨⟨p.used + (k + 1) * e.lits.length⟩⟩
          collector := col' } := by
  have hrows : k + 1 ≤ (k + 1) * e.lits.length := Nat.le_mul_of_pos_right _ hn
  have hmem : ¬ (!fitsMemory (k + 1) rowSize) = true := by
    rw [Var.maxIndex] at hroom
    have hfits : fitsMemory (k + 1) rowSize = true :=
      decide_eq_true (show (k + 1) * 24 < 9223372036854775808 by omega)
    simp [hfits]
  have hlits : ¬ e.lits.isEmpty = true := by
    rw [List.isEmpty_iff]
    exact List.length_pos_iff.mp hn
  have hgrown : (⟨⟨p.used + (k + 1) * e.lits.length⟩⟩ : VarPool).used - p.used =
      (k + 1) * e.lits.length := Nat.add_sub_cancel_left _ _
  unfold encode
  -- none of the checks in front stops the run: the bound, the literals, the room for the rows
  rw [if_neg (by omega), if_neg hlits, if_neg hmem]
  dsimp only
  rw [VarPool.freshRows_eq_ok p hroom]
  show (Collector.extend col (clausesOver e.lits (p.block _) k) >>= _) = _
  cases Collector.extend col (clausesOver e.lits (p.block ((k + 1) * e.lits.length)) k) with
  | error v => rfl
  | ok col' =>
    show Except.ok (Encoded.mk _ _ _ _) = Except.ok (Encoded.mk _ _ _ _)
    rw [hgrown]

theorem encode_eq_error (hroom : Var.maxIndex < p.used + (k + 1) * e.lits.length) (col : γ) :
    ∃ v, e.encode k p col = .error v := by
  cases h : e.encode k p col with
  | error v => exact ⟨v, rfl⟩
  | ok r => exact absurd (encode_ok h).room (by omega)

end Runs

/-- A counter over some literals with a bound of two or more is built exactly if its rows fit below
the highest variable. Then its matrix fills `k + 1` rows from the first free variable on, the clauses
in front stay, and the added ones are small, over inputs and cells, and use every cell. -/
theorem encode_layout (ls : List Lit) (k : Nat) (p : VarPool) (f : Cnf) (hn : ls ≠ [])
    (hk : 2 ≤ k) :
    (Var.maxIndex < p.used + (k + 1) * ls.length →
      ∃ v, (ofLits ls).encode k p f = .error v) ∧
    (p.used + (k + 1) * ls.length ≤ Var.maxIndex →
      ∃ r added, (ofLits ls).encode k p f = .ok r ∧
        r.pool.used = p.used + (k + 1) * ls.length ∧
        r.matrix.FillsRows p.used ls.length k ∧
        r.collector.clauses = f.clauses ++ added ∧
        added.length = 5 + ls.length * k + (ls.length - 1) * (4 * k + 2) ∧
        (∀ c ∈ added, 1 ≤ c.size ∧ c.size ≤ 3) ∧
        (∀ c ∈ added, ∀ l ∈ c.lits, l.var ∈ ls.map Lit.var ∨ l.var ∈ r.matrix.vars) ∧
        ∀ v ∈ r.matrix.vars, ∃ c ∈ added, ∃ l ∈ c.lits, l.var = v) := by
  have hpos : 0 < ls.length := List.length_pos_iff.mpr hn
  refine ⟨fun hroom => encode_eq_error hroom f, fun hroom => ?_⟩
  obtain ⟨r, hr⟩ : ∃ r, (ofLits ls).encode k p f = .ok r :=
    ⟨_, encode_eq_map (e := ofLits ls) hk hpos hroom f⟩
  obtain ⟨-, -, -, hm, hp, hcol⟩ := encode_ok hr
  injection hcol with hcol
  rw [hm] at hcol
  refine ⟨r, clausesOver ls (p.block ((k + 1) * ls.length)) k, hr, by rw [hp]; rfl, ?_, ?_,
    length_clauses _ _ _ _, clauses_size, ?_, ?_⟩
  · rw [hm]
    exact VarPool.fillsRows_block hpos hroom
  · rw [← hcol]
    rfl
  · rw [hm]
    exact clausesOver_vars (P := fun v => v ∈ ls.map Lit.var ∨ v ∈ p.block ((k + 1) * ls.length))
      hpos hk hroom (fun l hl => .inl (List.mem_map_of_mem hl)) fun v hv => .inr hv
  · rw [hm]
    intro v hv
    obtain ⟨j, hj, i, hi, rfl⟩ := exists_cell hpos hv
    have hlt := cell_place_lt hj hi
    obtain ⟨c, hc, l, hl, hvar⟩ := exists_clause_cell (x := input ls)
      (y := cell (p.block ((k + 1) * ls.length)).toArray ls.length) (by omega) hj hi
    rw [cell_block hj hi, Var.var_pos (by simp only; omega)] at hvar
    exact ⟨c, hc, l, hl, hvar⟩

/-- Three rows of two cells fit up to the highest variable, and not from one variable later on. -/
theorem encode_layout_at_limit :
    let ls := [Var.pos ⟨0⟩, Var.neg ⟨1⟩]
    (∃ r, (ofLits ls).encode 2 ⟨⟨2147483641⟩⟩ Cnf.empty = .ok r ∧
      r.matrix.FillsRows 2147483641 2 2 ∧ r.collector.clauses.length = 19) ∧
    ∃ v, (ofLits ls).encode 2 ⟨⟨2147483642⟩⟩ Cnf.empty = .error v := by
  intro ls
  have hn : ls ≠ [] := List.cons_ne_nil _ _
  obtain ⟨r, added, hr, -, hfills, hcs, hlen, -⟩ :=
    (encode_layout ls 2 ⟨⟨2147483641⟩⟩ .empty hn (by decide)).2 (by decide)
  refine ⟨⟨r, hr, hfills, ?_⟩, ?_⟩
  · rw [hcs, List.length_append, hlen]
    rfl
  · exact (encode_layout ls 2 ⟨⟨2147483642⟩⟩ .empty hn (by decide)).1 (by decide)

end SequentialCounter

end Clausal
