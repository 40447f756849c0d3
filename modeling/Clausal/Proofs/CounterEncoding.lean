import Clausal.Proofs.CounterMeaning
import Clausal.Proofs.PoolGrowth

/-!
# Sequential counters are exact

A run of the counter encoder takes a block of fresh variables, row by row, and adds clauses that say
of a total assignment that every cell counts the inputs up to its column and that the bound is met
(`encode_exact`). If the inputs are used variables, the cells are determined by the inputs, so an
assignment of the used variables extends to the cells in at most one way, and in one way if and only
if the bound is met.
-/

namespace Clausal

/-- Each cell of rows `0, …, k` says whether the inputs up to its column reach its row. -/
def CounterMatrix.Counts (m : CounterMatrix) (ls : List Lit) (k : Nat) (τ : Valuation) : Prop :=
  ∀ j ≤ k, ∀ i < ls.length,
    ∃ v, m.get j i = .ok v ∧ (τ v = true ↔ j ≤ trueCount (ls.take (i + 1)) τ)

/-- The place of a cell is below the number of cells. -/
theorem cell_place_lt {j i k n : Nat} (hj : j ≤ k) (hi : i < n) : j * n + i < (k + 1) * n := by
  calc j * n + i < j * n + n := by omega
    _ = (j + 1) * n := (Nat.succ_mul j n).symm
    _ ≤ (k + 1) * n := Nat.mul_le_mul_right n (by omega)

namespace SequentialCounter

/-! ## What a run does -/

/-- All that a run of the encoder with bound `k` does. -/
structure Ran {γ : Type} [Collector γ] (e : SequentialCounter) (k : Nat) (p : VarPool) (col : γ)
    (r : Encoded γ) : Prop where
  two_le : 2 ≤ k
  inputs : 0 < e.lits.length
  room : p.used + (k + 1) * e.lits.length ≤ Var.maxIndex
  matrix : r.matrix = ⟨p.block ((k + 1) * e.lits.length), e.lits.length⟩
  pool : r.pool = ⟨⟨p.used + (k + 1) * e.lits.length⟩⟩
  collected : Collector.extend col (clausesOver e.lits r.matrix.vars k) = .ok r.collector

theorem encode_ok {γ : Type} [Collector γ] {e : SequentialCounter} {k : Nat} {p : VarPool}
    {col : γ} {r : Encoded γ} (h : e.encode k p col = .ok r) : Ran e k p col r := by
  unfold encode at h
  by_cases hk : k ≤ 1
  · rw [if_pos hk] at h
    cases h
  by_cases hl : e.lits.isEmpty = true
  · rw [if_neg hk, if_pos hl] at h
    cases h
  by_cases hf : (!fitsMemory (k + 1) rowSize) = true
  · rw [if_neg hk, if_neg hl, if_pos hf] at h
    cases h
  rw [if_neg hk, if_neg hl, if_neg hf] at h
  obtain ⟨⟨vs, q⟩, hv, h⟩ := bind_ok_iff.mp h
  obtain ⟨col', hc, h⟩ := bind_ok_iff.mp h
  injection h with h
  subst h
  have hn : 0 < e.lits.length := List.length_pos_iff.mpr (by simpa using hl)
  have hpos : 0 < (k + 1) * e.lits.length := Nat.mul_pos (by omega) hn
  obtain ⟨hroom, rfl, rfl⟩ := VarPool.freshMany_ok (VarPool.freshRows_ok_iff.mp hv)
  exact ⟨by omega, hn, by omega, rfl, rfl, hc⟩

/-! ## The cells of a block -/

section Block

variable {p : VarPool} {ls : List Lit} {k : Nat} {τ : Valuation}

theorem input_eq {i : Nat} (hi : i < ls.length) : input ls i = ls[i] := by
  rw [input, List.getD_eq_getElem?_getD, List.getElem?_eq_getElem hi, Option.getD_some]

theorem get_block {n j i : Nat} (hroom : p.used + (k + 1) * n ≤ Var.maxIndex) (hj : j ≤ k)
    (hi : i < n) : CounterMatrix.get ⟨p.block ((k + 1) * n), n⟩ j i =
      .ok ⟨p.used + (j * n + i)⟩ := by
  have hlt := cell_place_lt hj hi
  rw [Var.maxIndex] at hroom
  simp only [CounterMatrix.get, if_pos hi]
  rw [countProduct_eq_ok (by omega)]
  show (countSum (j * n) i >>= fun place => elementAt _ place) = _
  rw [countSum_eq_ok (by omega)]
  show elementAt _ (j * n + i) = _
  rw [elementAt, VarPool.getElem?_block hlt]

theorem cell_block {n j i : Nat} (hj : j ≤ k) (hi : i < n) :
    cell (p.block ((k + 1) * n)).toArray n j i = Var.pos ⟨p.used + (j * n + i)⟩ := by
  have hlt := cell_place_lt hj hi
  rw [cell, Array.getD_eq_getD_getElem?, List.getElem?_toArray, VarPool.getElem?_block hlt,
    Option.getD_some]

/-- The matrix over a block counts if and only if the cells of its clauses do. -/
theorem counts_block (hroom : p.used + (k + 1) * ls.length ≤ Var.maxIndex) :
    CounterMatrix.Counts ⟨p.block ((k + 1) * ls.length), ls.length⟩ ls k τ ↔
      CellsCount (cell (p.block ((k + 1) * ls.length)).toArray ls.length)
        (fun i => trueCount (ls.take i) τ) ls.length k τ := by
  refine forall₄_congr fun j hj i hi => ?_
  have hlt := cell_place_lt hj hi
  rw [get_block hroom hj hi, cell_block hj hi, Var.holds_pos (by simp only; omega)]
  simp

/-- The clauses over a block say that its matrix counts and that the bound is met. -/
theorem clausesOver_hold_iff (hn : 0 < ls.length) (hk : 2 ≤ k)
    (hroom : p.used + (k + 1) * ls.length ≤ Var.maxIndex) :
    (∀ c ∈ clausesOver ls (p.block ((k + 1) * ls.length)) k, c.Holds τ) ↔
      CounterMatrix.Counts ⟨p.block ((k + 1) * ls.length), ls.length⟩ ls k τ ∧
        k ≤ trueCount ls τ := by
  have hs : ∀ i < ls.length, trueCount (ls.take (i + 1)) τ =
      trueCount (ls.take i) τ + ((input ls i).holds τ).toNat := by
    intro i hi
    rw [trueCount_take_succ hi, input_eq hi]
  rw [clausesOver, clauses_hold_iff (s := fun i => trueCount (ls.take i) τ) rfl hs hn hk,
    counts_block hroom, List.take_length]

/-- The clauses over a block are over the inputs and the block. -/
theorem clausesOver_vars {P : Var → Prop} (hn : 0 < ls.length) (hk : 2 ≤ k)
    (hroom : p.used + (k + 1) * ls.length ≤ Var.maxIndex) (hx : ∀ l ∈ ls, P l.var)
    (hy : ∀ v ∈ p.block ((k + 1) * ls.length), P v) :
    ∀ c ∈ clausesOver ls (p.block ((k + 1) * ls.length)) k, ∀ l ∈ c.lits, P l.var := by
  refine clauses_vars hn hk (fun i hi => ?_) (fun j hj i hi => ?_)
  · rw [input_eq hi]
    exact hx _ (List.getElem_mem hi)
  · have hlt := cell_place_lt hj hi
    rw [cell_block hj hi, Var.var_pos (by simp only; omega)]
    exact hy _ (VarPool.mem_block.mpr ⟨by simp only; omega, by simp only; omega⟩)

/-! ## The values of the cells -/

/-- Every variable of a block is the cell of a row and a column. -/
theorem exists_cell {n : Nat} {v : Var} (hn : 0 < n) (hv : v ∈ p.block ((k + 1) * n)) :
    ∃ j ≤ k, ∃ i < n, v = ⟨p.used + (j * n + i)⟩ := by
  obtain ⟨h1, h2⟩ := VarPool.mem_block.mp hv
  have hlt : v.index - p.used < (k + 1) * n := by omega
  refine ⟨(v.index - p.used) / n, ?_, (v.index - p.used) % n, Nat.mod_lt _ hn, ?_⟩
  · exact Nat.le_of_lt_succ (Nat.div_lt_of_lt_mul (by rwa [Nat.mul_comm n]))
  · rw [Nat.mul_comm, Nat.div_add_mod, Nat.add_sub_cancel' h1]

/-- Gives each cell of a block the value that its count asks for. -/
def withCounts (p : VarPool) (ls : List Lit) (k : Nat) (τ : Valuation) : Valuation := fun v =>
  if v ∈ p.block ((k + 1) * ls.length) then
    decide ((v.index - p.used) / ls.length ≤
      trueCount (ls.take ((v.index - p.used) % ls.length + 1)) τ)
  else τ v

theorem withCounts_agreesOff :
    Valuation.AgreesOff (p.block ((k + 1) * ls.length)) (withCounts p ls k τ) τ :=
  fun _ hv => if_neg hv

theorem withCounts_cell {j i : Nat} (hj : j ≤ k) (hi : i < ls.length) :
    withCounts p ls k τ ⟨p.used + (j * ls.length + i)⟩ =
      decide (j ≤ trueCount (ls.take (i + 1)) τ) := by
  have hlt := cell_place_lt hj hi
  have hmem : (⟨p.used + (j * ls.length + i)⟩ : Var) ∈ p.block ((k + 1) * ls.length) :=
    VarPool.mem_block.mpr ⟨by simp only; omega, by simp only; omega⟩
  have hdiv : (j * ls.length + i) / ls.length = j := by
    rw [Nat.mul_comm, Nat.mul_add_div (by omega), Nat.div_eq_of_lt hi, Nat.add_zero]
  have hmod : (j * ls.length + i) % ls.length = i := by
    rw [Nat.mul_comm, Nat.mul_add_mod, Nat.mod_eq_of_lt hi]
  unfold withCounts
  rw [if_pos hmem, Nat.add_sub_cancel_left, hdiv, hmod]

/-- An assignment that meets the bound extends to the cells, if no input is one. -/
theorem exists_extension (hn : 0 < ls.length) (hk : 2 ≤ k)
    (hroom : p.used + (k + 1) * ls.length ≤ Var.maxIndex)
    (hin : ∀ l ∈ ls, l.var ∉ p.block ((k + 1) * ls.length)) (hb : k ≤ trueCount ls τ) :
    ∃ σ, Valuation.AgreesOff (p.block ((k + 1) * ls.length)) σ τ ∧
      ∀ c ∈ clausesOver ls (p.block ((k + 1) * ls.length)) k, c.Holds σ := by
  have hcount : ∀ i, trueCount (ls.take i) (withCounts p ls k τ) = trueCount (ls.take i) τ :=
    fun i => trueCount_congr fun l hl =>
      withCounts_agreesOff _ (hin l (List.mem_of_mem_take hl))
  refine ⟨withCounts p ls k τ, withCounts_agreesOff, ?_⟩
  rw [clausesOver_hold_iff hn hk hroom]
  constructor
  · intro j hj i hi
    refine ⟨_, get_block hroom hj hi, ?_⟩
    rw [withCounts_cell hj hi, hcount, decide_eq_true_iff]
  · have h := hcount ls.length
    rw [List.take_length] at h
    rwa [h]

/-- The inputs determine the cells. -/
theorem cells_unique {σ : Valuation} (hn : 0 < ls.length) (hk : 2 ≤ k)
    (hroom : p.used + (k + 1) * ls.length ≤ Var.maxIndex) (hin : ∀ l ∈ ls, σ l.var = τ l.var)
    (hσ : ∀ c ∈ clausesOver ls (p.block ((k + 1) * ls.length)) k, c.Holds σ)
    (hτ : ∀ c ∈ clausesOver ls (p.block ((k + 1) * ls.length)) k, c.Holds τ) :
    ∀ v ∈ p.block ((k + 1) * ls.length), σ v = τ v := by
  intro v hv
  obtain ⟨j, hj, i, hi, rfl⟩ := exists_cell hn hv
  have hcount : trueCount (ls.take (i + 1)) σ = trueCount (ls.take (i + 1)) τ :=
    trueCount_congr fun l hl => hin l (List.mem_of_mem_take hl)
  obtain ⟨v, hv, hvσ⟩ := ((clausesOver_hold_iff hn hk hroom).mp hσ).1 j hj i hi
  obtain ⟨w, hw, hwτ⟩ := ((clausesOver_hold_iff hn hk hroom).mp hτ).1 j hj i hi
  rw [get_block hroom hj hi] at hv hw
  injection hv with hv
  injection hw with hw
  subst hv hw
  rw [Bool.eq_iff_iff, hvσ, hwτ, hcount]

end Block

/-! ## The encoding is exact -/

/-- A total assignment that keeps the values below `n` and makes clauses true. -/
def Completion (n : Nat) (cs : List Clause) (τ σ : Valuation) : Prop :=
  Valuation.AgreesBelow n σ τ ∧ ∀ c ∈ cs, c.Holds σ

/-- Over used inputs an assignment has a completion if and only if it meets the bound. -/
theorem exists_completion_iff {p : VarPool} {ls : List Lit} {k : Nat} (hn : 0 < ls.length)
    (hk : 2 ≤ k) (hroom : p.used + (k + 1) * ls.length ≤ Var.maxIndex)
    (hin : ∀ l ∈ ls, l.index < p.used) (τ : Valuation) :
    (∃ σ, Completion p.used (clausesOver ls (p.block ((k + 1) * ls.length)) k) τ σ) ↔
      k ≤ trueCount ls τ := by
  have hfresh : ∀ v ∈ p.block ((k + 1) * ls.length), ¬ v.index < p.used :=
    fun v hv => Nat.not_lt.mpr (VarPool.mem_block.mp hv).1
  constructor
  · rintro ⟨σ, hσ, hcs⟩
    rw [← trueCount_congr fun l hl => hσ l.var (hin l hl)]
    exact ((clausesOver_hold_iff hn hk hroom).mp hcs).2
  · intro hb
    obtain ⟨σ, hσ, hcs⟩ := exists_extension hn hk hroom
      (fun l hl hmem => hfresh _ hmem (hin l hl)) hb
    exact ⟨σ, fun v hv => hσ v fun hmem => hfresh v hmem hv, hcs⟩

/-- The clauses of a run say that its matrix counts and that the bound is met. Over used inputs an
assignment of the used variables extends to the matrix in at most one way, and if and only if it
meets the bound. -/
theorem encode_exact {γ : Type} [Collector γ] (e : SequentialCounter) (k : Nat) (p : VarPool)
    (col : γ) (r : Encoded γ) (h : e.encode k p col = .ok r) :
    let added := clausesOver e.lits r.matrix.vars k
    Collector.extend col added = .ok r.collector ∧
    (∀ τ, (∀ c ∈ added, c.Holds τ) ↔ r.matrix.Counts e.lits k τ ∧ k ≤ trueCount e.lits τ) ∧
    ((∀ l ∈ e.lits, l.index < p.used) →
      (∀ v ∈ r.matrix.vars, p.used ≤ v.index) ∧
      ∀ τ,
        ((∃ σ, Completion p.used added τ σ) ↔ k ≤ trueCount e.lits τ) ∧
        (e.lits.length < k → ¬ ∃ σ, Completion p.used added τ σ) ∧
        ∀ σ σ', Completion p.used added τ σ → Completion p.used added τ σ' →
          ∀ v ∈ r.matrix.vars, σ v = σ' v) := by
  obtain ⟨hk, hn, hroom, hm, -, hcol⟩ := encode_ok h
  rw [hm] at hcol ⊢
  refine ⟨hcol, fun τ => clausesOver_hold_iff hn hk hroom,
    fun hin => ⟨fun v hv => (VarPool.mem_block.mp hv).1, fun τ => ?_⟩⟩
  have hext := exists_completion_iff hn hk hroom hin τ
  refine ⟨hext, fun hlen hex => ?_, fun σ σ' hσ hσ' => ?_⟩
  · have := trueCount_le_length e.lits τ
    have := hext.mp hex
    omega
  · refine cells_unique hn hk hroom (fun l hl => ?_) hσ.2 hσ'.2
    rw [hσ.1 l.var (hin l hl), hσ'.1 l.var (hin l hl)]

/-- Two of a literal, another one and its negation: the count goes by position. -/
theorem encode_exact_repeated :
    let ls := [Var.pos ⟨0⟩, Var.pos ⟨1⟩, Var.neg ⟨1⟩, Var.pos ⟨0⟩]
    ∃ r, (ofLits ls).encode 3 ⟨⟨2⟩⟩ Cnf.empty = .ok r ∧ (∀ l ∈ ls, l.index < 2) ∧
      ∀ τ, (∃ σ, Completion 2 (clausesOver ls r.matrix.vars 3) τ σ) ↔ 3 ≤ trueCount ls τ := by
  intro ls
  obtain ⟨r, hr⟩ : ∃ r, (ofLits ls).encode 3 ⟨⟨2⟩⟩ Cnf.empty = .ok r := ⟨_, rfl⟩
  have hin : ∀ l ∈ ls, l.index < 2 := by decide
  exact ⟨r, hr, hin, fun τ => (((encode_exact (ofLits ls) 3 ⟨⟨2⟩⟩ _ r hr).2.2 hin).2 τ).1⟩

end SequentialCounter

end Clausal
