import Clausal.Proofs.KeptText
import Clausal.Proofs.ModelInvariant

/-!
# What a read model can hold

The numbers of a file have 32 bits. The least of them, -2147483648, is a literal over the highest
variable, which no model can use; every other number has a counterpart of the other sign, so its
variable is usable. Hence a file that is read breaks the contract of the model in one way only: it
holds the least literal (`read_violates_iff`).
-/

namespace Clausal

/-- The literal of the least number in a file. -/
def Lit.least : Lit := Var.neg ⟨Var.maxIndex⟩

example : Lit.least.signed = -2147483648 := by decide

/-! ## Numbers of literals -/

/-- Among the literals with a 32-bit number only the least one is over the highest variable. -/
theorem Lit.index_lt_iff {l : Lit} (h : Decimal.fitsInt l.signed = true) :
    l.index < Var.maxIndex ↔ l ≠ least := by
  have hle := l.index_le
  have hindex : least.index = Var.maxIndex := by decide
  have hneg : least.isNeg = true := by decide
  constructor
  · rintro hlt rfl
    omega
  · intro hne
    by_contra hlt
    have heq : l.index = Var.maxIndex := by omega
    refine hne (ext_index (by rw [heq, hindex]) ?_)
    rw [hneg]
    by_contra hpos
    rw [Bool.not_eq_true] at hpos
    simp only [signed, hpos, heq, Var.maxIndex, Decimal.fitsInt] at h
    exact absurd h (by decide)

namespace Dimacs

/-! ## Clauses that are read -/

/-- Every literal has a 32-bit number. -/
def Numbered (c : Clause) : Prop := ∀ l ∈ c.lits, Decimal.fitsInt l.signed = true

/-- The clause of an entry. -/
def Entry.clause : Entry → Clause
  | hard c => c
  | soft c => c

theorem NumberRun.fits {run : List Char} {zs : List Int} (h : NumberRun run zs) :
    ∀ z ∈ zs, Decimal.fitsInt z = true := by
  induction h with
  | nil => exact nofun
  | single hw => exact List.forall_mem_singleton.mpr hw.fits
  | cons hw _ _ _ ih => exact List.forall_mem_cons.mpr ⟨hw.fits, ih⟩

theorem ClauseLine.numbered {cs t : List Char} {c : Clause} (h : ClauseLine cs c t) :
    Numbered c := by
  obtain ⟨-, run, ending, -, hrun, -⟩ := h
  intro l hl
  exact hrun.fits l.signed (List.mem_map_of_mem hl)

theorem Header.EntryLine.numbered {h : Header} {cs t : List Char} {e : Entry}
    (he : h.EntryLine cs e t) : Numbered e.clause := by
  cases h with
  | cnf =>
    obtain ⟨c, rfl, hc⟩ := he
    exact hc.numbered
  | wcnf =>
    obtain ⟨n, body, c, -, hc, ⟨-, rfl⟩ | ⟨-, -, rfl⟩⟩ := he
    · exact hc.numbered
    · exact hc.numbered

theorem numbered_of_holds {h : Header} {lines : List (List Char)} {found : List (Option Entry)}
    (hall : List.Forall₂ h.Holds lines found) : ∀ e ∈ found.reduceOption, Numbered e.clause := by
  induction hall with
  | nil => exact nofun
  | @cons cs r _ _ hline _ ih =>
    cases r with
    | none => exact ih
    | some e =>
      obtain ⟨t, he⟩ := hline
      exact List.forall_mem_cons.mpr ⟨he.numbered, ih⟩

theorem Instance.read_numbered {format : Format} {bs : Bytes} {i : Instance}
    (h : Instance.read format bs = .ok i) : ∀ c ∈ i.hard.clauses ++ i.soft, Numbered c := by
  obtain ⟨body, entries, -, -, -, hr, hhard, hsoft⟩ := Instance.read_ok_iff.mp h
  obtain ⟨lines, found, -, hlines, rfl⟩ := Header.readBody_eq_ok_iff.mp hr
  have hall := numbered_of_holds hlines
  rw [hhard, hsoft, List.forall_mem_append]
  constructor
  · intro c hc
    obtain ⟨e, he, hec⟩ := List.mem_filterMap.mp hc
    cases e with
    | hard d =>
      injection hec with hec
      exact hec ▸ hall _ he
    | soft d => cases hec
  · intro c hc
    obtain ⟨e, he, hec⟩ := List.mem_filterMap.mp hc
    cases e with
    | hard d => cases hec
    | soft d =>
      injection hec with hec
      exact hec ▸ hall _ he

end Dimacs

/-! ## Literals that cannot be added -/

theorem VarPool.cover_violation {p : VarPool} {ls : List Lit} {v : Violation}
    (h : p.cover ls = .error v) : v = .indexTooHigh := by
  cases ls with
  | nil => cases h
  | cons l ls =>
    have hcover : p.cover (l :: ls) =
        (p.markUsed (ls.foldl (fun v m => v.max m.var) l.var)).map (·.2) := rfl
    have hreach := max_index_foldl l.var 0 ls
    have hle : reach 0 (l :: ls) ≤ Var.maxIndex + 1 :=
      reach_le_iff.mpr ⟨Nat.zero_le _, fun m _ => Nat.lt_succ_of_le m.index_le⟩
    rw [Nat.zero_max, Nat.zero_max] at hreach
    rw [reach_cons, Nat.zero_max, ← (show l.var.index = l.index from rfl), ← hreach] at hle
    rw [hcover, map_error_iff] at h
    unfold markUsed Var.add Var.new at h
    rw [if_pos (by rw [Var.maxIndex] at hle; omega)] at h
    split at h
    · cases h
    · next e he =>
      split at he
      · cases he
      · injection he with he
        injection h with h
        rw [← h, ← he]

theorem VarPool.coverClauses_violation {p : VarPool} {cs : List Clause} {v : Violation}
    (h : p.coverClauses cs = .error v) : v = .indexTooHigh := by
  induction cs generalizing p with
  | nil => cases h
  | cons c cs ih =>
    have hstep : p.coverClauses (c :: cs) = p.cover c.lits >>= fun p => p.coverClauses cs := rfl
    rw [hstep, bind_error_iff] at h
    rcases h with h | ⟨q, -, h⟩
    · exact cover_violation h
    · exact ih h

namespace Model

theorem ofInstance_violation {i : Dimacs.Instance} {v : Violation}
    (h : ofInstance i = .error v) : v = .indexTooHigh := by
  rcases bind_error_iff.mp h with h | ⟨q, -, h⟩
  · exact VarPool.coverClauses_violation (map_error_iff.mp h)
  · exact VarPool.coverClauses_violation (map_error_iff.mp h)

theorem exists_ofInstance_iff {i : Dimacs.Instance} : (∃ m, ofInstance i = .ok m) ↔
    ∀ c ∈ i.hard.clauses ++ i.soft, ∀ l ∈ c.lits, l.index < Var.maxIndex := by
  constructor
  · rintro ⟨m, h⟩
    exact (ofInstance_eq_ok_iff.mp h).1
  · exact fun h => ⟨_, ofInstance_eq_ok_iff.mpr ⟨h, rfl⟩⟩

/-- Making a model of a read instance fails only on the least literal. -/
theorem ofInstance_error_iff {i : Dimacs.Instance} {v : Violation}
    (hi : ∀ c ∈ i.hard.clauses ++ i.soft, Dimacs.Numbered c) : ofInstance i = .error v ↔
      v = .indexTooHigh ∧ ∃ c ∈ i.hard.clauses ++ i.soft, Lit.least ∈ c.lits := by
  have hiff : (∃ m, ofInstance i = .ok m) ↔
      ∀ c ∈ i.hard.clauses ++ i.soft, Lit.least ∉ c.lits := by
    rw [exists_ofInstance_iff]
    refine forall₂_congr fun c hc => ?_
    constructor
    · intro h hmem
      exact absurd rfl ((Lit.index_lt_iff (hi c hc _ hmem)).mp (h _ hmem))
    · intro h l hl
      refine (Lit.index_lt_iff (hi c hc l hl)).mpr ?_
      rintro rfl
      exact h hl
  constructor
  · intro h
    refine ⟨ofInstance_violation h, ?_⟩
    by_contra hno
    obtain ⟨m, hm⟩ := hiff.mpr fun c hc hmem => hno ⟨c, hc, hmem⟩
    rw [hm] at h
    cases h
  · rintro ⟨rfl, c, hc, hmem⟩
    cases h : ofInstance i with
    | ok m => exact absurd hmem (hiff.mp ⟨m, h⟩ c hc)
    | error v => rw [ofInstance_violation h]

theorem addClause_single_iff {m : Model} {l : Lit} :
    (∃ m', m.addClause ⟨[l]⟩ = .ok m') ↔ l.index < Var.maxIndex := by
  unfold addClause
  constructor
  · rintro ⟨m', h⟩
    exact (extend_ok_iff.mp h).1 _ (List.mem_singleton.mpr rfl) l (List.mem_singleton.mpr rfl)
  · intro h
    refine ⟨_, extend_ok_iff.mpr ⟨?_, rfl⟩⟩
    simpa using h

/-- Reading a model breaks its contract if and only if the file can be read and holds the least
literal. All other literals of a file that is read can be added to any model. -/
theorem read_violates_iff (format : Dimacs.Format) (bs : Bytes) :
    (∀ v, Model.read format bs = .ok (.error v) ↔ v = .indexTooHigh ∧
      ∃ i, Dimacs.Instance.read format bs = .ok i ∧
        ∃ c ∈ i.hard.clauses ++ i.soft, Lit.least ∈ c.lits) ∧
    ∀ i, Dimacs.Instance.read format bs = .ok i →
      ∀ c ∈ i.hard.clauses ++ i.soft, ∀ l ∈ c.lits, ∀ m : Model,
        (∃ m', m.addClause ⟨[l]⟩ = .ok m') ↔ l ≠ Lit.least := by
  constructor
  · intro v
    rw [read_eq_map, map_ok_iff]
    constructor
    · rintro ⟨i, hi, h⟩
      obtain ⟨hv, hc⟩ := (ofInstance_error_iff (Dimacs.Instance.read_numbered hi)).mp h
      exact ⟨hv, i, hi, hc⟩
    · rintro ⟨hv, i, hi, hc⟩
      exact ⟨i, hi, (ofInstance_error_iff (Dimacs.Instance.read_numbered hi)).mpr ⟨hv, hc⟩⟩
  · intro i hi c hc l hl m
    rw [addClause_single_iff]
    exact Lit.index_lt_iff (Dimacs.Instance.read_numbered hi c hc l hl)

/-- The largest number of a file can be added. -/
theorem read_violates_iff_largest : ∃ i,
    Dimacs.Instance.read .wcnf (utf8Encode "p wcnf 1 1 2\n1 2147483647 0\n".toList) = .ok i ∧
      ⟨[Var.pos ⟨2147483646⟩]⟩ ∈ i.hard.clauses ++ i.soft ∧
      ∃ m', empty.addClause ⟨[Var.pos ⟨2147483646⟩]⟩ = .ok m' := by
  obtain ⟨i, hi, hc⟩ : ∃ i,
      Dimacs.Instance.read .wcnf (utf8Encode "p wcnf 1 1 2\n1 2147483647 0\n".toList) = .ok i ∧
        ⟨[Var.pos ⟨2147483646⟩]⟩ ∈ i.hard.clauses ++ i.soft :=
    ⟨⟨.wcnf 1 1 2, 1, ⟨[]⟩, [⟨[Var.pos ⟨2147483646⟩]⟩]⟩, by decide +kernel, by decide⟩
  refine ⟨i, hi, hc, ?_⟩
  exact ((read_violates_iff _ _).2 i hi _ hc _ (List.mem_singleton.mpr rfl) empty).mpr (by decide)

/-- The least number of a file is read, and no model takes it. -/
theorem read_least_number :
    (∃ i, Dimacs.Instance.read .cnf (utf8Encode "p cnf 1 1\n-2147483648 0\n".toList) = .ok i) ∧
      Model.read .cnf (utf8Encode "p cnf 1 1\n-2147483648 0\n".toList) =
        .ok (.error .indexTooHigh) :=
  ⟨⟨⟨.cnf 1 1, 1, ⟨[⟨[Lit.least]⟩]⟩, []⟩, by decide +kernel⟩, by decide +kernel⟩

end Model

end Clausal
