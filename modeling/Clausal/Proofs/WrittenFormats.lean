import Clausal.Proofs.ReadBack

/-!
# Both formats give back what was written

Clauses over numbered variables are written in either format, whatever number of variables the
header announces. If that number is usable then reading gives back the header and all clauses on
their sides, and else every reader reports the header (`read_written`).
-/

namespace Clausal.Dimacs

variable {hard : Cnf} {soft : List Clause} {vars : Nat}

theorem writable_iff {cs : List Clause} :
    writable cs = true ↔ ∀ c ∈ cs, ∀ l ∈ c.lits, l.index < Var.maxIndex := by
  simp only [writable, List.all_eq_true, hasNumber, decide_eq_true_eq]

/-! ## Headers of written instances -/

theorem find_cnfText (hr : (Header.cnf vars hard.size).Readable) :
    ∃ rest, Header.find 1 (rawLines (utf8Encode (cnfText hard vars))) =
      if vars ≤ Var.maxIndex then .ok (.cnf vars hard.size, 2, rest)
      else .error (.tooManyVars 2 vars) := by
  have hl : ∀ l ∈ (entriesOf hard []).map (Header.cnf vars hard.size).lineOf, '\n' ∉ l :=
    List.forall_mem_map.mpr fun e _ => newline_not_mem_lineOf _ e
  rw [cnfText_eq]
  exact ⟨_, find_linesText cnfComments_skipped hr hl⟩

theorem find_wcnfText (hr : (Header.wcnf vars (hard.size + soft.length) (topWeight soft)).Readable) :
    ∃ rest, Header.find 1 (rawLines (utf8Encode (wcnfText hard soft vars))) =
      if vars ≤ Var.maxIndex then
        .ok (.wcnf vars (hard.size + soft.length) (topWeight soft), 4, rest)
      else .error (.tooManyVars 4 vars) := by
  have hl : ∀ l ∈ (entriesOf hard soft).map
      (Header.wcnf vars (hard.size + soft.length) (topWeight soft)).lineOf, '\n' ∉ l :=
    List.forall_mem_map.mpr fun e _ => newline_not_mem_lineOf _ e
  rw [wcnfText_eq]
  exact ⟨_, find_linesText (wcnfComments_skipped hard soft) hr hl⟩

/-! ## Readers and the header -/

theorem Header.read_of_find {bs : Bytes} {h : Header} {n : Nat} {rest : List RawLine}
    (hf : Header.find 1 (rawLines bs) = .ok (h, n, rest)) : Header.read bs = .ok h := by
  unfold Header.read
  rw [hf]
  rfl

theorem Header.read_of_find_error {bs : Bytes} {e : Error}
    (hf : Header.find 1 (rawLines bs) = .error e) : Header.read bs = .error e := by
  unfold Header.read
  rw [hf]
  rfl

/-! ## Both formats -/

/-- What the readers make of a written instance: all of it if the announced number of variables is
usable, and the report of the header if it is not. -/
structure ReadBack (format : Format) (bs : Bytes) (i : Instance) : Prop where
  usable : i.header.vars ≤ Var.maxIndex →
    Instance.read format bs = .ok i ∧ Header.read bs = .ok i.header
  tooMany : Var.maxIndex < i.header.vars →
    Instance.read format bs = .error (.tooManyVars i.headerLine i.header.vars) ∧
      Header.read bs = .error (.tooManyVars i.headerLine i.header.vars)

/-- Any clauses over numbered variables that memory holds are written in both formats and read back,
also if the announced variables do not cover them. -/
theorem read_written
    (hlits : ∀ c ∈ hard.clauses ++ soft, ∀ l ∈ c.lits, l.index < Var.maxIndex)
    (hv : vars < 4294967296) (hh : fitsMemory hard.size clauseSize = true)
    (hs : fitsMemory soft.length clauseSize = true) :
    (∃ text, writeCnf hard vars = .ok text ∧
      ReadBack .cnf (utf8Encode text) ⟨.cnf vars hard.size, 2, hard, []⟩) ∧
    ∃ text, writeWcnf hard soft vars = .ok text ∧
      ReadBack .wcnf (utf8Encode text)
        ⟨.wcnf vars (hard.size + soft.length) (soft.length + 1), 4, hard, soft⟩ := by
  obtain ⟨hhard, hsoft⟩ := List.forall_mem_append.mp hlits
  have hwh : writable hard.clauses = true := writable_iff.mpr hhard
  have hws : writable soft = true := writable_iff.mpr hsoft
  constructor
  · obtain ⟨rest, hf⟩ := find_cnfText (readable_cnf hv hh)
    refine ⟨cnfText hard vars, by rw [writeCnf_eq, if_pos hwh], ?_, ?_⟩
    · intro (hle : vars ≤ Var.maxIndex)
      rw [if_pos hle] at hf
      exact ⟨read_cnfText hwh hle hh, Header.read_of_find hf⟩
    · intro (hgt : Var.maxIndex < vars)
      rw [if_neg (Nat.not_le.mpr hgt)] at hf
      exact ⟨Instance.read_of_find_error hf, Header.read_of_find_error hf⟩
  · obtain ⟨rest, hf⟩ := find_wcnfText (readable_wcnf hv hh hs)
    refine ⟨wcnfText hard soft vars, by rw [writeWcnf_eq, hwh, hws]; rfl, ?_, ?_⟩
    · intro (hle : vars ≤ Var.maxIndex)
      rw [if_pos hle] at hf
      exact ⟨read_wcnfText hwh hws hle hh hs, Header.read_of_find hf⟩
    · intro (hgt : Var.maxIndex < vars)
      rw [if_neg (Nat.not_le.mpr hgt)] at hf
      exact ⟨Instance.read_of_find_error hf, Header.read_of_find_error hf⟩

/-- An empty clause and a repeated literal above the two variables that are announced. -/
theorem read_written_uncovered :
    let hard : Cnf := ⟨[⟨[]⟩, ⟨[Var.pos ⟨5⟩, Var.pos ⟨5⟩]⟩]⟩
    let soft : List Clause := [⟨[Var.neg ⟨0⟩]⟩]
    (∀ c ∈ hard.clauses ++ soft, ∀ l ∈ c.lits, l.index < Var.maxIndex) ∧
    (∃ text, writeWcnf hard soft 2 = .ok text ∧
      Instance.read .wcnf (utf8Encode text) = .ok ⟨.wcnf 2 3 2, 4, hard, soft⟩) ∧
    ∃ text, writeCnf hard 4294967295 = .ok text ∧
      Instance.read .cnf (utf8Encode text) = .error (.tooManyVars 2 4294967295) := by
  intro hard soft
  have hlits : ∀ c ∈ hard.clauses ++ soft, ∀ l ∈ c.lits, l.index < Var.maxIndex := by decide
  have hfew : 2 < 4294967296 := by decide
  have hmany : 4294967295 < 4294967296 := by decide
  obtain ⟨-, text, hw, hr⟩ := read_written hlits hfew (by decide) (by decide)
  obtain ⟨⟨text', hw', hr'⟩, -⟩ := read_written hlits hmany (by decide) (by decide)
  exact ⟨hlits, ⟨text, hw, (hr.usable (by decide)).1⟩, text', hw', (hr'.tooMany (by decide)).1⟩

end Clausal.Dimacs
