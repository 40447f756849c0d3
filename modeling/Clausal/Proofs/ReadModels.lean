import Clausal.Proofs.ReadLimits
import Mathlib.Order.Bounds.Basic

/-!
# Models that are read

A model that is read has the clauses of its file in their order. Its clauses are added one by one
behind the variables of the header, so the number of its variables is that of the header or one more
than the highest index of a literal, whichever is greater (`read_covers_instance`).
-/

namespace Clausal

/-- The reach is where it started, or right above a literal. -/
theorem reach_cases (n : Nat) (ls : List Lit) :
    reach n ls = n ∨ ∃ l ∈ ls, reach n ls = l.index + 1 := by
  induction ls generalizing n with
  | nil => exact .inl rfl
  | cons l ls ih =>
    rw [reach_cons]
    rcases ih (max n (l.index + 1)) with heq | ⟨m, hm, heq⟩
    · rw [heq]
      rcases Nat.le_total n (l.index + 1) with hle | hle
      · exact .inr ⟨l, List.mem_cons_self, Nat.max_eq_right hle⟩
      · exact .inl (Nat.max_eq_left hle)
    · exact .inr ⟨m, List.mem_cons_of_mem l hm, heq⟩

namespace Model

/-- The numbers of variables that the header and the literals of an instance ask for. -/
def varCountsOf (i : Dimacs.Instance) : Set Nat :=
  insert i.header.vars {n | ∃ c ∈ i.hard.clauses ++ i.soft, ∃ l ∈ c.lits, n = l.index + 1}

theorem isGreatest_reach (i : Dimacs.Instance) : IsGreatest (varCountsOf i)
    (reach i.header.vars ((i.hard.clauses ++ i.soft).flatMap Clause.lits)) := by
  constructor
  · rcases reach_cases i.header.vars ((i.hard.clauses ++ i.soft).flatMap Clause.lits) with
      heq | ⟨l, hl, heq⟩
    · exact .inl heq
    · obtain ⟨c, hc, hl⟩ := List.mem_flatMap.mp hl
      exact .inr ⟨c, hc, l, hl, heq⟩
  · rintro n (rfl | ⟨c, hc, l, hl, rfl⟩)
    · exact le_reach _ _
    · exact index_lt_reach (List.mem_flatMap.mpr ⟨c, hc, hl⟩)

/-- A file that is read, without a literal over the highest variable, gives the nameless model with
its clauses in order and as few variables as the header and the literals need. A file that is not
read gives the same error. The header that was checked in reading is never at fault again. -/
theorem read_covers_instance (format : Dimacs.Format) (bs : Bytes) :
    (∀ i, Dimacs.Instance.read format bs = .ok i →
      (∀ c ∈ i.hard.clauses ++ i.soft, ∀ l ∈ c.lits, l.index ≠ Var.maxIndex) →
      ∃ m, Model.read format bs = .ok (.ok m) ∧ m.name = "" ∧ m.hard = i.hard ∧ m.soft = i.soft ∧
        IsGreatest (varCountsOf i) m.varCount) ∧
    (∀ e, Dimacs.Instance.read format bs = .error e → Model.read format bs = .error e) ∧
    ∀ i, Dimacs.Instance.read format bs = .ok i → ¬ ∃ e, ofRead i = .error e := by
  refine ⟨fun i hi hne => ?_, fun e he => ?_, ?_⟩
  · have hlt : ∀ c ∈ i.hard.clauses ++ i.soft, ∀ l ∈ c.lits, l.index < Var.maxIndex :=
      fun c hc l hl => Nat.lt_of_le_of_ne l.index_le (hne c hc l hl)
    refine ⟨⟨"", ⟨⟨reach i.header.vars _⟩⟩, i.hard, i.soft⟩, ?_, rfl, rfl, rfl, isGreatest_reach i⟩
    rw [read_eq_map, hi]
    exact congrArg Except.ok (ofInstance_eq_ok_iff.mpr ⟨hlt, rfl⟩)
  · rw [read_eq_map, he]
    rfl
  · rintro i hi ⟨e, he⟩
    rw [ofRead_eq_ok hi] at he
    cases he

/-- The header announces two variables, the hard clause needs five and the soft one seven. Read in
the other format the file has the wrong header. -/
theorem read_covers_instance_beyond_header :
    let bs := utf8Encode "p wcnf 2 2 3\n1 7 0\n3 1 -5 0\n".toList
    let i : Dimacs.Instance := ⟨.wcnf 2 2 3, 1, ⟨[⟨[Var.pos ⟨0⟩, Var.neg ⟨4⟩]⟩]⟩, [⟨[Var.pos ⟨6⟩]⟩]⟩
    Dimacs.Instance.read .wcnf bs = .ok i ∧
      (∀ c ∈ i.hard.clauses ++ i.soft, ∀ l ∈ c.lits, l.index ≠ Var.maxIndex) ∧
      ∃ m, Model.read .wcnf bs = .ok (.ok m) ∧ m.name = "" ∧ m.hard = i.hard ∧ m.soft = i.soft ∧
        IsGreatest (varCountsOf i) m.varCount ∧ m.varCount = 7 ∧
        Model.read .cnf bs = .error (.wrongFormat .cnf .wcnf) := by
  intro bs i
  have hi : Dimacs.Instance.read .wcnf bs = .ok i := by decide +kernel
  have hne : ∀ c ∈ i.hard.clauses ++ i.soft, ∀ l ∈ c.lits, l.index ≠ Var.maxIndex := by decide
  obtain ⟨m, hm, hname, hhard, hsoft, hcount⟩ := (read_covers_instance .wcnf bs).1 i hi hne
  have hseven : Model.read .wcnf bs = .ok (.ok ⟨"", ⟨⟨7⟩⟩, i.hard, i.soft⟩) := by decide +kernel
  have hwrong := (read_covers_instance .cnf bs).2.1 (.wrongFormat .cnf .wcnf) (by decide +kernel)
  refine ⟨hi, hne, m, hm, hname, hhard, hsoft, hcount, ?_, hwrong⟩
  rw [hm] at hseven
  injection hseven with hseven
  injection hseven with hseven
  rw [hseven]
  rfl

end Model

end Clausal
