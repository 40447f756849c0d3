import Clausal.Proofs.ModelInvariant
import Clausal.Proofs.ReadBack

/-!
# Models survive files

A reachable model that is written and read again is the same model, up to its name and, in an
unweighted file, its soft clauses. The pool comes back from the header: the literals of the clauses
are below the number of variables there, so adding the clauses again moves nothing.
-/

namespace Clausal.Model

theorem ofInstance_eq_ok (i : Dimacs.Instance) (hv : i.header.vars ≤ Var.maxIndex)
    (hh : LitsBelow i.header.vars i.hard.clauses) (hs : LitsBelow i.header.vars i.soft) :
    ofInstance i = .ok ⟨"", ⟨⟨i.header.vars⟩⟩, i.hard, i.soft⟩ := by
  have hbelow := hh.append hs
  refine ofInstance_eq_ok_iff.mpr ⟨hbelow.mono hv, ?_⟩
  rw [reach_eq_self]
  intro l hl
  obtain ⟨c, hc, hl⟩ := List.mem_flatMap.mp hl
  exact hbelow c hc l hl

theorem read_eq_ok {format : Dimacs.Format} {bs : Bytes} {i : Dimacs.Instance}
    (h : Dimacs.Instance.read format bs = .ok i) :
    Model.read format bs = .ok (ofInstance i) := by
  rw [read_eq_map, h]
  rfl

theorem inMemory_iff {m : Model} : m.inMemory = true ↔
    fitsMemory m.hard.size Dimacs.clauseSize = true ∧
      fitsMemory m.soft.length Dimacs.clauseSize = true := Bool.and_eq_true_iff

theorem read_writeCnf {m : Model} (hwf : WellFormed m) (hmem : m.inMemory = true) :
    Model.read .cnf (utf8Encode (Dimacs.cnfText m.hard m.varCount)) =
      .ok (.ok { m with name := "", soft := [] }) := by
  have hread := Dimacs.read_cnfText hwf.writable.1 hwf.usable (inMemory_iff.mp hmem).1
  rw [read_eq_ok hread]
  exact congrArg Except.ok (ofInstance_eq_ok ⟨.cnf m.varCount m.hard.size, 2, m.hard, []⟩
    hwf.usable (List.forall_mem_append.mp hwf.covered).1 (by simp [LitsBelow]))

theorem read_writeWcnf {m : Model} (hwf : WellFormed m) (hmem : m.inMemory = true) :
    Model.read .wcnf (utf8Encode (Dimacs.wcnfText m.hard m.soft m.varCount)) =
      .ok (.ok { m with name := "" }) := by
  obtain ⟨hh, hs⟩ := inMemory_iff.mp hmem
  have hread := Dimacs.read_wcnfText hwf.writable.1 hwf.writable.2 hwf.usable hh hs
  obtain ⟨hhard, hsoft⟩ := List.forall_mem_append.mp hwf.covered
  rw [read_eq_ok hread]
  exact congrArg Except.ok (ofInstance_eq_ok ⟨.wcnf m.varCount _ _, 4, m.hard, m.soft⟩
    hwf.usable hhard hsoft)

/-- A reachable model is written in both formats. Reading the text gives the model without its name,
and without its soft clauses if the format has none; writing that model gives the same text. -/
theorem reachable_read_write {m : Model} (h : Reachable m) :
    (∃ text, m.writeWcnf = .ok text ∧
      Model.read .wcnf (utf8Encode text) = .ok (.ok { m with name := "" }) ∧
      { m with name := "" }.writeWcnf = .ok text) ∧
    ∃ text, m.writeCnf = .ok text ∧
      Model.read .cnf (utf8Encode text) = .ok (.ok { m with name := "", soft := [] }) ∧
      { m with name := "", soft := [] }.writeCnf = .ok text := by
  have hwf := reachable_wellFormed h
  have hmem := reachable_inMemory h
  -- the writers read neither the name nor, for an unweighted file, the soft clauses
  exact ⟨⟨_, hwf.writeWcnf_eq, read_writeWcnf hwf hmem, hwf.writeWcnf_eq⟩,
    ⟨_, hwf.writeCnf_eq, read_writeCnf hwf hmem, hwf.writeCnf_eq⟩⟩

/-- A named model with an empty soft clause and a literal over the last of seven variables. -/
theorem reachable_read_write_named : ∃ g, ∃ g' : Grown,
    (Action.op (.addSoftClause ⟨[]⟩)).call (named "rota") = .ok g ∧
    (Action.op (.addUnit (Var.neg ⟨6⟩))).call g.model = .ok g' ∧
    ∃ text, g'.model.writeWcnf = .ok text ∧
      Model.read .wcnf (utf8Encode text) = .ok (.ok { g'.model with name := "" }) := by
  obtain ⟨g, g', hg, hg'⟩ : ∃ g, ∃ g' : Grown,
      (Action.op (.addSoftClause ⟨[]⟩)).call (named "rota") = .ok g ∧
      (Action.op (.addUnit (Var.neg ⟨6⟩))).call g.model = .ok g' := ⟨_, _, rfl, rfl⟩
  obtain ⟨text, hw, hr, -⟩ := (reachable_read_write (.call (.call (.named "rota") hg) hg')).1
  exact ⟨g, g', hg, hg', text, hw, hr⟩

end Clausal.Model
