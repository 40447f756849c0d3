import Clausal.Model.File
import Clausal.Proofs.ModelGrowth
import Clausal.Proofs.ReadInstance
import Mathlib.Logic.Relation

/-!
# The invariant of a model

The models that calls lead to, from a new model or from one that was read. In all of them every
literal is over a used variable and every used variable has a number in a file, so later variables
are apart from earlier clauses, and writing never meets a literal without a number.
-/

namespace Clausal.Model

/-! ## Reachable models -/

/-- Whether memory may hold the two lists of clauses. -/
def inMemory (m : Model) : Bool :=
  fitsMemory m.hard.size Dimacs.clauseSize && fitsMemory m.soft.length Dimacs.clauseSize

/-- Makes a call. A list of clauses cannot outgrow memory. -/
def Action.call (m : Model) (a : Action) : Except Violation Grown := do
  let g ← a.run m
  if g.model.inMemory then return g else throw .beyondMemory

theorem Action.call_ok_iff {m : Model} {a : Action} {g : Grown} :
    a.call m = .ok g ↔ a.run m = .ok g ∧ g.model.inMemory = true := by
  unfold call
  rw [bind_ok_iff]
  constructor
  · rintro ⟨g', hg, h⟩
    split at h
    · next hmem =>
      injection h with h
      exact h ▸ ⟨hg, hmem⟩
    · cases h
  · rintro ⟨hg, hmem⟩
    exact ⟨g, hg, if_pos hmem⟩

/-- The models that are made by calls, from a new model or from one that was read. -/
inductive Reachable : Model → Prop
  | named (name : String) : Reachable (Model.named name)
  | read {format : Dimacs.Format} {bs : Bytes} {m : Model} (h : Model.read format bs = .ok (.ok m))
    (hmem : m.inMemory = true) : Reachable m
  | call {m : Model} {a : Action} {g : Grown} (hm : Reachable m) (h : a.call m = .ok g) :
    Reachable g.model

/-- One call leads from the first model to the second. -/
def Step (m m' : Model) : Prop := ∃ a g, Action.call m a = .ok g ∧ g.model = m'

/-- Some calls lead from the first model to the second. -/
def Leads : Model → Model → Prop := Relation.ReflTransGen Step

theorem Action.call_extends {m : Model} {a : Action} {g : Grown} (h : a.call m = .ok g) :
    g.Extends m := run_extends (call_ok_iff.mp h).1

theorem leads_grows {m m' : Model} (h : Leads m m') : Grows m m' := by
  induction h with
  | refl => exact Grows.refl m
  | tail _ hs ih =>
    obtain ⟨a, g, hg, rfl⟩ := hs
    exact ih.trans (Action.call_extends hg).grows

theorem reachable_inMemory {m : Model} (h : Reachable m) : m.inMemory = true := by
  cases h with
  | named name => rfl
  | read _ hmem => exact hmem
  | call _ hg => exact (Action.call_ok_iff.mp hg).2

/-! ## The invariant -/

theorem ofInstance_ok_iff {i : Dimacs.Instance} {m : Model} : ofInstance i = .ok m ↔
    ∃ q, Model.extend { empty with pool := ⟨⟨i.header.vars⟩⟩ } i.hard.clauses = .ok q ∧
      q.extendSoft i.soft = .ok m := bind_ok_iff

/-- The model of an instance has its clauses, and the variables of its header and its literals. -/
theorem ofInstance_eq_ok_iff {i : Dimacs.Instance} {m : Model} : ofInstance i = .ok m ↔
    (∀ c ∈ i.hard.clauses ++ i.soft, ∀ l ∈ c.lits, l.index < Var.maxIndex) ∧
      m = ⟨"", ⟨⟨reach i.header.vars ((i.hard.clauses ++ i.soft).flatMap Clause.lits)⟩⟩,
        i.hard, i.soft⟩ := by
  rw [ofInstance_ok_iff, List.forall_mem_append, List.flatMap_append, reach_append]
  constructor
  · rintro ⟨q, hq, hm⟩
    obtain ⟨hh, rfl⟩ := extend_ok_iff.mp hq
    obtain ⟨hs, rfl⟩ := extendSoft_ok_iff.mp hm
    exact ⟨⟨hh, hs⟩, rfl⟩
  · rintro ⟨⟨hh, hs⟩, rfl⟩
    exact ⟨_, extend_ok_iff.mpr ⟨hh, rfl⟩, extendSoft_ok_iff.mpr ⟨hs, rfl⟩⟩

theorem ofRead_eq_ok {format : Dimacs.Format} {bs : Bytes} {i : Dimacs.Instance}
    (h : Dimacs.Instance.read format bs = .ok i) : ofRead i = .ok (ofInstance i) :=
  if_pos (Dimacs.Instance.read_usable h)

/-- A header that was found announces usable variables only, so it passes the second check. -/
theorem read_eq_map (format : Dimacs.Format) (bs : Bytes) :
    Model.read format bs = (Dimacs.Instance.read format bs).map ofInstance := by
  unfold Model.read
  cases h : Dimacs.Instance.read format bs with
  | error e => rfl
  | ok i => exact ofRead_eq_ok h

theorem read_wellFormed {format : Dimacs.Format} {bs : Bytes} {m : Model}
    (h : Model.read format bs = .ok (.ok m)) : WellFormed m := by
  rw [read_eq_map] at h
  obtain ⟨i, hi, hm⟩ := map_ok_iff.mp h
  obtain ⟨q, hq, hm⟩ := ofInstance_ok_iff.mp hm
  refine ((extend_grows hq).trans (extendSoft_grows hm)).wellFormed ?_
  exact wellFormed_of_no_clauses rfl rfl (Dimacs.Instance.read_usable hi)

theorem reachable_wellFormed {m : Model} (h : Reachable m) : WellFormed m := by
  induction h with
  | named name => exact wellFormed_of_no_clauses rfl rfl (Nat.zero_le _)
  | read h => exact read_wellFormed h
  | call _ hg ih => exact (Action.call_extends hg).grows.wellFormed ih

theorem WellFormed.writable {m : Model} (h : WellFormed m) :
    Dimacs.writable m.hard.clauses = true ∧ Dimacs.writable m.soft = true := by
  have hnum := List.forall_mem_append.mp (h.covered.mono h.usable)
  simp only [Dimacs.writable, List.all_eq_true, Dimacs.hasNumber, decide_eq_true_eq]
  exact hnum

theorem WellFormed.writeCnf_eq {m : Model} (h : WellFormed m) :
    m.writeCnf = .ok (Dimacs.cnfText m.hard m.varCount) := by
  unfold writeCnf
  rw [Dimacs.writeCnf_eq, if_pos h.writable.1]

theorem WellFormed.writeWcnf_eq {m : Model} (h : WellFormed m) :
    m.writeWcnf = .ok (Dimacs.wcnfText m.hard m.soft m.varCount) := by
  unfold writeWcnf
  rw [Dimacs.writeWcnf_eq, h.writable.1, h.writable.2]
  rfl

/-- In a reachable model every literal is over a used variable, and every used variable is usable.
Each call keeps the clauses at the front of the lists and frees no variable. So what a later call
hands out occurs in no earlier clause, and writing never fails. -/
theorem reachable_safe {m : Model} (h : Reachable m) :
    (∀ c ∈ m.hard.clauses ++ m.soft, ∀ l ∈ c.lits, l.index < m.varCount) ∧
    m.varCount ≤ Var.maxIndex ∧
    (∀ a g, Action.call m a = .ok g → m.hard.clauses <+: g.model.hard.clauses ∧
      m.soft <+: g.model.soft ∧ m.varCount ≤ g.model.varCount) ∧
    (∀ m' a g, Leads m m' → Action.call m' a = .ok g → ∀ v ∈ g.allocated,
      ∀ c ∈ m.hard.clauses ++ m.soft, ∀ l ∈ c.lits, l.var ≠ v) ∧
    (∃ text, m.writeCnf = .ok text) ∧ ∃ text, m.writeWcnf = .ok text := by
  have hwf := reachable_wellFormed h
  refine ⟨hwf.covered, hwf.usable, fun a g hg => ?_, fun m' a g hl hg v hv c hc l hlc heq => ?_,
    ⟨_, hwf.writeCnf_eq⟩, ⟨_, hwf.writeWcnf_eq⟩⟩
  · have hgrow := (Action.call_extends hg).grows
    obtain ⟨cs, hcs, -⟩ := hgrow.hard
    obtain ⟨ds, hds, -⟩ := hgrow.soft
    rw [hcs, hds]
    exact ⟨List.prefix_append _ _, List.prefix_append _ _, hgrow.varCount_le⟩
  · have hused := hwf.covered c hc l hlc
    have hle := (leads_grows hl).varCount_le
    have hfresh := ((Action.call_extends hg).fresh v hv).1
    have hi : l.index = v.index := congrArg Var.index heq
    omega

/-- A model with a counter. -/
theorem reachable_safe_counter : ∃ g,
    (Action.op (.addAtLeast [Var.pos ⟨4⟩, Var.neg ⟨1⟩] 2)).call empty = .ok g ∧
      ∃ text, g.model.writeCnf = .ok text := by
  obtain ⟨g, hg⟩ : ∃ g,
    (Action.op (.addAtLeast [Var.pos ⟨4⟩, Var.neg ⟨1⟩] 2)).call empty = .ok g := ⟨_, rfl⟩
  exact ⟨g, hg, (reachable_safe (.call (.named "") hg)).2.2.2.2.1⟩

end Clausal.Model
