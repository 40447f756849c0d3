import Clausal.Proofs.ModelCalls

/-!
# Models only grow

An `Action` is any call that changes a model. Beside the calls that add something these are a new
name, the use of the model as the collector of an encoder that draws its variables from a pool of
its own, and the use of the model's pool by an encoder whose clauses go elsewhere. Whatever the
call, the model grows (`Grows`) and the variables that the call hands out were free before. Growth
keeps a model well formed.
-/

namespace Clausal.Model

/-! ## All calls -/

/-- The calls that change a model. -/
inductive Action
  | op (o : Op)
  | rename (name : String)
  | collectPairwise (e : Pairwise)
  | collectCounter (e : SequentialCounter) (bound : Nat) (own : VarPool)
  | collectAtLeast (ls : List Lit) (bound : Nat) (own : VarPool)
  | counterApart (e : SequentialCounter) (bound : Nat)
  | atLeastApart (ls : List Lit) (bound : Nat)

/-- Runs a call. A matrix counts as handed out if its variables come from the model's pool. -/
def Action.run (m : Model) : Action → Except Violation Grown
  | .op o => o.run m
  | .rename name => .ok (.plain { m with name })
  | .collectPairwise e => (e.encode m).map fun (_, m) => .plain m
  | .collectCounter e k own => (e.encode k own m).map fun r => .plain r.collector
  | .collectAtLeast ls k own => (AtLeast.encode ls k own m).map fun r => .plain r.collector
  | .counterApart e k =>
    (e.encode k m.pool Cnf.empty).map fun r => ⟨{ m with pool := r.pool }, [], some r.matrix⟩
  | .atLeastApart ls k =>
    (AtLeast.encode ls k m.pool Cnf.empty).map fun r => ⟨{ m with pool := r.pool }, [], r.matrix⟩

/-! ## Growth -/

/-- Every literal of the clauses is over a variable below `n`. -/
def LitsBelow (n : Nat) (cs : List Clause) : Prop := ∀ c ∈ cs, ∀ l ∈ c.lits, l.index < n

theorem LitsBelow.mono {n k : Nat} {cs : List Clause} (h : LitsBelow n cs) (hk : n ≤ k) :
    LitsBelow k cs := fun c hc l hl => Nat.lt_of_lt_of_le (h c hc l hl) hk

theorem LitsBelow.append {n : Nat} {cs ds : List Clause} (hc : LitsBelow n cs)
    (hd : LitsBelow n ds) : LitsBelow n (cs ++ ds) := List.forall_mem_append.mpr ⟨hc, hd⟩

theorem litsBelow_reach (n : Nat) (cs : List Clause) :
    LitsBelow (reach n (cs.flatMap Clause.lits)) cs :=
  fun c hc _ hl => index_lt_reach (List.mem_flatMap.mpr ⟨c, hc, hl⟩)

/-- Clauses over used variables were added at the ends of both lists, and no variable was freed. -/
structure Grows (m m' : Model) : Prop where
  hard : ∃ cs, m'.hard = m.hard.append cs ∧ LitsBelow m'.varCount cs
  soft : ∃ cs, m'.soft = m.soft ++ cs ∧ LitsBelow m'.varCount cs
  varCount_le : m.varCount ≤ m'.varCount
  usable : m.varCount ≤ Var.maxIndex → m'.varCount ≤ Var.maxIndex

namespace Grows

theorem of_pool {m : Model} {q : VarPool} (hle : m.varCount ≤ q.used)
    (hu : m.varCount ≤ Var.maxIndex → q.used ≤ Var.maxIndex) : Grows m { m with pool := q } where
  hard := ⟨[], (Cnf.append_nil _).symm, by simp [LitsBelow]⟩
  soft := ⟨[], (List.append_nil _).symm, by simp [LitsBelow]⟩
  varCount_le := hle
  usable := hu

theorem refl (m : Model) : Grows m m := of_pool (q := m.pool) (Nat.le_refl _) id

theorem of_hard {m : Model} {cs : List Clause} (h : LitsBelow m.varCount cs) :
    Grows m { m with hard := m.hard.append cs } where
  hard := ⟨cs, rfl, h⟩
  soft := (refl m).soft
  varCount_le := Nat.le_refl _
  usable := id

theorem of_soft {m : Model} {cs : List Clause} (h : LitsBelow m.varCount cs) :
    Grows m { m with soft := m.soft ++ cs } where
  hard := (refl m).hard
  soft := ⟨cs, rfl, h⟩
  varCount_le := Nat.le_refl _
  usable := id

theorem trans {m m' m'' : Model} (h : Grows m m') (h' : Grows m' m'') : Grows m m'' where
  hard := by
    obtain ⟨cs, hcs, hlt⟩ := h.hard
    obtain ⟨ds, hds, hlt'⟩ := h'.hard
    refine ⟨cs ++ ds, ?_, (hlt.mono h'.varCount_le).append hlt'⟩
    rw [hds, hcs, Cnf.append_append]
  soft := by
    obtain ⟨cs, hcs, hlt⟩ := h.soft
    obtain ⟨ds, hds, hlt'⟩ := h'.soft
    refine ⟨cs ++ ds, ?_, (hlt.mono h'.varCount_le).append hlt'⟩
    rw [hds, hcs, List.append_assoc]
  varCount_le := Nat.le_trans h.varCount_le h'.varCount_le
  usable hm := h'.usable (h.usable hm)

end Grows

/-! ## The invariant of growth -/

/-- Every literal is over a used variable, and no variable beyond the usable ones is used. -/
structure WellFormed (m : Model) : Prop where
  covered : LitsBelow m.varCount (m.hard.clauses ++ m.soft)
  usable : m.varCount ≤ Var.maxIndex

theorem Grows.wellFormed {m m' : Model} (h : Grows m m') (hm : WellFormed m) : WellFormed m' where
  covered := by
    obtain ⟨cs, hcs, hlt⟩ := h.hard
    obtain ⟨ds, hds, hlt'⟩ := h.soft
    obtain ⟨hhard, hsoft⟩ := List.forall_mem_append.mp (hm.covered.mono h.varCount_le)
    rw [hcs, hds]
    exact (LitsBelow.append hhard hlt).append (LitsBelow.append hsoft hlt')
  usable := h.usable hm.usable

theorem wellFormed_of_no_clauses {m : Model} (hh : m.hard.clauses = []) (hs : m.soft = [])
    (h : m.varCount ≤ Var.maxIndex) : WellFormed m where
  covered := by simp [LitsBelow, hh, hs]
  usable := h

/-! ## Calls without variables -/

section Calls

variable {m m' : Model} {ls : List Lit} {cs : List Clause}

/-- Moving the pool up to the reach of usable literals. -/
theorem grows_reach (h : ∀ l ∈ ls, l.index < Var.maxIndex) :
    Grows m { m with pool := ⟨⟨reach m.varCount ls⟩⟩ } :=
  Grows.of_pool (le_reach _ _) fun hm => reach_le_iff.mpr ⟨hm, h⟩

theorem cover_grows (h : m.cover ls = .ok m') : Grows m m' ∧ ∀ l ∈ ls, l.index < m'.varCount := by
  obtain ⟨hlt, rfl⟩ := cover_ok_iff.mp h
  exact ⟨grows_reach hlt, fun l hl => index_lt_reach hl⟩

theorem forall_mem_lits (h : ∀ c ∈ cs, ∀ l ∈ c.lits, l.index < Var.maxIndex) :
    ∀ l ∈ cs.flatMap Clause.lits, l.index < Var.maxIndex := by
  intro l hl
  obtain ⟨c, hc, hl⟩ := List.mem_flatMap.mp hl
  exact h c hc l hl

theorem extend_grows (h : m.extend cs = .ok m') : Grows m m' := by
  obtain ⟨hlt, rfl⟩ := extend_ok_iff.mp h
  exact (grows_reach (forall_mem_lits hlt)).trans (Grows.of_hard (litsBelow_reach _ _))

theorem extendSoft_grows (h : m.extendSoft cs = .ok m') : Grows m m' := by
  obtain ⟨hlt, rfl⟩ := extendSoft_ok_iff.mp h
  exact (grows_reach (forall_mem_lits hlt)).trans (Grows.of_soft (litsBelow_reach _ _))

theorem addAtMostOne_grows (h : m.addAtMostOne ls = .ok m') : Grows m m' := by
  obtain ⟨q, hq, rfl⟩ := addAtMostOne_ok h
  obtain ⟨hgrow, hlt⟩ := cover_grows hq
  exact hgrow.trans (Grows.of_hard (Pairwise.clauses_vars (P := fun v => v.index < q.varCount) hlt))

end Calls

/-! ## What a call leaves -/

/-- The model has grown, and the variables that were handed out were free. -/
structure Grown.Extends (g : Grown) (m : Model) : Prop where
  grows : Grows m g.model
  fresh : ∀ v ∈ g.allocated, m.varCount ≤ v.index ∧ v.index < g.model.varCount

namespace Grown.Extends

variable {m m' : Model}

theorem plain (h : Grows m m') : (Grown.plain m').Extends m where
  grows := h
  fresh := by simp [Grown.plain, allocated, counters]

/-- What was handed out after growth was free before it. -/
theorem of_grows {g : Grown} (h : g.Extends m') (hm : Grows m m') : g.Extends m where
  grows := hm.trans h.grows
  fresh v hv := ⟨Nat.le_trans hm.varCount_le (h.fresh v hv).1, (h.fresh v hv).2⟩

/-- A block of variables is taken from the pool. -/
theorem block {n : Nat} {vs : List Var} {x : Option CounterMatrix}
    (hn : n = 0 ∨ m.varCount + n ≤ Var.maxIndex)
    (hv : vs ++ (x.map CounterMatrix.vars).getD [] = m.pool.block n) :
    (⟨{ m with pool := ⟨⟨m.varCount + n⟩⟩ }, vs, x⟩ : Grown).Extends m where
  grows := Grows.of_pool (Nat.le_add_right _ _) fun hm => by
    show m.varCount + n ≤ Var.maxIndex
    omega
  fresh := by
    intro v hmem
    exact VarPool.mem_block.mp (hv ▸ hmem)

/-- A counter takes its cells from the pool, wherever its clauses go. -/
theorem cells {γ : Type} [Collector γ] {e : SequentialCounter} {k : Nat} {col : γ}
    {r : SequentialCounter.Encoded γ} (h : e.encode k m.pool col = .ok r) :
    (⟨{ m with pool := r.pool }, [], some r.matrix⟩ : Grown).Extends m := by
  obtain ⟨-, -, hroom, hm, hp, -⟩ := SequentialCounter.encode_ok h
  rw [hp]
  exact block (.inr hroom) (by rw [hm]; rfl)

/-- A counter over used inputs takes its cells from the pool and adds its clauses. -/
theorem counter {ls : List Lit} {k : Nat} {r : SequentialCounter.Encoded Cnf}
    (hin : ∀ l ∈ ls, l.index < m.varCount)
    (h : (SequentialCounter.ofLits ls).encode k m.pool m.hard = .ok r) :
    (⟨m.withCounter r, [], some r.matrix⟩ : Grown).Extends m := by
  obtain ⟨hk, hn, hroom, hm, hp, hc⟩ := SequentialCounter.encode_ok h
  have hlt : LitsBelow r.pool.used (SequentialCounter.clausesOver ls r.matrix.vars k) := by
    rw [hm, hp]
    refine SequentialCounter.clausesOver_vars (P := fun v => v.index < _) hn hk hroom
      (fun l hl => ?_) (fun v hv => (VarPool.mem_block.mp hv).2)
    exact Nat.lt_of_lt_of_le (hin l hl) (Nat.le_add_right _ _)
  injection hc with hc
  rw [withCounter, ← hc]
  exact ⟨(cells h).grows.trans (Grows.of_hard hlt), (cells h).fresh⟩

theorem addAtLeast {ls : List Lit} {k : Nat} {x : CounterMatrix}
    (h : m.addAtLeast ls k = .ok (x, m')) : (⟨m', [], some x⟩ : Grown).Extends m := by
  obtain ⟨q, r, hq, hr, rfl, rfl⟩ := addAtLeast_ok h
  obtain ⟨hgrow, hin⟩ := cover_grows hq
  exact (counter hin hr).of_grows hgrow

theorem addCardinality {c : Cardinality} {x : Option CounterMatrix}
    (h : m.addCardinality c = .ok (x, m')) : (⟨m', [], x⟩ : Grown).Extends m := by
  rcases addCardinality_ok h with ⟨ls, -, rfl, hm⟩ | ⟨ls, -, rfl, hq⟩ | ⟨ls, q, -, rfl, hq, rfl⟩ |
    ⟨ls, k, q, r, -, hq, hr, rfl, rfl⟩
  · exact plain (addAtMostOne_grows hm)
  · exact plain (cover_grows hq).1
  · obtain ⟨hgrow, hin⟩ := cover_grows hq
    refine plain (hgrow.trans (Grows.of_hard ?_))
    simpa [LitsBelow, Clause.anyOf] using hin
  · obtain ⟨hgrow, hin⟩ := cover_grows hq
    exact (counter hin hr).of_grows hgrow

end Grown.Extends

theorem pool_fresh_extends {m : Model} {v : Var} {q : VarPool} (h : m.pool.fresh = .ok (v, q)) :
    (⟨{ m with pool := q }, [v], none⟩ : Grown).Extends m := by
  obtain ⟨hlt, rfl, rfl⟩ := VarPool.fresh_ok h
  exact Grown.Extends.block (.inr hlt) rfl

theorem freshMany_extends {m m' : Model} {n : Nat} {vs : List Var}
    (h : m.freshMany n = .ok (vs, m')) : (⟨m', vs, none⟩ : Grown).Extends m := by
  obtain ⟨⟨vs', q⟩, hq, h⟩ := map_ok_iff.mp h
  injection h with hv hm
  obtain ⟨hn, rfl, rfl⟩ := VarPool.freshMany_ok hq
  rw [← hv, ← hm]
  exact Grown.Extends.block hn (List.append_nil _)

theorem markUsed_grows {m : Model} {v : Var} {b : Bool} {q : VarPool}
    (h : m.pool.markUsed v = .ok (b, q)) : Grows m { m with pool := q } := by
  obtain ⟨hlt, hq⟩ := VarPool.markUsed_ok h
  refine Grows.of_pool ?_ fun hm => ?_
  · rw [hq]
    exact Nat.le_max_left _ _
  · rw [hq]
    exact Nat.max_le.mpr ⟨hm, hlt⟩

theorem advance_grows (m : Model) {v : Var} (hv : v.index ≤ Var.maxIndex) :
    Grows m { m with pool := (m.pool.advance v).2 } := by
  refine Grows.of_pool ?_ fun hm => ?_
  · rw [VarPool.advance_used]
    exact Nat.le_max_left _ _
  · rw [VarPool.advance_used]
    exact Nat.max_le.mpr ⟨hm, hv⟩

theorem Op.run_extends {m : Model} {o : Op} {g : Grown} (h : o.run m = .ok g) : g.Extends m := by
  cases o with
  | freshVar =>
    obtain ⟨⟨v, q⟩, hq, rfl⟩ := map_ok_iff.mp h
    exact pool_fresh_extends hq
  | freshVars n =>
    obtain ⟨⟨vs, m'⟩, hm, rfl⟩ := map_ok_iff.mp h
    exact freshMany_extends hm
  | addClause c =>
    obtain ⟨m', hm, rfl⟩ := map_ok_iff.mp h
    exact .plain (extend_grows hm)
  | addSoftClause c =>
    obtain ⟨m', hm, rfl⟩ := map_ok_iff.mp h
    exact .plain (extendSoft_grows hm)
  | addUnit a =>
    obtain ⟨m', hm, rfl⟩ := map_ok_iff.mp h
    exact .plain (extend_grows hm)
  | addImplies a b =>
    obtain ⟨m', hm, rfl⟩ := map_ok_iff.mp h
    exact .plain (extend_grows hm)
  | addImpliesAny a bs =>
    obtain ⟨m', hm, rfl⟩ := map_ok_iff.mp h
    exact .plain (extend_grows hm)
  | addAtMostOne ls =>
    obtain ⟨m', hm, rfl⟩ := map_ok_iff.mp h
    exact .plain (addAtMostOne_grows hm)
  | addAtLeast ls k =>
    obtain ⟨⟨x, m'⟩, hm, rfl⟩ := map_ok_iff.mp h
    exact .addAtLeast hm
  | addCardinality c =>
    obtain ⟨⟨x, m'⟩, hm, rfl⟩ := map_ok_iff.mp h
    exact .addCardinality hm
  | extend cs =>
    obtain ⟨m', hm, rfl⟩ := map_ok_iff.mp h
    exact .plain (extend_grows hm)
  | markUsed v =>
    obtain ⟨⟨b, q⟩, hq, rfl⟩ := map_ok_iff.mp h
    exact .plain (markUsed_grows hq)
  | advance v =>
    injection h with h
    subst h
    exact .plain (advance_grows m v.property)

theorem Action.run_extends {m : Model} {a : Action} {g : Grown} (h : a.run m = .ok g) :
    g.Extends m := by
  cases a with
  | op o => exact o.run_extends h
  | rename name =>
    injection h with h
    subst h
    -- the growth of a model does not look at its name
    exact .plain ⟨(Grows.refl m).hard, (Grows.refl m).soft, Nat.le_refl _, id⟩
  | collectPairwise e =>
    obtain ⟨⟨e', m'⟩, he, rfl⟩ := map_ok_iff.mp h
    exact .plain (extend_grows (Pairwise.encode_ok he))
  | collectCounter e k own =>
    obtain ⟨r, hr, rfl⟩ := map_ok_iff.mp h
    exact .plain (extend_grows (SequentialCounter.encode_ok hr).collected)
  | collectAtLeast ls k own =>
    obtain ⟨r, hr, rfl⟩ := map_ok_iff.mp h
    rcases AtLeast.encode_ok hr with ⟨-, rfl⟩ | ⟨-, m', hm, rfl⟩ | ⟨s, hs, rfl⟩
    · exact .plain (Grows.refl m)
    · exact .plain (extend_grows hm)
    · exact .plain (extend_grows (SequentialCounter.encode_ok hs).collected)
  | counterApart e k =>
    obtain ⟨r, hr, rfl⟩ := map_ok_iff.mp h
    exact .cells hr
  | atLeastApart ls k =>
    obtain ⟨r, hr, rfl⟩ := map_ok_iff.mp h
    rcases AtLeast.encode_ok hr with ⟨-, rfl⟩ | ⟨-, f, -, rfl⟩ | ⟨s, hs, rfl⟩
    · exact .plain (Grows.refl m)
    · exact .plain (Grows.refl m)
    · exact .cells hs

end Clausal.Model
