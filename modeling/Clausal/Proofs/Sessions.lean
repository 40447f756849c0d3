import Clausal.Proofs.Demands

/-!
# Sessions

A session is a sequence of calls on a new model, together with the counter cells that the calls took
and the demands that they made. The caller may use any literal that is not over a cell. Every call
extends the hard clauses by an encoding of its own demands over its own cells (`run_adds`), the
encodings of the calls fit together, and so the hard clauses encode all demands of the session.
-/

namespace Clausal.Model

/-! ## One call -/

/-- The call added an encoding of the demands, and its literals are over used variables and apart
from the cells. -/
structure Adds (m : Model) (g : Grown) (ls : List Lit) (ds : List Demand) : Prop where
  clauses : ∃ cs, g.model.hard = m.hard.append cs ∧ Encodes cs g.counters ds
  used : ∀ l ∈ ls, l.index < g.model.varCount
  apart : ∀ l ∈ ls, l.var ∉ g.counters

namespace Adds

variable {m m' : Model} {ls : List Lit} {ds : List Demand}

theorem of_hard_eq {q : Model} {g : Grown} (h : Adds q g ls ds) (hq : q.hard = m.hard) :
    Adds m g ls ds := ⟨hq ▸ h.clauses, h.used, h.apart⟩

/-- A call that leaves the hard clauses alone demands nothing. -/
theorem nothing {g : Grown} (hh : g.model.hard = m.hard) (hc : g.counters = [])
    (hl : ∀ l ∈ ls, l.index < g.model.varCount) : Adds m g ls [] where
  clauses := by
    refine ⟨[], ?_, ?_⟩
    · rw [hh]
      exact (Cnf.append_nil _).symm
    · rw [hc]
      exact Encodes.nil
  used := hl
  apart := by simp [hc]

/-- Clauses over used variables that say just what is demanded. -/
theorem plain {cs : List Clause} (hl : ∀ l ∈ ls, l.index < m.varCount)
    (h : ∀ τ, (∀ c ∈ cs, c.Holds τ) ↔ ∀ d ∈ ds, d.Holds τ) :
    Adds m (.plain { m with hard := m.hard.append cs }) ls ds where
  clauses := ⟨cs, rfl, Encodes.of_iff h⟩
  used := hl
  apart := by simp [Grown.plain, Grown.counters]

/-- The literals of a call are over the variables of its clauses. -/
theorem extend {cs : List Clause} (hm : m.extend cs = .ok m')
    (hl : ∀ l ∈ ls, ∃ c ∈ cs, ∃ n ∈ c.lits, n.index = l.index)
    (h : ∀ τ, (∀ c ∈ cs, c.Holds τ) ↔ ∀ d ∈ ds, d.Holds τ) : Adds m (.plain m') ls ds := by
  obtain ⟨-, rfl⟩ := extend_ok_iff.mp hm
  let q : Model := { m with pool := ⟨⟨reach m.varCount (cs.flatMap Clause.lits)⟩⟩ }
  refine of_hard_eq (q := q) (plain (fun l hl' => ?_) h) rfl
  obtain ⟨c, hc, n, hn, hi⟩ := hl l hl'
  exact hi ▸ litsBelow_reach _ _ c hc n hn

theorem addClause {c : Clause} (hm : m.extend [c] = .ok m')
    (hl : ∀ l ∈ ls, ∃ n ∈ c.lits, n.index = l.index) {d : Demand}
    (h : ∀ τ, c.Holds τ ↔ d.Holds τ) : Adds m (.plain m') ls [d] := by
  refine extend hm (fun l hl' => ⟨c, List.mem_singleton.mpr rfl, hl l hl'⟩) fun τ => ?_
  rw [List.forall_mem_singleton, List.forall_mem_singleton, h]

theorem of_cover {q : Model} {g : Grown} (hq : m.cover ls = .ok q)
    (h : (∀ l ∈ ls, l.index < q.varCount) → Adds q g ls ds) : Adds m g ls ds := by
  refine (h (cover_grows hq).2).of_hard_eq ?_
  obtain ⟨-, rfl⟩ := cover_ok_iff.mp hq
  rfl

theorem addAtMostOne (hm : m.addAtMostOne ls = .ok m') :
    Adds m (.plain m') ls [.cardinality (.atMostOne ls)] := by
  obtain ⟨q, hq, rfl⟩ := addAtMostOne_ok hm
  refine of_cover hq fun hin => plain hin fun τ => ?_
  rw [Pairwise.clauses_hold_iff, List.forall_mem_singleton]
  rfl

/-- The cells are above the inputs, since those were marked as used before. -/
theorem counter {k : Nat} {r : SequentialCounter.Encoded Cnf}
    (hin : ∀ l ∈ ls, l.index < m.varCount)
    (h : (SequentialCounter.ofLits ls).encode k m.pool m.hard = .ok r) :
    Adds m ⟨m.withCounter r, [], some r.matrix⟩ ls [.cardinality (.atLeast ls k)] := by
  have hext := Grown.Extends.counter hin h
  have hapart : ∀ l ∈ ls, l.var ∉ r.matrix.vars := fun l hl hmem =>
    Nat.not_lt.mpr (hext.fresh l.var hmem).1 (hin l hl)
  have hc := (SequentialCounter.encode_ok h).collected
  injection hc with hc
  exact ⟨⟨_, hc.symm, Encodes.counter hapart h⟩,
    fun l hl => Nat.lt_of_lt_of_le (hin l hl) hext.grows.varCount_le, hapart⟩

theorem addAtLeast {k : Nat} {x : CounterMatrix} (h : m.addAtLeast ls k = .ok (x, m')) :
    Adds m ⟨m', [], some x⟩ ls [.cardinality (.atLeast ls k)] := by
  obtain ⟨q, r, hq, hr, rfl, rfl⟩ := addAtLeast_ok h
  exact of_cover hq fun hin => counter hin hr

theorem addCardinality {c : Cardinality} {x : Option CounterMatrix}
    (h : m.addCardinality c = .ok (x, m')) : Adds m ⟨m', [], x⟩ c.lits [.cardinality c] := by
  rcases addCardinality_ok h with ⟨ls, rfl, rfl, hm⟩ | ⟨ls, rfl, rfl, hq⟩ |
    ⟨ls, q, rfl, rfl, hq, rfl⟩ | ⟨ls, k, q, r, rfl, hq, hr, rfl, rfl⟩
  · exact addAtMostOne hm
  · -- bound 0: no clause, and every assignment meets the demand
    refine of_cover hq fun hin => ?_
    refine ⟨⟨[], (Cnf.append_nil _).symm, Encodes.of_iff fun τ => ?_⟩, hin, ?_⟩
    · simp [Demand.Holds, Cardinality.Holds]
    · simp [Grown.counters]
  · refine of_cover hq fun hin => plain hin fun τ => ?_
    rw [List.forall_mem_singleton, List.forall_mem_singleton,
      Clause.holds_iff_one_le_trueCount]
    rfl
  · exact of_cover hq fun hin => counter hin hr

end Adds

theorem Op.run_adds {m : Model} {o : Op} {g : Grown} (h : o.run m = .ok g) :
    Adds m g o.lits o.demands := by
  cases o with
  | freshVar =>
    obtain ⟨⟨v, q⟩, -, rfl⟩ := map_ok_iff.mp h
    exact .nothing rfl rfl (by simp [lits])
  | freshVars n =>
    obtain ⟨⟨vs, m'⟩, hm, rfl⟩ := map_ok_iff.mp h
    obtain ⟨⟨vs', q⟩, -, hm⟩ := map_ok_iff.mp hm
    injection hm with _ hm
    subst hm
    exact .nothing rfl rfl (by simp [lits])
  | addClause c =>
    obtain ⟨m', hm, rfl⟩ := map_ok_iff.mp h
    exact .addClause hm (fun l hl => ⟨l, hl, rfl⟩) fun τ => Iff.rfl
  | addSoftClause c =>
    obtain ⟨m', hm, rfl⟩ := map_ok_iff.mp h
    obtain ⟨-, rfl⟩ := extendSoft_ok_iff.mp hm
    exact .nothing rfl rfl fun l hl => litsBelow_reach _ [c] c (List.mem_singleton.mpr rfl) l hl
  | addUnit a =>
    obtain ⟨m', hm, rfl⟩ := map_ok_iff.mp h
    exact .addClause hm (fun l hl => ⟨l, hl, rfl⟩) fun τ => Clause.holds_unit a
  | addImplies a b =>
    obtain ⟨m', hm, rfl⟩ := map_ok_iff.mp h
    refine .addClause hm (by simp [lits, Clause.implies]) fun τ => ?_
    simp [Demand.Holds]
  | addImpliesAny a bs =>
    obtain ⟨m', hm, rfl⟩ := map_ok_iff.mp h
    refine .addClause hm (fun l hl => ?_) fun τ => Clause.holds_impliesAny a bs
    rcases List.mem_cons.mp hl with rfl | hl
    · exact ⟨l.negate, List.mem_cons_self, Lit.index_negate l⟩
    · exact ⟨l, List.mem_cons_of_mem _ hl, rfl⟩
  | addAtMostOne ls =>
    obtain ⟨m', hm, rfl⟩ := map_ok_iff.mp h
    exact .addAtMostOne hm
  | addAtLeast ls k =>
    obtain ⟨⟨x, m'⟩, hm, rfl⟩ := map_ok_iff.mp h
    exact .addAtLeast hm
  | addCardinality c =>
    obtain ⟨⟨x, m'⟩, hm, rfl⟩ := map_ok_iff.mp h
    exact .addCardinality hm
  | extend cs =>
    obtain ⟨m', hm, rfl⟩ := map_ok_iff.mp h
    refine .extend hm (fun l hl => ?_) fun τ => ?_
    · obtain ⟨c, hc, hl⟩ := List.mem_flatMap.mp hl
      exact ⟨c, hc, l, hl, rfl⟩
    · show _ ↔ ∀ d ∈ cs.map Demand.clause, d.Holds τ
      rw [List.forall_mem_map]
      rfl
  | markUsed v =>
    obtain ⟨⟨b, q⟩, -, rfl⟩ := map_ok_iff.mp h
    exact .nothing rfl rfl (by simp [lits])
  | advance v =>
    injection h with h
    subst h
    exact .nothing rfl rfl (by simp [lits])

/-! ## Sequences of calls -/

/-- A model with the counter cells and the demands of the calls that made it. -/
structure Session where
  model : Model
  counters : List Var
  demands : List Demand

namespace Session

/-- The sessions that calls make. No literal that the caller supplies is over an earlier cell. -/
inductive Reached : Session → Prop
  | start : Reached ⟨empty, [], []⟩
  | call {s : Session} {o : Op} {g : Grown} (hs : Reached s)
    (hl : ∀ l ∈ o.lits, l.var ∉ s.counters) (h : o.run s.model = .ok g) :
    Reached ⟨g.model, s.counters ++ g.counters, s.demands ++ o.demands⟩

/-- The hard clauses encode the demands, the cells are used, and no demand is over a cell. -/
structure Inv (s : Session) : Prop where
  wellFormed : WellFormed s.model
  used : ∀ v ∈ s.counters, v.index < s.model.varCount
  demandsUsed : ∀ d ∈ s.demands, ∀ l ∈ d.lits, l.index < s.model.varCount
  apart : ∀ d ∈ s.demands, ∀ l ∈ d.lits, l.var ∉ s.counters
  encodes : Encodes s.model.hard.clauses s.counters s.demands

theorem inv_start : Inv ⟨empty, [], []⟩ where
  wellFormed := wellFormed_of_no_clauses rfl rfl (Nat.zero_le _)
  used := by simp
  demandsUsed := by simp
  apart := by simp
  encodes := Encodes.nil

theorem inv_call {s : Session} {o : Op} {g : Grown} (hs : Inv s)
    (hl : ∀ l ∈ o.lits, l.var ∉ s.counters) (h : o.run s.model = .ok g) :
    Inv ⟨g.model, s.counters ++ g.counters, s.demands ++ o.demands⟩ := by
  have hext := Op.run_extends h
  obtain ⟨⟨cs, hcs, henc⟩, hused, hapart⟩ := Op.run_adds h
  have hle := hext.grows.varCount_le
  -- new cells are free variables of the model before the call
  have hfresh : ∀ v ∈ g.counters, s.model.varCount ≤ v.index ∧ v.index < g.model.varCount :=
    fun v hv => hext.fresh v (List.mem_append_right _ hv)
  have hold : ∀ v : Var, v.index < s.model.varCount → v ∉ g.counters :=
    fun v hv hmem => Nat.not_lt.mpr (hfresh v hmem).1 hv
  have hlits : ∀ d ∈ o.demands, ∀ l ∈ d.lits, l ∈ o.lits :=
    fun d hd l hl => Op.lits_of_mem_demands hd hl
  refine ⟨hext.grows.wellFormed hs.wellFormed, ?_, ?_, ?_, ?_⟩
  · refine List.forall_mem_append.mpr ⟨fun v hv => ?_, fun v hv => (hfresh v hv).2⟩
    exact Nat.lt_of_lt_of_le (hs.used v hv) hle
  · refine List.forall_mem_append.mpr ⟨fun d hd l hl => ?_, fun d hd l hl => ?_⟩
    · exact Nat.lt_of_lt_of_le (hs.demandsUsed d hd l hl) hle
    · exact hused l (hlits d hd l hl)
  · refine List.forall_mem_append.mpr ⟨fun d hd l hld => ?_, fun d hd l hld => ?_⟩
    · rw [List.mem_append, not_or]
      exact ⟨hs.apart d hd l hld, hold l.var (hs.demandsUsed d hd l hld)⟩
    · rw [List.mem_append, not_or]
      exact ⟨hl l (hlits d hd l hld), hapart l (hlits d hd l hld)⟩
  · show Encodes g.model.hard.clauses _ _
    rw [hcs]
    refine hs.encodes.append henc (fun c hc l hlc => ?_) (fun v hv => hold v (hs.used v hv))
      fun d hd l hld => hl l (hlits d hd l hld)
    exact hold l.var (hs.wellFormed.covered c (List.mem_append_left _ hc) l hlc)

theorem Reached.inv {s : Session} (h : Reached s) : Inv s := by
  induction h with
  | start => exact inv_start
  | call _ hl h ih => exact inv_call ih hl h

/-- After any session an assignment meets all demands if and only if it extends to the counter cells
so that the hard clauses hold, and it does so in at most one way. -/
theorem hard_encodes_demands {s : Session} (h : Reached s) (τ : Valuation) :
    ((∀ d ∈ s.demands, d.Holds τ) ↔
      ∃ σ, Valuation.AgreesOff s.counters σ τ ∧ s.model.hard.Holds σ) ∧
    ∀ σ σ', Valuation.AgreesOff s.counters σ τ → s.model.hard.Holds σ →
      Valuation.AgreesOff s.counters σ' τ → s.model.hard.Holds σ' → σ = σ' := by
  have hinv := h.inv
  refine ⟨⟨hinv.encodes.complete τ, ?_⟩, fun σ σ' hτ hσ hτ' hσ' => funext fun v => ?_⟩
  · rintro ⟨σ, hτ, hσ⟩ d hd
    rw [← Demand.holds_congr fun l hl => hτ l.var (hinv.apart d hd l hl)]
    exact hinv.encodes.sound σ hσ d hd
  · by_cases hv : v ∈ s.counters
    · exact hinv.encodes.unique σ σ' (fun w hw => (hτ w hw).trans (hτ' w hw).symm) hσ hσ' v hv
    · rw [hτ v hv, hτ' v hv]

/-- A counter over two variables, then an exclusion that reaches over its cells. -/
theorem hard_encodes_demands_twice : ∃ s : Session, Reached s ∧
    s.demands = [.cardinality (.atLeast [Var.pos ⟨0⟩, Var.pos ⟨1⟩] 2),
      .cardinality (.atMostOne [Var.pos ⟨1⟩, Var.pos ⟨9⟩])] ∧
    ∀ τ, (∀ d ∈ s.demands, d.Holds τ) ↔
      ∃ σ, Valuation.AgreesOff s.counters σ τ ∧ s.model.hard.Holds σ := by
  obtain ⟨g, g', hg, hl, hg'⟩ : ∃ g g',
      (Op.addAtLeast [Var.pos ⟨0⟩, Var.pos ⟨1⟩] 2).run empty = .ok g ∧
      (∀ l ∈ [Var.pos ⟨1⟩, Var.pos ⟨9⟩], l.var ∉ g.counters) ∧
      (Op.addAtMostOne [Var.pos ⟨1⟩, Var.pos ⟨9⟩]).run g.model = .ok g' :=
    ⟨_, _, rfl, by decide, rfl⟩
  have hr := Reached.call (o := .addAtMostOne [Var.pos ⟨1⟩, Var.pos ⟨9⟩])
    (.call .start (by simp) hg) hl hg'
  exact ⟨_, hr, rfl, fun τ => (hard_encodes_demands hr τ).1⟩

end Session

end Clausal.Model
