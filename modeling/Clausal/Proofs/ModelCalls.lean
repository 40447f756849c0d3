import Clausal.Proofs.CounterEncoding
import Clausal.Proofs.PairwiseMeaning

/-!
# Calls that grow a model

What each call of a model leaves if it succeeds, and the calls as data: an `Op` is a call that adds
variables or constraints, and its run leaves the model with the variables that it handed out.
-/

namespace Clausal

/-! ## Encoders -/

theorem Pairwise.encode_ok {γ : Type} [Collector γ] {e e' : Pairwise} {col col' : γ}
    (h : e.encode col = .ok (e', col')) : Collector.extend col (clauses e.lits) = .ok col' := by
  obtain ⟨col'', hc, h⟩ := bind_ok_iff.mp h
  injection h with h
  injection h with _ h
  rwa [← h]

/-- The cases of the dispatch on the bound. -/
theorem AtLeast.encode_ok {γ : Type} [Collector γ] {ls : List Lit} {k : Nat} {p : VarPool}
    {col : γ} {r : Encoded γ} (h : AtLeast.encode ls k p col = .ok r) :
    (k = 0 ∧ r = ⟨none, p, col⟩) ∨
    (k = 1 ∧ ∃ col', Collector.extend col [.anyOf ls] = .ok col' ∧ r = ⟨none, p, col'⟩) ∨
    ∃ s, (SequentialCounter.ofLits ls).encode k p col = .ok s ∧
      r = ⟨some s.matrix, s.pool, s.collector⟩ := by
  unfold AtLeast.encode at h
  split at h
  · cases h
  · split at h
    · injection h with h
      exact .inl ⟨rfl, h.symm⟩
    · obtain ⟨col', hc, h⟩ := map_ok_iff.mp h
      exact .inr (.inl ⟨rfl, col', hc, h.symm⟩)
    · obtain ⟨s, hs, h⟩ := map_ok_iff.mp h
      exact .inr (.inr ⟨s, hs, h.symm⟩)

/-- From bound 2 on the encoder is a counter. -/
theorem AtLeast.encode_of_counter {γ : Type} [Collector γ] {ls : List Lit} {k : Nat} {p : VarPool}
    {col : γ} {s : SequentialCounter.Encoded γ}
    (h : (SequentialCounter.ofLits ls).encode k p col = .ok s) :
    AtLeast.encode ls k p col = .ok ⟨some s.matrix, s.pool, s.collector⟩ := by
  have hran := SequentialCounter.encode_ok h
  obtain ⟨k, rfl⟩ := Nat.exists_eq_add_of_le' hran.two_le
  have hne : ls ≠ [] := List.length_pos_iff.mp hran.inputs
  unfold AtLeast.encode
  rw [if_neg fun h => hne h.2]
  simp only [h]
  rfl

namespace Model

theorem cover_ok_iff {m m' : Model} {ls : List Lit} : m.cover ls = .ok m' ↔
    (∀ l ∈ ls, l.index < Var.maxIndex) ∧ m' = { m with pool := ⟨⟨reach m.varCount ls⟩⟩ } := by
  unfold cover
  rw [map_ok_iff]
  constructor
  · rintro ⟨q, hq, rfl⟩
    obtain ⟨hlt, rfl⟩ := VarPool.cover_ok_iff.mp hq
    exact ⟨hlt, rfl⟩
  · rintro ⟨hlt, rfl⟩
    exact ⟨_, VarPool.cover_ok_iff.mpr ⟨hlt, rfl⟩, rfl⟩

theorem extend_ok_iff {m m' : Model} {cs : List Clause} : m.extend cs = .ok m' ↔
    (∀ c ∈ cs, ∀ l ∈ c.lits, l.index < Var.maxIndex) ∧
      m' = { m with pool := ⟨⟨reach m.varCount (cs.flatMap Clause.lits)⟩⟩,
                    hard := m.hard.append cs } := by
  unfold extend
  rw [map_ok_iff]
  constructor
  · rintro ⟨q, hq, rfl⟩
    obtain ⟨hlt, rfl⟩ := VarPool.coverClauses_ok_iff.mp hq
    exact ⟨hlt, rfl⟩
  · rintro ⟨hlt, rfl⟩
    exact ⟨_, VarPool.coverClauses_ok_iff.mpr ⟨hlt, rfl⟩, rfl⟩

theorem extendSoft_ok_iff {m m' : Model} {cs : List Clause} : m.extendSoft cs = .ok m' ↔
    (∀ c ∈ cs, ∀ l ∈ c.lits, l.index < Var.maxIndex) ∧
      m' = { m with pool := ⟨⟨reach m.varCount (cs.flatMap Clause.lits)⟩⟩,
                    soft := m.soft ++ cs } := by
  unfold extendSoft
  rw [map_ok_iff]
  constructor
  · rintro ⟨q, hq, rfl⟩
    obtain ⟨hlt, rfl⟩ := VarPool.coverClauses_ok_iff.mp hq
    exact ⟨hlt, rfl⟩
  · rintro ⟨hlt, rfl⟩
    exact ⟨_, VarPool.coverClauses_ok_iff.mpr ⟨hlt, rfl⟩, rfl⟩

theorem addAtMostOne_ok {m m' : Model} {ls : List Lit} (h : m.addAtMostOne ls = .ok m') :
    ∃ q, m.cover ls = .ok q ∧ m' = { q with hard := q.hard.append (Pairwise.clauses ls) } := by
  obtain ⟨q, hq, h⟩ := bind_ok_iff.mp h
  obtain ⟨⟨e, hard⟩, he, h⟩ := bind_ok_iff.mp h
  have hc := Pairwise.encode_ok he
  injection hc with hc
  injection h with h
  exact ⟨q, hq, by rw [← h, ← hc]; rfl⟩

/-- The model after a counter was encoded over its own pool. -/
def withCounter (m : Model) (r : SequentialCounter.Encoded Cnf) : Model :=
  { m with pool := r.pool, hard := r.collector }

theorem addAtLeast_ok {m m' : Model} {ls : List Lit} {k : Nat} {x : CounterMatrix}
    (h : m.addAtLeast ls k = .ok (x, m')) :
    ∃ q r, m.cover ls = .ok q ∧ (SequentialCounter.ofLits ls).encode k q.pool q.hard = .ok r ∧
      x = r.matrix ∧ m' = q.withCounter r := by
  obtain ⟨q, hq, h⟩ := bind_ok_iff.mp h
  obtain ⟨r, hr, h⟩ := bind_ok_iff.mp h
  injection h with h
  injection h with hx hm
  exact ⟨q, r, hq, hr, hx.symm, hm.symm⟩

/-- The cases of a cardinality constraint: pairwise clauses, nothing, one clause, a counter. -/
theorem addCardinality_ok {m m' : Model} {c : Cardinality} {x : Option CounterMatrix}
    (h : m.addCardinality c = .ok (x, m')) :
    (∃ ls, c = .atMostOne ls ∧ x = none ∧ m.addAtMostOne ls = .ok m') ∨
    (∃ ls, c = .atLeast ls 0 ∧ x = none ∧ m.cover ls = .ok m') ∨
    (∃ ls q, c = .atLeast ls 1 ∧ x = none ∧ m.cover ls = .ok q ∧
      m' = { q with hard := q.hard.append [.anyOf ls] }) ∨
    ∃ ls k q r, c = .atLeast ls k ∧ m.cover ls = .ok q ∧
      (SequentialCounter.ofLits ls).encode k q.pool q.hard = .ok r ∧
      x = some r.matrix ∧ m' = q.withCounter r := by
  cases c with
  | atMostOne ls =>
    obtain ⟨m'', hm, h⟩ := map_ok_iff.mp h
    injection h with hx h
    exact .inl ⟨ls, rfl, hx.symm, h ▸ hm⟩
  | atLeast ls k =>
    obtain ⟨q, hq, h⟩ := bind_ok_iff.mp h
    obtain ⟨r, hr, h⟩ := bind_ok_iff.mp h
    injection h with h
    injection h with hx h
    rcases AtLeast.encode_ok hr with ⟨rfl, rfl⟩ | ⟨rfl, hard, hc, rfl⟩ | ⟨s, hs, rfl⟩
    · exact .inr (.inl ⟨ls, rfl, hx.symm, h ▸ hq⟩)
    · injection hc with hc
      exact .inr (.inr (.inl ⟨ls, q, rfl, hx.symm, hq, by rw [← h, ← hc]⟩))
    · exact .inr (.inr (.inr ⟨ls, k, q, s, rfl, hq, hs, hx.symm, h.symm⟩))

/-! ## Calls as data -/

/-- A variable that a caller can name. -/
abbrev UsableVar := {v : Var // v.index ≤ Var.maxIndex}

/-- The calls that add variables or constraints. -/
inductive Op
  | freshVar
  | freshVars (n : Nat)
  | addClause (c : Clause)
  | addSoftClause (c : Clause)
  | addUnit (a : Lit)
  | addImplies (a b : Lit)
  | addImpliesAny (a : Lit) (bs : List Lit)
  | addAtMostOne (ls : List Lit)
  | addAtLeast (ls : List Lit) (bound : Nat)
  | addCardinality (c : Cardinality)
  | extend (cs : List Clause)
  | markUsed (v : UsableVar)
  | advance (v : UsableVar)

/-- What a call leaves: the model, fresh variables, and the matrix of a counter. -/
structure Grown where
  model : Model
  vars : List Var
  matrix : Option CounterMatrix

namespace Grown

/-- The variables of the counter. -/
def counters (g : Grown) : List Var := (g.matrix.map CounterMatrix.vars).getD []

/-- All variables that the call handed out. -/
def allocated (g : Grown) : List Var := g.vars ++ g.counters

/-- A call that hands out no variables. -/
def plain (m : Model) : Grown := ⟨m, [], none⟩

end Grown

/-- Runs a call. -/
def Op.run (m : Model) : Op → Except Violation Grown
  | .freshVar => m.pool.fresh.map fun (v, pool) => ⟨{ m with pool }, [v], none⟩
  | .freshVars n => (m.freshMany n).map fun (vs, m) => ⟨m, vs, none⟩
  | .addClause c => (m.addClause c).map .plain
  | .addSoftClause c => (m.addSoftClause c).map .plain
  | .addUnit a => (m.addClause (.unit a)).map .plain
  | .addImplies a b => (m.addClause (.implies a b)).map .plain
  | .addImpliesAny a bs => (m.addClause (.impliesAny a bs)).map .plain
  | .addAtMostOne ls => (m.addAtMostOne ls).map .plain
  | .addAtLeast ls k => (m.addAtLeast ls k).map fun (x, m) => ⟨m, [], some x⟩
  | .addCardinality c => (m.addCardinality c).map fun (x, m) => ⟨m, [], x⟩
  | .extend cs => (m.extend cs).map .plain
  | .markUsed v => (m.pool.markUsed v).map fun (_, pool) => .plain { m with pool }
  | .advance v => .ok (.plain { m with pool := (m.pool.advance v).2 })

end Model

end Clausal
