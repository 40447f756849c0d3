import Clausal.Proofs.ModelCalls

/-!
# Routes to an encoding

A constraint gets into a model by a call of the model, which marks the literals and encodes over
the model's own pool, or by an encoder that has a pool of its own and the model as its collector. An
encoder does the same wherever its clauses go (`AtLeast.encode_eq_bind`), so both routes are told by
the run that collects into an empty formula: it gives the matrix, the pool and the clauses
(`at_least_routes_agree`). What a model does beside taking the clauses is to use their variables.
-/

namespace Clausal

/-! ## Collectors -/

/-- A collector that stays as it is without clauses and counts all that it takes. -/
class LawfulCollector (γ : Type) [Collector γ] : Prop where
  extend_nil : ∀ col : γ, Collector.extend col [] = .ok col
  count_of_extend : ∀ {col col' : γ} {cs : List Clause}, Collector.extend col cs = .ok col' →
    Collector.count col' = Collector.count col + cs.length

instance : LawfulCollector Cnf where
  extend_nil f := congrArg _ f.append_nil
  count_of_extend := by
    intro f f' cs h
    injection h with h
    rw [← h]
    exact List.length_append

instance : LawfulCollector Model where
  extend_nil m := Model.extend_ok_iff.mpr ⟨nofun, by rw [Cnf.append_nil]; rfl⟩
  count_of_extend := by
    intro m m' cs h
    obtain ⟨-, rfl⟩ := Model.extend_ok_iff.mp h
    exact List.length_append

/-! ## Encoders by their clauses -/

section Encoders

variable {γ : Type} [Collector γ] [LawfulCollector γ]

/-- The number of clauses that a collector takes does not depend on the collector. -/
theorem count_sub_eq {col col' : γ} {cs : List Clause} (h : Collector.extend col cs = .ok col') :
    Collector.count col' - Collector.count col = cs.length := by
  rw [LawfulCollector.count_of_extend h, Nat.add_sub_cancel_left]

theorem Pairwise.encode_eq_bind (e : Pairwise) (col : γ) :
    e.encode col = e.encode Cnf.empty >>= fun s =>
      (Collector.extend col s.2.clauses).map fun col' => (s.1, col') := by
  show (Collector.extend col (clauses e.lits) >>= _) = (Collector.extend col (clauses e.lits)).map _
  cases h : Collector.extend col (clauses e.lits) with
  | error v => rfl
  | ok col' =>
    show Except.ok (_, col') = Except.ok (_, col')
    rw [count_sub_eq h]
    rfl

theorem SequentialCounter.encode_eq_bind (e : SequentialCounter) (k : Nat) (p : VarPool) (col : γ) :
    e.encode k p col = e.encode k p Cnf.empty >>= fun s =>
      (Collector.extend col s.collector.clauses).map fun col' =>
        ⟨s.matrix, s.encoder, s.pool, col'⟩ := by
  unfold encode
  by_cases hk : k ≤ 1
  · rw [if_pos hk, if_pos hk]
    rfl
  by_cases hl : e.lits.isEmpty = true
  · rw [if_neg hk, if_neg hk, if_pos hl, if_pos hl]
    rfl
  by_cases hf : (!fitsMemory (k + 1) rowSize) = true
  · rw [if_neg hk, if_neg hk, if_neg hl, if_neg hl, if_pos hf, if_pos hf]
    rfl
  rw [if_neg hk, if_neg hk, if_neg hl, if_neg hl, if_neg hf, if_neg hf]
  dsimp only
  cases p.freshRows (k + 1) e.lits.length with
  | error v => rfl
  | ok taken =>
    obtain ⟨vs, q⟩ := taken
    show (Collector.extend col (clausesOver e.lits vs k) >>= _) =
      (Collector.extend col (clausesOver e.lits vs k)).map _
    cases h : Collector.extend col (clausesOver e.lits vs k) with
    | error v => rfl
    | ok col' =>
      show Except.ok (Encoded.mk _ _ q col') = Except.ok (Encoded.mk _ _ q col')
      rw [count_sub_eq h]
      rfl

/-- An encoder adds to any collector what it adds to an empty formula. -/
theorem AtLeast.encode_eq_bind (ls : List Lit) (k : Nat) (p : VarPool) (col : γ) :
    AtLeast.encode ls k p col = AtLeast.encode ls k p Cnf.empty >>= fun s =>
      (Collector.extend col s.collector.clauses).map fun col' => ⟨s.matrix, s.pool, col'⟩ := by
  unfold AtLeast.encode
  by_cases h : 0 < k ∧ ls = []
  · rw [if_pos h, if_pos h]
    rfl
  rw [if_neg h, if_neg h]
  match k with
  | 0 =>
    show _ = (Collector.extend col []).map _
    rw [LawfulCollector.extend_nil]
    rfl
  | 1 => rfl
  | k + 2 =>
    simp only []
    rw [SequentialCounter.encode_eq_bind]
    cases (SequentialCounter.ofLits ls).encode (k + 2) p Cnf.empty with
    | error v => rfl
    | ok s =>
      show Except.map _ (Except.map _ _) = Except.map _ _
      cases Collector.extend col s.collector.clauses <;> rfl

end Encoders

/-! ## Literals in use -/

/-- Uses the variable of each literal in turn. -/
def VarPool.markEach (p : VarPool) (ls : List Lit) : Except Violation VarPool :=
  ls.foldlM (fun p l => (p.markUsed l.var).map (·.2)) p

/-- Marking the literals one by one is covering them at once. -/
theorem VarPool.markEach_ok_iff {p q : VarPool} {ls : List Lit} :
    p.markEach ls = .ok q ↔ p.cover ls = .ok q := by
  rw [cover_ok_iff]
  induction ls generalizing p with
  | nil =>
    constructor
    · intro h
      injection h with h
      exact ⟨by simp, h.symm⟩
    · rintro ⟨-, rfl⟩
      rfl
  | cons l ls ih =>
    have hstep : p.markEach (l :: ls) =
        (p.markUsed l.var).map (·.2) >>= fun p => p.markEach ls := rfl
    rw [hstep, reach_cons, List.forall_mem_cons, bind_ok_iff]
    simp only [map_ok_iff]
    constructor
    · rintro ⟨_, ⟨⟨b, p'⟩, hp, rfl⟩, h⟩
      obtain ⟨hl, hused⟩ := markUsed_ok hp
      obtain ⟨hls, hq⟩ := ih.mp h
      exact ⟨⟨hl, hls⟩, by rw [hq, hused]; rfl⟩
    · rintro ⟨⟨hl, hls⟩, hq⟩
      refine ⟨_, ⟨_, markUsed_eq_ok hl, rfl⟩, ih.mpr ⟨hls, ?_⟩⟩
      rw [advance_used]
      exact hq

namespace Model

/-! ## Models as collectors -/

/-- The model takes clauses at the end of its hard clauses and uses their variables. -/
structure Takes (m : Model) (cs : List Clause) (m' : Model) : Prop where
  name_eq : m'.name = m.name
  soft_eq : m'.soft = m.soft
  hard_eq : m'.hard = m.hard.append cs
  varCount_eq : m'.varCount =
    (maxVar? (cs.flatMap Clause.lits)).elim m.varCount fun v => max m.varCount (v.index + 1)

theorem extend_ok_iff_takes {m m' : Model} {cs : List Clause} : m.extend cs = .ok m' ↔
    (∀ c ∈ cs, ∀ l ∈ c.lits, l.index < Var.maxIndex) ∧ m.Takes cs m' := by
  rw [extend_ok_iff]
  constructor
  · rintro ⟨hlt, rfl⟩
    exact ⟨hlt, rfl, rfl, rfl, reach_eq_maxVar _ _⟩
  · rintro ⟨hlt, hname, hsoft, hhard, hcount⟩
    rw [← reach_eq_maxVar] at hcount
    obtain ⟨name, ⟨⟨used⟩⟩, hard, soft⟩ := m'
    subst hname hsoft hhard
    exact ⟨hlt, by rw [← hcount]; rfl⟩

/-! ## Routes -/

/-- The call of a model is the encoder over the marked pool. -/
theorem addCardinality_atLeast_ok_iff {m m' : Model} {ls : List Lit} {k : Nat}
    {x : Option CounterMatrix} : m.addCardinality (.atLeast ls k) = .ok (x, m') ↔
      ∃ q r, m.pool.markEach ls = .ok q ∧ AtLeast.encode ls k q Cnf.empty = .ok r ∧
        x = r.matrix ∧ m' = { m with pool := r.pool, hard := m.hard.append r.collector.clauses } := by
  have hcall : m.addCardinality (.atLeast ls k) = m.pool.cover ls >>= fun q =>
      AtLeast.encode ls k q Cnf.empty >>= fun r => .ok (r.matrix,
        { m with pool := r.pool, hard := m.hard.append r.collector.clauses }) := by
    show (m.pool.cover ls).map _ >>= _ = _
    cases m.pool.cover ls with
    | error v => rfl
    | ok q =>
      show AtLeast.encode ls k q m.hard >>= _ = AtLeast.encode ls k q Cnf.empty >>= _
      rw [AtLeast.encode_eq_bind]
      cases AtLeast.encode ls k q Cnf.empty <;> rfl
  rw [hcall, bind_ok_iff]
  simp only [bind_ok_iff, Except.ok.injEq, Prod.mk.injEq, VarPool.markEach_ok_iff]
  constructor
  · rintro ⟨q, hq, r, hr, hx, hm⟩
    exact ⟨q, r, hq, hr, hx.symm, hm.symm⟩
  · rintro ⟨q, r, hq, hr, hx, hm⟩
    exact ⟨q, hq, r, hr, hx.symm, hm.symm⟩

/-- A call for a counter is a call for its constraint with a bound of two or more. -/
theorem addAtLeast_ok_iff {m m' : Model} {ls : List Lit} {k : Nat} {x : CounterMatrix} :
    m.addAtLeast ls k = .ok (x, m') ↔
      2 ≤ k ∧ m.addCardinality (.atLeast ls k) = .ok (some x, m') := by
  constructor
  · intro h
    obtain ⟨q, r, hq, hr, rfl, rfl⟩ := addAtLeast_ok h
    refine ⟨(SequentialCounter.encode_ok hr).two_le, ?_⟩
    have henc := AtLeast.encode_of_counter hr
    show (m.cover ls >>= _) = _
    rw [hq]
    show (AtLeast.encode ls k q.pool q.hard >>= _) = _
    rw [henc]
    rfl
  · rintro ⟨hk, h⟩
    rcases addCardinality_ok h with ⟨ls', hc, -⟩ | ⟨ls', hc, -⟩ | ⟨ls', q, hc, -⟩ |
      ⟨ls', k', q, r, hc, hq, hr, hx, rfl⟩
    · cases hc
    · injection hc
      omega
    · injection hc
      omega
    · injection hc with hls hk'
      injection hx with hx
      subst hls hk' hx
      show (m.cover ls >>= _) = _
      rw [hq]
      show ((SequentialCounter.ofLits ls).encode k q.pool q.hard >>= _) = _
      rw [hr]
      rfl

/-- The calls of a model for an at-least constraint do what the encoder does with an empty formula
over the marked pool. With the model as collector, an encoder over any pool does what it does with an
empty formula, and the model takes the clauses; this fails just if the encoder does or if a clause is
over the highest variable. -/
theorem at_least_routes_agree (m : Model) (ls : List Lit) (k : Nat) :
    (∀ x m', m.addCardinality (.atLeast ls k) = .ok (x, m') ↔
      ∃ q r, m.pool.markEach ls = .ok q ∧ AtLeast.encode ls k q Cnf.empty = .ok r ∧
        x = r.matrix ∧
        m' = { m with pool := r.pool, hard := m.hard.append r.collector.clauses }) ∧
    (∀ x m', m.addAtLeast ls k = .ok (x, m') ↔ 2 ≤ k ∧
      ∃ q r, m.pool.markEach ls = .ok q ∧ AtLeast.encode ls k q Cnf.empty = .ok r ∧
        some x = r.matrix ∧
        m' = { m with pool := r.pool, hard := m.hard.append r.collector.clauses }) ∧
    (∀ own r, AtLeast.encode ls k own m = .ok r ↔
      ∃ s, AtLeast.encode ls k own Cnf.empty = .ok s ∧
        (∀ c ∈ s.collector.clauses, ∀ l ∈ c.lits, l.index < Var.maxIndex) ∧
        r.matrix = s.matrix ∧ r.pool = s.pool ∧ m.Takes s.collector.clauses r.collector) ∧
    ∀ e e' m', Pairwise.encode e m = .ok (e', m') ↔
      ∃ f, e.encode Cnf.empty = .ok (e', f) ∧
        (∀ c ∈ f.clauses, ∀ l ∈ c.lits, l.index < Var.maxIndex) ∧ m.Takes f.clauses m' := by
  refine ⟨fun x m' => addCardinality_atLeast_ok_iff, fun x m' => ?_, fun own r => ?_,
    fun e e' m' => ?_⟩
  · rw [addAtLeast_ok_iff, addCardinality_atLeast_ok_iff]
  · rw [AtLeast.encode_eq_bind, bind_ok_iff]
    refine exists_congr fun s => and_congr_right fun _ => ?_
    rw [map_ok_iff]
    constructor
    · rintro ⟨m', hm, rfl⟩
      obtain ⟨hlt, htakes⟩ := extend_ok_iff_takes.mp hm
      exact ⟨hlt, rfl, rfl, htakes⟩
    · rintro ⟨hlt, hx, hq, htakes⟩
      exact ⟨_, extend_ok_iff_takes.mpr ⟨hlt, htakes⟩, by rw [← hx, ← hq]⟩
  · rw [Pairwise.encode_eq_bind, bind_ok_iff]
    constructor
    · rintro ⟨⟨e'', f⟩, he, h⟩
      obtain ⟨m'', hm, h⟩ := map_ok_iff.mp h
      injection h with he' hm'
      subst he' hm'
      exact ⟨f, he, extend_ok_iff_takes.mp hm⟩
    · rintro ⟨f, he, htakes⟩
      exact ⟨_, he, map_ok_iff.mpr ⟨m', extend_ok_iff_takes.mpr htakes, rfl⟩⟩

end Model

end Clausal
