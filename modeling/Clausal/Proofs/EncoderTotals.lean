import Clausal.Proofs.CounterLayout
import Clausal.Proofs.EncodingRoutes
import Clausal.Proofs.PoolHistory

/-!
# What encoders count

An encoder tells how many clauses it has added and how many variables it has taken. A sequential
counter keeps totals over all of its runs. Its runs take their variables from one pool and add at most
five clauses for each of them, so the totals stay small. A pairwise encoder takes no variables, and it
keeps the number of clauses of its last run only: that is the total just if no run before the last one
has added a clause (`encoder_counts`).
-/

namespace Clausal

namespace SequentialCounter

/-! ## Totals of a counter -/

/-- The states of an encoder, with the clauses of each run so far and the variables that the runs took.
Literals may be added between the runs, each run may have a collector of its own, and the pool may be
used elsewhere in between. -/
inductive Reached : SequentialCounter → VarPool → List (List Clause) → List Var → Prop
  | start (ls : List Lit) {p : VarPool} (hp : p.used ≤ Var.maxIndex) : Reached (ofLits ls) p [] []
  | append {e : SequentialCounter} {p : VarPool} {runs : List (List Clause)} {vars : List Var}
      (he : Reached e p runs vars) (ls : List Lit) : Reached (e.append ls) p runs vars
  | elsewhere {e : SequentialCounter} {p q : VarPool} {runs : List (List Clause)} {vars : List Var}
      {es : List VarPool.Event} (he : Reached e p runs vars) (hq : VarPool.Run p es q) :
      Reached e q runs vars
  | encode {γ : Type} [Collector γ] [LawfulCollector γ] {col : γ} {e : SequentialCounter}
      {p : VarPool} {runs : List (List Clause)} {vars : List Var} {k : Nat} {r : Encoded γ}
      {cs : List Clause} (he : Reached e p runs vars) (hr : e.encode k p col = .ok r)
      (hcs : Collector.extend col cs = .ok r.collector) :
      Reached r.encoder r.pool (runs ++ [cs]) (vars ++ r.matrix.vars)

/-- The totals are right, and they are within reach of the variables that are in use. -/
structure Tallies (e : SequentialCounter) (p : VarPool) (runs : List (List Clause))
    (vars : List Var) : Prop where
  clauseCount_eq : e.clauseCount = runs.flatten.length
  varCount_eq : e.varCount = vars.length
  clauseCount_le : e.clauseCount ≤ 5 * e.varCount
  varCount_le : e.varCount ≤ p.used
  usable : p.used ≤ Var.maxIndex

section Totals

variable {γ : Type} [Collector γ] [LawfulCollector γ] {col : γ} {e : SequentialCounter} {k : Nat}
  {p : VarPool} {r : Encoded γ} {runs : List (List Clause)} {vars : List Var}

/-- A run adds its clauses and its variables to the totals. -/
theorem encode_encoder (h : e.encode k p col = .ok r) {cs : List Clause}
    (hcs : Collector.extend col cs = .ok r.collector) :
    r.encoder.clauseCount = e.clauseCount + cs.length ∧
    r.encoder.varCount = e.varCount + r.matrix.vars.length ∧
    cs.length ≤ 5 * r.matrix.vars.length ∧
    r.pool.used = p.used + r.matrix.vars.length ∧ r.pool.used ≤ Var.maxIndex := by
  obtain ⟨hk, hn, hroom, hm, hp, hcol⟩ := encode_ok h
  rw [encode_eq_map hk hn hroom, map_ok_iff] at h
  obtain ⟨col', -, rfl⟩ := h
  have hlen : cs.length = (clausesOver e.lits (p.block ((k + 1) * e.lits.length)) k).length := by
    rw [← count_sub_eq hcs, ← count_sub_eq hcol]
  dsimp only
  rw [VarPool.length_block, count_sub_eq hcs]
  refine ⟨rfl, rfl, ?_, rfl, hroom⟩
  rw [hlen]
  exact length_clauses_le _ _ hn

theorem Tallies.encode (he : Tallies e p runs vars) (h : e.encode k p col = .ok r)
    {cs : List Clause} (hcs : Collector.extend col cs = .ok r.collector) :
    Tallies r.encoder r.pool (runs ++ [cs]) (vars ++ r.matrix.vars) := by
  obtain ⟨hclauses, hvars, hle, hused, husable⟩ := encode_encoder h hcs
  have hbound := he.clauseCount_le
  have hin := he.varCount_le
  refine ⟨?_, ?_, ?_, ?_, husable⟩
  · rw [hclauses, he.clauseCount_eq]
    simp
  · rw [hvars, he.varCount_eq, List.length_append]
  · omega
  · omega

theorem Reached.tallies (h : Reached e p runs vars) : Tallies e p runs vars := by
  induction h with
  | start ls hp => exact ⟨rfl, rfl, Nat.zero_le _, Nat.zero_le _, hp⟩
  | append _ ls ih => exact ⟨ih.1, ih.2, ih.3, ih.4, ih.5⟩
  | elsewhere _ hq ih =>
    obtain ⟨hle, husable⟩ := hq.used_le ih.usable
    exact ⟨ih.1, ih.2, ih.3, Nat.le_trans ih.varCount_le hle, husable⟩
  | encode _ hr hcs ih => exact ih.encode hr hcs

end Totals

end SequentialCounter

namespace Pairwise

/-! ## The count of a pairwise encoder -/

/-- The states of an encoder, with the clauses of each run so far. A collector counts its clauses by a
64-bit number. -/
inductive Reached : Pairwise → List (List Clause) → Prop
  | start (ls : List Lit) : Reached (ofLits ls) []
  | append {e : Pairwise} {runs : List (List Clause)} (he : Reached e runs) (ls : List Lit) :
      Reached (e.append ls) runs
  | encode {γ : Type} [Collector γ] [LawfulCollector γ] {col col' : γ} {e e' : Pairwise}
      {runs : List (List Clause)} {cs : List Clause} (he : Reached e runs)
      (hr : e.encode col = .ok (e', col')) (hcs : Collector.extend col cs = .ok col')
      (hcount : Collector.count col' < 18446744073709551616) : Reached e' (runs ++ [cs])

theorem encode_clauseCount {γ : Type} [Collector γ] [LawfulCollector γ] {col col' : γ}
    {e e' : Pairwise} (h : e.encode col = .ok (e', col')) {cs : List Clause}
    (hcs : Collector.extend col cs = .ok col') : e'.clauseCount = cs.length := by
  obtain ⟨col'', -, h⟩ := bind_ok_iff.mp h
  injection h with h
  injection h with he hcol
  subst hcol
  rw [← he, ← count_sub_eq hcs]

/-- The count is that of the last run. -/
theorem Reached.clauseCount_eq {e : Pairwise} {runs : List (List Clause)} (h : Reached e runs) :
    e.clauseCount = (runs.getLast?.getD []).length := by
  induction h with
  | start ls => rfl
  | append _ ls ih => exact ih
  | encode _ hr hcs _ _ => simpa using encode_clauseCount hr hcs

theorem Reached.clauseCount_lt {e : Pairwise} {runs : List (List Clause)} (h : Reached e runs) :
    e.clauseCount < 18446744073709551616 := by
  induction h with
  | start ls => exact Nat.zero_lt_succ _
  | append _ ls ih => exact ih
  | encode _ hr hcs hcount _ =>
    rw [encode_clauseCount hr hcs]
    rw [LawfulCollector.count_of_extend hcs] at hcount
    omega

end Pairwise

/-! ## Both encoders -/

/-- The last list is as long as all of them together just if the others are empty. -/
theorem length_getLast_eq_iff {α : Type} (xss : List (List α)) :
    (xss.getLast?.getD []).length = xss.flatten.length ↔ ∀ xs ∈ xss.dropLast, xs = [] := by
  rcases List.eq_nil_or_concat xss with rfl | ⟨yss, ys, rfl⟩
  · simp
  · rw [List.concat_eq_append, List.getLast?_concat, List.dropLast_concat, Option.getD_some,
      List.flatten_append, List.flatten_singleton, List.length_append,
      ← List.flatten_eq_nil_iff, ← List.length_eq_zero_iff]
    omega

/-- After any calls a counter has counted all clauses that it added and all variables that it took, and
its totals fit their words. A pairwise encoder has counted the clauses of its last run, which are all
that it added exactly if no earlier run added any. No run takes clauses or variables away. -/
theorem encoder_counts (e : SequentialCounter) (p : VarPool) (f : Pairwise)
    (runs : List (List Clause)) (vars : List Var) :
    (SequentialCounter.Reached e p runs vars →
      e.clauseCount = runs.flatten.length ∧ e.varCount = vars.length ∧
      e.clauseCount < 18446744073709551616 ∧ e.varCount < 4294967296) ∧
    (Pairwise.Reached f runs →
      f.clauseCount = (runs.getLast?.getD []).length ∧
      (f.clauseCount = runs.flatten.length ↔ ∀ cs ∈ runs.dropLast, cs = []) ∧
      f.clauseCount < 18446744073709551616) ∧
    ∀ {γ : Type} [Collector γ] [LawfulCollector γ] (col : γ),
      (∀ k r, e.encode k p col = .ok r →
        Collector.count col ≤ Collector.count r.collector ∧ p.used ≤ r.pool.used) ∧
      ∀ f' col', f.encode col = .ok (f', col') → Collector.count col ≤ Collector.count col' := by
  refine ⟨fun h => ?_, fun h => ?_, fun col => ⟨fun k r h => ?_, fun f' col' h => ?_⟩⟩
  · obtain ⟨hclauses, hvars, hle, hin, husable⟩ := h.tallies
    rw [Var.maxIndex] at husable
    exact ⟨hclauses, hvars, by omega, by omega⟩
  · rw [← length_getLast_eq_iff, h.clauseCount_eq]
    exact ⟨rfl, Iff.rfl, h.clauseCount_eq ▸ h.clauseCount_lt⟩
  · have hcol := (SequentialCounter.encode_ok h).collected
    have hused := (SequentialCounter.encode_encoder h hcol).2.2.2.1
    rw [LawfulCollector.count_of_extend hcol, hused]
    exact ⟨Nat.le_add_right _ _, Nat.le_add_right _ _⟩
  · rw [LawfulCollector.count_of_extend (Pairwise.encode_ok h)]
    exact Nat.le_add_right _ _

/-- A counter runs into a model and then, with one literal more and after a variable was taken
elsewhere, into a formula. A pairwise encoder runs over one literal and then over three. -/
theorem encoder_counts_two_runs :
    (∃ e p runs vars, SequentialCounter.Reached e p runs vars ∧ e.clauseCount = 26 ∧
      runs.length = 2 ∧ runs.flatten.length = 26 ∧ vars.length = 9) ∧
    ∃ e runs, Pairwise.Reached e runs ∧ e.clauseCount = 3 ∧ runs.length = 2 ∧
      runs.flatten.length = 3 := by
  let ls := [Var.pos ⟨0⟩, Var.neg ⟨1⟩, Var.pos ⟨2⟩]
  obtain ⟨r, s, hr, hrun, hs, hclauses, hvars⟩ : ∃ r s,
      (SequentialCounter.ofLits [Var.pos ⟨0⟩]).encode 2 ⟨⟨2⟩⟩ Model.empty = .ok r ∧
      VarPool.Run r.pool [⟨.fresh, .var ⟨5⟩⟩] ⟨⟨6⟩⟩ ∧
      (r.encoder.append [Var.neg ⟨1⟩]).encode 2 ⟨⟨6⟩⟩ Cnf.empty = .ok s ∧
      s.encoder.clauseCount = 26 ∧ s.encoder.varCount = 9 :=
    ⟨_, _, rfl, .cons rfl (.nil _), rfl, rfl, rfl⟩
  have hcounter := ((SequentialCounter.Reached.start [Var.pos ⟨0⟩] (by decide)).encode hr
    (SequentialCounter.encode_ok hr).collected).elsewhere hrun
    |>.append [Var.neg ⟨1⟩] |>.encode hs (SequentialCounter.encode_ok hs).collected
  have hfirst : Pairwise.Reached ⟨[Var.pos ⟨0⟩], 0⟩ [[]] :=
    .encode (.start [Var.pos ⟨0⟩])
      (show (Pairwise.ofLits _).encode Cnf.empty = .ok (_, ⟨[]⟩) from rfl) rfl (by decide)
  have hsecond : Pairwise.Reached ⟨ls, 3⟩ [[], Pairwise.clauses ls] :=
    .encode (hfirst.append [Var.neg ⟨1⟩, Var.pos ⟨2⟩])
      (show (Pairwise.mk ls 0).encode Cnf.empty = .ok (_, ⟨Pairwise.clauses ls⟩) from rfl) rfl
      (by decide)
  obtain ⟨hflat, hlen, -, -⟩ := (encoder_counts _ _ ⟨ls, 3⟩ _ _).1 hcounter
  obtain ⟨-, hall, -⟩ := (encoder_counts (.ofLits ls) ⟨⟨3⟩⟩ _ _ []).2.1 hsecond
  exact ⟨⟨_, _, _, _, hcounter, hclauses, rfl, hflat ▸ hclauses, hlen ▸ hvars⟩,
    ⟨_, _, hsecond, rfl, rfl, (hall.mpr (by simp)).symm⟩⟩

/-- The second run adds its one clause again, and the count stays one. -/
theorem Pairwise.second_run_uncounted :
    let ls := [Var.pos ⟨0⟩, Var.pos ⟨1⟩]
    ∃ e, Reached e [clauses ls, clauses ls] ∧ e.clauseCount = 1 ∧
      [clauses ls, clauses ls].flatten.length = 2 := by
  intro ls
  have hrun : ∀ n, (Pairwise.mk ls n).encode Cnf.empty = .ok (⟨ls, 1⟩, ⟨clauses ls⟩) :=
    fun _ => rfl
  have hfirst : Reached ⟨ls, 1⟩ [clauses ls] := .encode (.start ls) (hrun 0) rfl (by decide)
  exact ⟨⟨ls, 1⟩, .encode hfirst (hrun 1) rfl (by decide), rfl, rfl⟩

end Clausal
