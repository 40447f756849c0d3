import Clausal.Proofs.ModelCalls

/-!
# The history of a pool

The calls that change a pool as data, and the runs that they make. A call moves the first free
variable up to `Call.next` and is answered just if that is usable; what it hands out is a block that
starts at the first free variable. So the variables of a whole run rise, and each is above all that
was marked before it (`run_history`).
-/

namespace Clausal.VarPool

/-! ## Calls as data -/

/-- The calls that change a pool. -/
inductive Call
  | fresh
  | freshMany (n : Nat)
  | advance (v : Model.UsableVar)
  | markUsed (v : Model.UsableVar)

/-- What a call returns: a variable, some variables, or whether it used any up. -/
inductive Answer
  | var (v : Var)
  | vars (vs : List Var)
  | grew (b : Bool)

/-- The variables that an answer hands out. -/
def Answer.given : Answer → List Var
  | var v => [v]
  | vars vs => vs
  | grew _ => []

namespace Call

/-- Makes a call. -/
def run (p : VarPool) : Call → Except Violation (Answer × VarPool)
  | fresh => p.fresh.map fun (v, q) => (.var v, q)
  | freshMany n => (p.freshMany n).map fun (vs, q) => (.vars vs, q)
  | advance v => .ok (.grew (p.advance v).1, (p.advance v).2)
  | markUsed v => (p.markUsed v).map fun (b, q) => (.grew b, q)

/-- The number of variables in use after a call. -/
def next (p : VarPool) : Call → Nat
  | fresh => p.used + 1
  | freshMany n => p.used + n
  | advance v => max p.used v.val.index
  | markUsed v => max p.used (v.val.index + 1)

def answer (p : VarPool) : Call → Answer
  | fresh => .var p.next
  | freshMany n => .vars (p.block n)
  | advance v => .grew (decide (p.used < v.val.index))
  | markUsed v => .grew (decide (p.used < v.val.index + 1))

variable {p q : VarPool} {c : Call} {a : Answer}

theorem run_eq_ok (h : c.next p ≤ Var.maxIndex) :
    c.run p = .ok (c.answer p, ⟨⟨c.next p⟩⟩) := by
  cases c with
  | fresh =>
    show p.fresh.map _ = _
    rw [p.fresh_eq_ok h]
    rfl
  | freshMany n =>
    show (p.freshMany n).map _ = _
    rw [p.freshMany_eq_ok n h]
    rfl
  | advance v =>
    show Except.ok (Answer.grew (p.advance v).1, (p.advance v).2) = _
    rw [advance_eq]
    rfl
  | markUsed v =>
    show (p.markUsed v).map _ = _
    rw [markUsed_eq_ok (Nat.le_trans (Nat.le_max_right _ _) h), advance_eq]
    rfl

theorem run_eq_error (hp : p.used ≤ Var.maxIndex) (h : Var.maxIndex < c.next p) :
    ∃ e, c.run p = .error e := by
  cases c with
  | fresh =>
    refine ⟨p.shortage, map_error_iff.mpr (p.fresh_eq_error ?_)⟩
    exact Nat.lt_succ_iff.mp h
  | freshMany n =>
    have hn : n ≠ 0 := by
      rintro rfl
      exact absurd h (Nat.not_lt.mpr hp)
    obtain ⟨e, he⟩ := p.freshMany_eq_error n hn h
    exact ⟨e, map_error_iff.mpr he⟩
  | advance v => exact absurd h (Nat.not_lt.mpr (Nat.max_le.mpr ⟨hp, v.property⟩))
  | markUsed v =>
    cases hv : p.markUsed v with
    | error e => exact ⟨e, map_error_iff.mpr hv⟩
    | ok r =>
      have hlt := (markUsed_ok (b := r.1) (q := r.2) hv).1
      exact absurd h (Nat.not_lt.mpr (Nat.max_le.mpr ⟨hp, hlt⟩))

/-- A call is answered just if the variables that are in use after it are usable. -/
theorem run_ok_iff (hp : p.used ≤ Var.maxIndex) : c.run p = .ok (a, q) ↔
    c.next p ≤ Var.maxIndex ∧ a = c.answer p ∧ q = ⟨⟨c.next p⟩⟩ := by
  constructor
  · intro h
    rcases Nat.lt_or_ge Var.maxIndex (c.next p) with hlt | hle
    · obtain ⟨e, he⟩ := run_eq_error hp hlt
      rw [he] at h
      cases h
    · rw [run_eq_ok hle] at h
      injection h with h
      injection h with ha hq
      exact ⟨hle, ha.symm, hq.symm⟩
  · rintro ⟨hle, rfl, rfl⟩
    exact run_eq_ok hle

theorem run_fails_iff (hp : p.used ≤ Var.maxIndex) :
    (∃ e, c.run p = .error e) ↔ Var.maxIndex < c.next p := by
  constructor
  · rintro ⟨e, he⟩
    by_contra hle
    rw [run_eq_ok (Nat.not_lt.mp hle)] at he
    cases he
  · exact run_eq_error hp

/-- What a call hands out is the next block of the pool. -/
theorem given_answer (p : VarPool) (c : Call) :
    (c.answer p).given = p.block (c.answer p).given.length := by
  cases c with
  | freshMany n =>
    show p.block n = p.block (p.block n).length
    rw [length_block]
  | fresh | advance | markUsed => rfl

/-- What a call hands out is in use after it. -/
theorem used_add_given_le (p : VarPool) (c : Call) :
    p.used + (c.answer p).given.length ≤ c.next p := by
  cases c with
  | fresh => exact Nat.le_refl _
  | freshMany n => exact Nat.add_le_add_left (Nat.le_of_eq (length_block p n)) p.used
  | advance v => exact Nat.le_max_left _ _
  | markUsed v => exact Nat.le_max_left _ _

theorem used_le_next (p : VarPool) (c : Call) : p.used ≤ c.next p :=
  Nat.le_trans (Nat.le_add_right _ _) (used_add_given_le p c)

end Call

/-! ## Runs -/

/-- A call with its answer. -/
structure Event where
  call : Call
  answer : Answer

/-- The variables that some events hand out, in order. -/
def given (es : List Event) : List Var := es.flatMap fun e => e.answer.given

theorem given_cons (c : Call) (a : Answer) (es : List Event) :
    given (⟨c, a⟩ :: es) = a.given ++ given es := rfl

/-- The events lead from the first pool to the second. -/
inductive Run : VarPool → List Event → VarPool → Prop
  | nil (p : VarPool) : Run p [] p
  | cons {p q r : VarPool} {c : Call} {a : Answer} {es : List Event} (h : c.run p = .ok (a, q))
      (hr : Run q es r) : Run p (⟨c, a⟩ :: es) r

namespace Run

variable {p q r : VarPool} {es fs : List Event}

/-- A run over two lists of events is two runs. -/
theorem of_append (h : Run p (es ++ fs) r) : ∃ q, Run p es q ∧ Run q fs r := by
  induction es generalizing p with
  | nil => exact ⟨p, .nil p, h⟩
  | cons e es ih =>
    cases h with
    | cons hc hr =>
      obtain ⟨q, hq, hfs⟩ := ih hr
      exact ⟨q, .cons hc hq, hfs⟩

theorem used_le (h : Run p es q) (hp : p.used ≤ Var.maxIndex) :
    p.used ≤ q.used ∧ q.used ≤ Var.maxIndex := by
  induction h with
  | nil => exact ⟨Nat.le_refl _, hp⟩
  | @cons p q r c a es hc _ ih =>
    obtain ⟨hle, -, rfl⟩ := (Call.run_ok_iff hp).mp hc
    obtain ⟨hqr, hr⟩ := ih hle
    exact ⟨Nat.le_trans (Call.used_le_next p c) hqr, hr⟩

/-- What a run hands out was free before it. -/
theorem given_free (h : Run p es q) (hp : p.used ≤ Var.maxIndex) :
    ∀ v ∈ given es, p.used ≤ v.index := by
  induction h with
  | nil => exact nofun
  | @cons p q r c a es hc _ ih =>
    obtain ⟨hle, rfl, rfl⟩ := (Call.run_ok_iff hp).mp hc
    rw [given_cons, List.forall_mem_append]
    refine ⟨fun v hv => ?_, fun v hv => ?_⟩
    · rw [Call.given_answer] at hv
      exact (mem_block.mp hv).1
    · exact Nat.le_trans (Call.used_le_next p c) (ih hle v hv)

theorem given_rising (h : Run p es q) (hp : p.used ≤ Var.maxIndex) :
    (given es).Pairwise fun v w => v.index < w.index := by
  induction h with
  | nil => exact List.Pairwise.nil
  | @cons p q r c a es hc hr ih =>
    obtain ⟨hle, rfl, rfl⟩ := (Call.run_ok_iff hp).mp hc
    rw [given_cons, List.pairwise_append]
    refine ⟨?_, ih hle, fun v hv w hw => ?_⟩
    · rw [Call.given_answer]
      exact block_rising p _
    · -- the block of this call ends below the first variable that is free for the next one
      rw [Call.given_answer] at hv
      have hlt := (mem_block.mp hv).2
      have hnext := Call.used_add_given_le p c
      have hfree : c.next p ≤ w.index := hr.given_free hle w hw
      omega

/-- A call within a run is answered for the pool before it, and later calls hand out nothing below
the variables that are in use after it. -/
theorem answer_at {before after : List Event} {c : Call} {a : Answer}
    (h : Run p (before ++ ⟨c, a⟩ :: after) q) (hp : p.used ≤ Var.maxIndex) :
    ∃ m, a = c.answer m ∧ ∀ w ∈ given after, c.next m ≤ w.index := by
  obtain ⟨m, hm, hafter⟩ := h.of_append
  obtain ⟨-, hmax⟩ := hm.used_le hp
  cases hafter with
  | cons hc hr =>
    obtain ⟨hle, ha, rfl⟩ := (Call.run_ok_iff hmax).mp hc
    exact ⟨m, ha, hr.given_free hle⟩

end Run

/-! ## The history of a run -/

/-- What a run from `p` to `q` hands out, against all that came before it. -/
structure History (p : VarPool) (es : List Event) (q : VarPool) : Prop where
  rising : (given es).Pairwise fun v w => v.index < w.index
  free : ∀ v ∈ given es, p.used ≤ v.index
  consecutive : ∀ n a, ⟨.freshMany n, a⟩ ∈ es →
    ∃ u, a = .vars ((List.range n).map fun i => ⟨u + i⟩)
  above_marked : ∀ before v a after, es = before ++ ⟨.markUsed v, a⟩ :: after →
    ∀ w ∈ given after, v.val.index < w.index
  from_advanced : ∀ before v a after, es = before ++ ⟨.advance v, a⟩ :: after →
    ∀ w ∈ given after, v.val.index ≤ w.index
  used_le : p.used ≤ q.used
  usable : q.used ≤ Var.maxIndex

/-- What a pool says of its variables, and when its calls say that they used any up or fail. -/
structure Accounts (q : VarPool) : Prop where
  maxVar?_eq_none_iff : q.maxVar? = none ↔ q.used = 0
  maxVar?_eq : q.used ≠ 0 → q.maxVar? = some ⟨q.used - 1⟩
  advance_grew_iff : ∀ v b r, q.advance v = (b, r) → (b = true ↔ q.used < r.used)
  markUsed_grew_iff : ∀ v b r, q.markUsed v = .ok (b, r) → (b = true ↔ q.used < r.used)
  freshMany_fails_iff : ∀ n, (∃ e, q.freshMany n = .error e) ↔ Var.maxIndex < q.used + n
  markUsed_fails_iff : ∀ v : Model.UsableVar,
    (∃ e, q.markUsed v = .error e) ↔ v.val.index = Var.maxIndex

theorem Run.toHistory {p q : VarPool} {es : List Event} (h : Run p es q)
    (hp : p.used ≤ Var.maxIndex) : History p es q where
  rising := h.given_rising hp
  free := h.given_free hp
  consecutive n a hmem := by
    obtain ⟨before, after, rfl⟩ := List.append_of_mem hmem
    obtain ⟨m, ha, -⟩ := h.answer_at hp
    exact ⟨m.used, ha⟩
  above_marked before v a after hes w hw := by
    subst hes
    obtain ⟨m, -, hlater⟩ := h.answer_at hp
    exact Nat.le_trans (Nat.le_max_right m.used _) (hlater w hw)
  from_advanced before v a after hes w hw := by
    subst hes
    obtain ⟨m, -, hlater⟩ := h.answer_at hp
    exact Nat.le_trans (Nat.le_max_right m.used _) (hlater w hw)
  used_le := (h.used_le hp).1
  usable := (h.used_le hp).2

theorem advance_grew_iff {p q : VarPool} {v : Var} {b : Bool} (h : p.advance v = (b, q)) :
    b = true ↔ p.used < q.used := by
  rw [advance_eq] at h
  injection h with hb hq
  rw [← hb, ← hq, decide_eq_true_eq]
  show p.used < v.index ↔ p.used < max p.used v.index
  omega

theorem accounts_of_usable {p : VarPool} (hp : p.used ≤ Var.maxIndex) : Accounts p where
  maxVar?_eq_none_iff := by simp [maxVar?]
  maxVar?_eq h := if_neg h
  advance_grew_iff _ _ _ := advance_grew_iff
  markUsed_grew_iff v b r h := by
    have hlt := (markUsed_ok h).1
    rw [markUsed_eq_ok hlt] at h
    injection h with h
    exact advance_grew_iff h
  freshMany_fails_iff n := by
    have hfails : _ ↔ Var.maxIndex < p.used + n := Call.run_fails_iff (c := .freshMany n) hp
    rw [← hfails]
    exact exists_congr fun e => map_error_iff.symm
  markUsed_fails_iff v := by
    have hfails := Call.run_fails_iff (c := .markUsed v) hp
    have hv := v.property
    have hnext : Var.maxIndex < Call.next p (.markUsed v) ↔ v.val.index = Var.maxIndex := by
      show Var.maxIndex < max p.used (v.val.index + 1) ↔ _
      omega
    rw [← hnext, ← hfails]
    exact exists_congr fun e => map_error_iff.symm

/-- The variables that a run hands out rise from the first free one on. They are consecutive within one
call, above every variable that was marked before, and not below any that the pool was advanced to
before. The variables in use never get fewer and stay usable, and the pool accounts for them. -/
theorem run_history {p q : VarPool} {es : List Event} (h : Run p es q)
    (hp : p.used ≤ Var.maxIndex) : History p es q ∧ Accounts q :=
  ⟨h.toHistory hp, accounts_of_usable (h.used_le hp).2⟩

/-- Two variables after one of two marks, and one more after the pool was advanced. -/
theorem run_history_interleaved :
    let calls : List Call := [.fresh, .markUsed ⟨⟨5⟩, by decide⟩, .markUsed ⟨⟨3⟩, by decide⟩,
      .freshMany 2, .advance ⟨⟨10⟩, by decide⟩, .fresh]
    ∃ es q, es.map Event.call = calls ∧ Run ⟨⟨2⟩⟩ es q ∧ given es = [⟨2⟩, ⟨6⟩, ⟨7⟩, ⟨10⟩] ∧
      History ⟨⟨2⟩⟩ es q ∧ Accounts q := by
  intro calls
  obtain ⟨es, q, hcalls, hrun, hgiven⟩ : ∃ es q, es.map Event.call = calls ∧
      Run ⟨⟨2⟩⟩ es q ∧ given es = [⟨2⟩, ⟨6⟩, ⟨7⟩, ⟨10⟩] :=
    ⟨_, _, rfl, .cons rfl (.cons rfl (.cons rfl (.cons rfl (.cons rfl (.cons rfl (.nil _)))))), rfl⟩
  exact ⟨es, q, hcalls, hrun, hgiven, run_history hrun (by decide)⟩

end Clausal.VarPool
