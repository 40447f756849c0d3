import Clausal.Proofs.OpenCounts

/-!
# Decided values

A clause, a formula and a constraint keep their value when more variables are decided: a true clause
keeps its true literal, a false one has none that is open. Where all of their variables are decided,
an assignment is a valuation, and the value says whether they hold there
(`eval_stable_and_boolean`).
-/

namespace Clausal

variable {a b : Assignment} {τ : Valuation}

/-- The value is not open, and it is true if and only if the condition holds. -/
def Ternary.Tells (t : Ternary) (p : Prop) : Prop := t = .true ∧ p ∨ t = .false ∧ ¬ p

theorem Ternary.tells_of_iff {t : Ternary} {p : Prop} (htrue : t = .true ↔ p)
    (hfalse : t = .false ↔ ¬ p) : t.Tells p := by
  by_cases hp : p
  · exact .inl ⟨htrue.mpr hp, hp⟩
  · exact .inr ⟨hfalse.mpr hp, hp⟩

/-! ## Deciding more variables -/

theorem Assignment.Refines.litValue_of_eq (h : b.Refines a) {l : Lit} {t : Ternary}
    (ht : t ≠ .dontCare) (hl : a.litValue l = t) : b.litValue l = t := by
  rw [h.litValue_eq (hl ▸ ht), hl]

/-- Deciding an open variable refines an assignment. -/
theorem Assignment.refines_assign {v : Var} (h : a.value v = .dontCare) (t : Ternary) :
    (a.assign v t).Refines a := by
  intro w _ hw
  rw [value_assign, if_neg]
  rintro rfl
  exact hw h

theorem Clause.eval_of_refines {c : Clause} (h : b.Refines a) (hc : c.eval a ≠ .dontCare) :
    c.eval b = c.eval a := by
  cases hv : c.eval a with
  | dontCare => exact absurd hv hc
  | true =>
    obtain ⟨l, hl, ht⟩ := (eval_eq_true_iff c a).mp hv
    exact (eval_eq_true_iff c b).mpr ⟨l, hl, h.litValue_of_eq nofun ht⟩
  | false =>
    have hlits := (eval_eq_false_iff c a).mp hv
    exact (eval_eq_false_iff c b).mpr fun l hl => h.litValue_of_eq nofun (hlits l hl)

theorem Cnf.eval_of_refines {f : Cnf} (h : b.Refines a) (hf : f.eval a ≠ .dontCare) :
    f.eval b = f.eval a := by
  have hkept : ∀ {c : Clause} {t : Ternary}, t ≠ .dontCare → c.eval a = t → c.eval b = t := by
    intro c t ht hc
    rw [Clause.eval_of_refines h (hc ▸ ht), hc]
  cases hv : f.eval a with
  | dontCare => exact absurd hv hf
  | true =>
    have hclauses := (eval_eq_true_iff f a).mp hv
    exact (eval_eq_true_iff f b).mpr fun c hc => hkept nofun (hclauses c hc)
  | false =>
    obtain ⟨c, hc, hfalse⟩ := (eval_eq_false_iff f a).mp hv
    exact (eval_eq_false_iff f b).mpr ⟨c, hc, hkept nofun hfalse⟩

/-! ## Boolean values -/

namespace Assignment

/-- The valuation of an assignment. A variable that is open reads as false. -/
def reading (a : Assignment) : Valuation := fun v => (a.value v).getD false

/-- Every variable of the literals has a value. -/
def Decides (a : Assignment) (ls : List Lit) : Prop := ∀ l ∈ ls, a.value l.var ≠ .dontCare

/-- Whatever the open variables read as, the decided ones keep their values. -/
theorem completedBy_getD (a : Assignment) (σ : Valuation) :
    a.CompletedBy fun v => (a.value v).getD (σ v) := by
  intro v hv
  show a.value v = .ofBool ((a.value v).getD (σ v))
  cases h : a.value v with
  | dontCare => exact absurd h hv
  | true => rfl
  | false => rfl

theorem completedBy_reading (a : Assignment) : a.CompletedBy a.reading :=
  a.completedBy_getD fun _ => false

variable {l : Lit} {ls : List Lit}

theorem CompletedBy.litValue_eq_true_iff (h : a.CompletedBy τ) (hl : a.value l.var ≠ .dontCare) :
    a.litValue l = .true ↔ l.holds τ = true := by
  rw [h.litValue (mt (a.litValue_eq_dontCare_iff l).mp hl)]
  cases l.holds τ <;> simp [Ternary.ofBool]

theorem CompletedBy.litValue_eq_false_iff (h : a.CompletedBy τ) (hl : a.value l.var ≠ .dontCare) :
    a.litValue l = .false ↔ l.holds τ = false := by
  rw [h.litValue (mt (a.litValue_eq_dontCare_iff l).mp hl)]
  cases l.holds τ <;> simp [Ternary.ofBool]

/-- Decided literals are counted as they are true. -/
theorem CompletedBy.sureCount_eq (h : a.CompletedBy τ) (hls : a.Decides ls) :
    sureCount ls a = trueCount ls τ :=
  List.countP_congr fun l hl => by
    rw [decide_eq_true_eq]
    exact h.litValue_eq_true_iff (hls l hl)

/-- Of decided literals no more are possible than sure. -/
theorem Decides.possibleCount_eq (hls : a.Decides ls) : possibleCount ls a = sureCount ls a := by
  have hopen : Cardinality.count .dontCare ls a = 0 := by
    refine List.countP_eq_zero.mpr fun l hl hv => hls l hl ?_
    exact (a.litValue_eq_dontCare_iff l).mp (of_decide_eq_true hv)
  rw [possibleCount, hopen, Nat.add_zero]

end Assignment

theorem Clause.eval_tells {c : Clause} (h : a.CompletedBy τ) (hc : a.Decides c.lits) :
    (c.eval a).Tells (c.Holds τ) := by
  apply Ternary.tells_of_iff
  · rw [eval_eq_true_iff]
    exact exists_congr fun l => and_congr_right fun hl => h.litValue_eq_true_iff (hc l hl)
  · rw [eval_eq_false_iff, Holds, not_exists]
    refine forall_congr' fun l => ?_
    rw [not_and, Bool.not_eq_true]
    exact forall_congr' fun hl => h.litValue_eq_false_iff (hc l hl)

theorem Cnf.eval_tells {f : Cnf} (h : a.CompletedBy τ) (hf : ∀ c ∈ f.clauses, a.Decides c.lits) :
    (f.eval a).Tells (f.Holds τ) := by
  by_cases hall : f.Holds τ
  · refine .inl ⟨(eval_eq_true_iff f a).mpr fun c hc => ?_, hall⟩
    rcases Clause.eval_tells h (hf c hc) with ⟨htrue, -⟩ | ⟨-, hnot⟩
    · exact htrue
    · exact absurd (hall c hc) hnot
  · obtain ⟨c, hc, hnot⟩ : ∃ c ∈ f.clauses, ¬ c.Holds τ := by
      simpa [Cnf.Holds] using hall
    refine .inr ⟨(eval_eq_false_iff f a).mpr ⟨c, hc, ?_⟩, hall⟩
    rcases Clause.eval_tells h (hf c hc) with ⟨-, hholds⟩ | ⟨hfalse, -⟩
    · exact absurd hholds hnot
    · exact hfalse

theorem Cardinality.eval_tells {c : Cardinality} (h : a.CompletedBy τ) (hc : a.Decides c.lits) :
    (c.eval a).Tells (c.Holds τ) := by
  cases c with
  | atMostOne ls =>
    have hsure : sureCount ls a = trueCount ls τ := h.sureCount_eq hc
    have hpossible : possibleCount ls a = trueCount ls τ := hc.possibleCount_eq.trans hsure
    apply Ternary.tells_of_iff
    · rw [eval_atMostOne_eq_true_iff, hpossible]
      exact Iff.rfl
    · rw [eval_atMostOne_eq_false_iff, hsure, ← Nat.not_le]
      exact Iff.rfl
  | atLeast ls k =>
    have hsure : sureCount ls a = trueCount ls τ := h.sureCount_eq hc
    have hpossible : possibleCount ls a = trueCount ls τ := hc.possibleCount_eq.trans hsure
    apply Ternary.tells_of_iff
    · rw [eval_atLeast_eq_true_iff, hsure]
      exact Iff.rfl
    · rw [eval_atLeast_eq_false_iff, hpossible, ← Nat.not_le]
      exact Iff.rfl

/-- A value that is not open stays when more variables are decided. When all variables are decided
the value is true if the clause, the formula or the constraint holds in the valuation, and false if
it does not. -/
theorem eval_stable_and_boolean (a b : Assignment) :
    (b.Refines a →
      (∀ c : Clause, c.eval a ≠ .dontCare → c.eval b = c.eval a) ∧
      (∀ f : Cnf, f.eval a ≠ .dontCare → f.eval b = f.eval a) ∧
      ∀ c : Cardinality, c.eval a ≠ .dontCare → c.eval b = c.eval a) ∧
    (∀ c : Clause, b.Decides c.lits → (c.eval b).Tells (c.Holds b.reading)) ∧
    (∀ f : Cnf, (∀ c ∈ f.clauses, b.Decides c.lits) → (f.eval b).Tells (f.Holds b.reading)) ∧
    ∀ c : Cardinality, b.Decides c.lits → (c.eval b).Tells (c.Holds b.reading) := by
  have hread := b.completedBy_reading
  refine ⟨fun h => ⟨fun c => Clause.eval_of_refines h, fun f => Cnf.eval_of_refines h,
    fun c => Cardinality.eval_of_refines h⟩, fun c => Clause.eval_tells hread,
    fun f => Cnf.eval_tells hread, fun c => Cardinality.eval_tells hread⟩

/-- The fifth variable is decided beyond the end of the assignment. The first clause was true
before, the second one was open, and the constraint counts a literal twice. -/
theorem eval_stable_and_boolean_longer :
    let a := Assignment.ofValues [.true, .false]
    let b := a.assign ⟨4⟩ .false
    let c : Clause := ⟨[Var.pos ⟨4⟩, Var.neg ⟨1⟩]⟩
    let d : Clause := ⟨[Var.pos ⟨1⟩, Var.pos ⟨4⟩]⟩
    let k := Cardinality.atLeast [Var.pos ⟨0⟩, Var.neg ⟨4⟩, Var.pos ⟨0⟩] 3
    b.Refines a ∧ c.eval a = .true ∧ c.eval b = .true ∧
      (d.eval a = .dontCare ∧ b.Decides d.lits ∧ (d.eval b).Tells (d.Holds b.reading)) ∧
      ((Cnf.eval ⟨[c, d]⟩ b).Tells (Cnf.Holds ⟨[c, d]⟩ b.reading)) ∧
      k.eval a = .dontCare ∧ (k.eval b).Tells (k.Holds b.reading) := by
  intro a b c d k
  have hrefines : b.Refines a := Assignment.refines_assign rfl _
  have hc : c.eval a = .true := rfl
  have hd : b.Decides d.lits := by unfold Assignment.Decides; decide
  obtain ⟨hstable, hclause, hformula, hcount⟩ := eval_stable_and_boolean a b
  refine ⟨hrefines, hc, ?_, ⟨rfl, hd, hclause d hd⟩, hformula ⟨[c, d]⟩ ?_, rfl, hcount k ?_⟩
  · rw [(hstable hrefines).1 c (by rw [hc]; exact nofun), hc]
  · unfold Assignment.Decides
    decide
  · unfold Assignment.Decides
    decide

end Clausal
