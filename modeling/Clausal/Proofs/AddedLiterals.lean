import Clausal.Assignment.ValueLine
import Clausal.Proofs.OpenCounts
import Clausal.Proofs.PoolGrowth

/-!
# Literals added to an assignment

An assignment admits literals if none of them is false and no two of them clash. It then has one
result of adding them: they are true in it, all other variables keep their values, and it is as long
as they need. The result depends on the literals as a set only (`Adds.congr`), adding some more goes
on from it (`Adds.trans`), and making the literals true one after the other reaches it
(`Admits.adds_foldl`).
-/

namespace Clausal

theorem reach_congr {ks ls : List Lit} (h : ∀ l, l ∈ ks ↔ l ∈ ls) (n : Nat) :
    reach n ks = reach n ls := by
  apply Nat.le_antisymm
  · exact reach_le_iff.mpr ⟨le_reach n ls, fun l hl => index_lt_reach ((h l).mp hl)⟩
  · exact reach_le_iff.mpr ⟨le_reach n ks, fun l hl => index_lt_reach ((h l).mpr hl)⟩

theorem Lit.negate_ne (l : Lit) : l.negate ≠ l := by
  intro heq
  have hpol := l.isNeg_negate
  rw [heq] at hpol
  cases hn : l.isNeg <;> simp [hn] at hpol

/-- Of two literals over one variable the second is the first or its negation. -/
theorem Lit.eq_or_eq_negate {l m : Lit} (h : l.var = m.var) : l = m ∨ l = m.negate := by
  have hi : l.index = m.index := congrArg Var.index h
  by_cases hn : l.isNeg = m.isNeg
  · exact .inl (ext_index hi hn)
  · refine .inr (ext_index (by rw [hi, index_negate]) ?_)
    rw [isNeg_negate]
    exact Bool.eq_not.mpr hn

/-- No literal stands beside its negation. -/
def Consistent (ls : List Lit) : Prop := ∀ l ∈ ls, l.negate ∉ ls

namespace Assignment

variable {a b c : Assignment} {ks ls : List Lit} {l : Lit}

/-! ## Values of literals -/

theorem litValue_eq_iff : b.litValue l = a.litValue l ↔ b.value l.var = a.value l.var := by
  unfold litValue
  split
  · constructor
    · intro h
      rw [← Ternary.negate_negate (b.value l.var), h, Ternary.negate_negate]
    · exact congrArg Ternary.negate
  · rfl

theorem litValue_eq_true_iff : a.litValue l = .true ↔ a.value l.var = .ofBool l.isPos := by
  unfold litValue
  rw [Lit.isPos_eq]
  cases l.isNeg
  · exact Iff.rfl
  · exact Ternary.negate_eq_true_iff _

theorem ext_value (hsize : a.size = b.size) (h : ∀ v, a.value v = b.value v) : a = b := by
  have hvalues : a.values = b.values := by
    apply Array.ext hsize
    intro i hi hi'
    have hv := h ⟨i⟩
    simpa [value_eq_getD, hi, hi'] using hv
  cases a
  cases b
  exact congrArg Assignment.mk hvalues

theorem litValue_assignLit (a : Assignment) (l : Lit) : (a.assignLit l).litValue l = .true := by
  rw [litValue_eq_true_iff, assignLit, value_assign, if_pos rfl]

theorem value_assignLit_of_ne (a : Assignment) {v : Var} (h : l.var ≠ v) :
    (a.assignLit l).value v = a.value v := by
  rw [assignLit, value_assign, if_neg (Ne.symm h)]

theorem value_of_size_le {v : Var} (h : a.size ≤ v.index) : a.value v = .dontCare := by
  have hnone : a.values[v.index]? = none := Array.getElem?_eq_none h
  rw [value_eq_getD, hnone]
  rfl

theorem index_lt_size (h : a.litValue l ≠ .dontCare) : l.index < a.size := by
  refine Nat.lt_of_not_le fun hle => h ?_
  exact (litValue_eq_dontCare_iff a l).mpr (value_of_size_le hle)

/-! ## Admitted literals -/

/-- No literal is false or clashes with another one. -/
structure Admits (a : Assignment) (ls : List Lit) : Prop where
  not_false : ∀ l ∈ ls, a.litValue l ≠ .false
  consistent : Consistent ls

theorem Admits.congr (h : ∀ l, l ∈ ks ↔ l ∈ ls) : a.Admits ks ↔ a.Admits ls := by
  constructor
  · rintro ⟨hn, hc⟩
    exact ⟨fun l hl => hn l ((h l).mpr hl), fun l hl hneg => hc l ((h l).mpr hl) ((h _).mpr hneg)⟩
  · rintro ⟨hn, hc⟩
    exact ⟨fun l hl => hn l ((h l).mp hl), fun l hl hneg => hc l ((h l).mp hl) ((h _).mp hneg)⟩

theorem admits_nil (a : Assignment) : a.Admits [] := ⟨nofun, nofun⟩

theorem admits_singleton : a.Admits [l] ↔ a.litValue l ≠ .false := by
  constructor
  · exact fun h => h.not_false l (List.mem_singleton_self l)
  · intro h
    refine ⟨List.forall_mem_singleton.mpr h, List.forall_mem_singleton.mpr ?_⟩
    exact fun hmem => l.negate_ne (List.mem_singleton.mp hmem)

theorem admits_empty : empty.Admits ls ↔ Consistent ls := by
  constructor
  · exact Admits.consistent
  · intro h
    refine ⟨fun l _ => ?_, h⟩
    rw [(litValue_eq_dontCare_iff empty l).mpr (value_empty l.var)]
    exact nofun

/-! ## Added literals -/

/-- The second assignment is the first one with the literals added. -/
structure Adds (a : Assignment) (ls : List Lit) (b : Assignment) : Prop where
  admits : a.Admits ls
  holds : ∀ l ∈ ls, b.litValue l = .true
  keeps : ∀ v, (∀ l ∈ ls, l.var ≠ v) → b.value v = a.value v
  size_eq : b.size = reach a.size ls

theorem adds_nil (a : Assignment) : a.Adds [] a := ⟨a.admits_nil, nofun, fun _ _ => rfl, rfl⟩

/-- A variable keeps its value, or it was open and a literal decides it. -/
theorem Adds.value_cases (h : a.Adds ls b) (v : Var) : b.value v = a.value v ∨
    a.value v = .dontCare ∧ ∃ l ∈ ls, l.var = v ∧ b.value v = .ofBool l.isPos := by
  by_cases hv : ∃ l ∈ ls, l.var = v
  · obtain ⟨l, hl, rfl⟩ := hv
    have hb := h.holds l hl
    cases ha : a.litValue l with
    | false => exact absurd ha (h.admits.not_false l hl)
    | true => exact .inl (litValue_eq_iff.mp (hb.trans ha.symm))
    | dontCare =>
      exact .inr ⟨(litValue_eq_dontCare_iff a l).mp ha, l, hl, rfl, litValue_eq_true_iff.mp hb⟩
  · exact .inl (h.keeps v fun l hl heq => hv ⟨l, hl, heq⟩)

theorem Adds.refines (h : a.Adds ls b) : b.Refines a := by
  intro v _ hv
  rcases h.value_cases v with heq | ⟨hopen, -⟩
  · exact heq
  · exact absurd hopen hv

/-- More literals are admitted afterwards if and only if all together were admitted before. -/
theorem Adds.admits_iff (h : a.Adds ks b) : b.Admits ls ↔ a.Admits (ks ++ ls) := by
  constructor
  · rintro ⟨hn, hc⟩
    refine ⟨fun l hl => ?_, fun l hl hneg => ?_⟩
    · rcases List.mem_append.mp hl with hl | hl
      · exact h.admits.not_false l hl
      · intro hfalse
        exact hn l hl ((h.refines.litValue_eq (by simp [hfalse])).trans hfalse)
    · have hclash : ∀ m ∈ ks, m.negate ∉ ls := by
        intro m hm hmneg
        apply hn _ hmneg
        rw [litValue_negate, h.holds m hm]
        rfl
      rcases List.mem_append.mp hl with hl | hl <;> rcases List.mem_append.mp hneg with hneg | hneg
      · exact h.admits.consistent l hl hneg
      · exact hclash l hl hneg
      · exact hclash _ hneg (by rwa [Lit.negate_negate])
      · exact hc l hl hneg
  · rintro ⟨hn, hc⟩
    refine ⟨fun l hl hfalse => ?_, fun l hl hneg =>
      hc l (List.mem_append_right _ hl) (List.mem_append_right _ hneg)⟩
    rcases h.value_cases l.var with heq | ⟨-, m, hm, hvar, -⟩
    · exact hn l (List.mem_append_right _ hl) ((litValue_eq_iff.mpr heq).symm.trans hfalse)
    · rcases Lit.eq_or_eq_negate hvar with rfl | rfl
      · rw [h.holds _ hm] at hfalse
        cases hfalse
      · exact hc l (List.mem_append_right _ hl) (List.mem_append_left _ hm)

theorem Adds.trans (hb : a.Adds ks b) (hc : b.Adds ls c) : a.Adds (ks ++ ls) c where
  admits := hb.admits_iff.mp hc.admits
  holds l hl := by
    rcases List.mem_append.mp hl with hl | hl
    · have htrue := hb.holds l hl
      exact (hc.refines.litValue_eq (by simp [htrue])).trans htrue
    · exact hc.holds l hl
  keeps v hv := by
    obtain ⟨hks, hls⟩ := List.forall_mem_append.mp hv
    exact (hc.keeps v hls).trans (hb.keeps v hks)
  size_eq := by rw [hc.size_eq, hb.size_eq, reach_append]

/-- The literals decide what the result is. -/
theorem Adds.unique (hb : a.Adds ls b) (hc : a.Adds ls c) : b = c := by
  refine ext_value (hb.size_eq.trans hc.size_eq.symm) fun v => ?_
  by_cases hv : ∃ l ∈ ls, l.var = v
  · obtain ⟨l, hl, rfl⟩ := hv
    exact litValue_eq_iff.mp ((hb.holds l hl).trans (hc.holds l hl).symm)
  · have hnot : ∀ l ∈ ls, l.var ≠ v := fun l hl heq => hv ⟨l, hl, heq⟩
    exact (hb.keeps v hnot).trans (hc.keeps v hnot).symm

/-- Neither order nor repetition of the literals matters. -/
theorem Adds.congr (h : ∀ l, l ∈ ks ↔ l ∈ ls) : a.Adds ks b ↔ a.Adds ls b := by
  suffices hone : ∀ {ks ls : List Lit}, (∀ l, l ∈ ks ↔ l ∈ ls) → a.Adds ks b → a.Adds ls b from
    ⟨hone h, hone fun l => (h l).symm⟩
  intro ks ls h hb
  refine ⟨(Admits.congr h).mp hb.admits, fun l hl => hb.holds l ((h l).mpr hl), fun v hv => ?_, ?_⟩
  · exact hb.keeps v fun l hl => hv l ((h l).mp hl)
  · rw [hb.size_eq, reach_congr h]

theorem adds_assignLit (h : a.litValue l ≠ .false) : a.Adds [l] (a.assignLit l) where
  admits := admits_singleton.mpr h
  holds := List.forall_mem_singleton.mpr (a.litValue_assignLit l)
  keeps _ hv := a.value_assignLit_of_ne (hv l (List.mem_singleton_self l))
  size_eq := a.size_assign l.var _

/-- Admitted literals are added by making them true one after the other. -/
theorem Admits.adds_foldl (h : a.Admits ls) : a.Adds ls (ls.foldl assignLit a) := by
  induction ls generalizing a with
  | nil => exact a.adds_nil
  | cons l ls ih =>
    have hl := adds_assignLit (h.not_false l List.mem_cons_self)
    exact hl.trans (ih (hl.admits_iff.mpr h))

/-- What is added in two parts is added at once. -/
theorem Adds.append_iff (h : a.Adds ks b) : a.Adds (ks ++ ls) c ↔ b.Adds ls c := by
  constructor
  · intro hc
    have hb := (h.admits_iff.mpr hc.admits).adds_foldl
    rwa [hc.unique (h.trans hb)]
  · exact h.trans

theorem adds_append_iff : a.Adds (ks ++ ls) c ↔ ∃ b, a.Adds ks b ∧ b.Adds ls c := by
  constructor
  · intro hc
    have hks : a.Admits ks :=
      ⟨fun l hl => hc.admits.not_false l (List.mem_append_left _ hl), fun l hl hneg =>
        hc.admits.consistent l (List.mem_append_left _ hl) (List.mem_append_left _ hneg)⟩
    exact ⟨_, hks.adds_foldl, hks.adds_foldl.append_iff.mp hc⟩
  · rintro ⟨b, hb, hc⟩
    exact hb.trans hc

theorem addLit_eq_ok_iff : a.addLit l = .ok b ↔ a.Adds [l] b := by
  unfold addLit
  cases ha : a.litValue l with
  | true =>
    -- a literal that is true already changes nothing
    have hself : a.Adds [l] a := by
      refine ⟨admits_singleton.mpr (by simp [ha]), List.forall_mem_singleton.mpr ha,
        fun _ _ => rfl, (reach_eq_self (List.forall_mem_singleton.mpr ?_)).symm⟩
      exact index_lt_size (by simp [ha])
    exact ⟨fun h => Except.ok.inj h ▸ hself, fun h => congrArg _ (hself.unique h)⟩
  | dontCare =>
    have hadd : a.Adds [l] (a.assignLit l) := adds_assignLit (by simp [ha])
    exact ⟨fun h => Except.ok.inj h ▸ hadd, fun h => congrArg _ (hadd.unique h)⟩
  | false =>
    exact ⟨nofun, fun h => absurd ha (admits_singleton.mp h.admits)⟩

theorem addLit_eq_error_iff {e : ValueLineError} :
    a.addLit l = .error e ↔ ¬ a.Admits [l] ∧ e = .conflict l.var := by
  rw [admits_singleton]
  unfold addLit
  cases a.litValue l <;> simp [eq_comm]

end Assignment

end Clausal
