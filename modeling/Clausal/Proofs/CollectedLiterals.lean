import Clausal.Proofs.AddedLiterals
import Clausal.Proofs.PackedLiterals
import Clausal.Proofs.ReadModels

/-!
# Assignments and their literals

The literals of an assignment are those that are true in it, by rising index. Going through its
values finds them, provided that every place has a 32-bit index and every decided variable a literal
(`iterate_eq_ok_iff`). Collecting them gives the assignment back up to open values at its end, which
no literal shows. The other way round, an assignment that is collected from any literals has for
each variable the literal that was mentioned last (`lits_ofLits`).
-/

namespace Clausal

/-! ## Last mentions -/

/-- Each literal is over a higher variable than those in front of it. -/
def Rising (ls : List Lit) : Prop := ls.Pairwise fun l m => l.index < m.index

/-- The literal is mentioned, and no literal behind it is over its variable. -/
def LastMention (l : Lit) (ls : List Lit) : Prop :=
  ∃ pre post, ls = pre ++ l :: post ∧ ∀ m ∈ post, m.var ≠ l.var

theorem exists_lastMention {ls : List Lit} {v : Var} (h : ∃ l ∈ ls, l.var = v) :
    ∃ l, LastMention l ls ∧ l.var = v := by
  induction ls with
  | nil => simp at h
  | cons k ls ih =>
    by_cases hls : ∃ l ∈ ls, l.var = v
    · obtain ⟨l, ⟨pre, post, rfl, hpost⟩, hl⟩ := ih hls
      exact ⟨l, ⟨k :: pre, post, rfl, hpost⟩, hl⟩
    · -- no later literal is over the variable, so the first one is its last mention
      obtain ⟨l, hmem, rfl⟩ := h
      rcases List.mem_cons.mp hmem with rfl | hmem
      · exact ⟨l, ⟨[], ls, rfl, fun m hm heq => hls ⟨m, hm, heq⟩⟩, rfl⟩
      · exact absurd ⟨l, hmem, rfl⟩ hls

theorem LastMention.mem {ls : List Lit} {l : Lit} (h : LastMention l ls) : l ∈ ls := by
  obtain ⟨pre, post, rfl, -⟩ := h
  exact List.mem_append_right pre List.mem_cons_self

/-- In rising literals every mention is the last one. -/
theorem Rising.lastMention_iff {ls : List Lit} {l : Lit} (h : Rising ls) :
    LastMention l ls ↔ l ∈ ls := by
  refine ⟨LastMention.mem, fun hl => ?_⟩
  obtain ⟨pre, post, rfl⟩ := List.append_of_mem hl
  refine ⟨pre, post, rfl, fun m hm heq => ?_⟩
  have hlt := (List.pairwise_cons.mp (List.pairwise_append.mp h).2.1).1 m hm
  have hi : m.index = l.index := congrArg Var.index heq
  omega

namespace Assignment

variable {a b : Assignment} {ls : List Lit} {l : Lit} {v : Var} {i : Nat}

/-! ## Literals of an assignment -/

/-- Every decided value is that of a usable variable. Behind the last one there are no literals. -/
def Usable (a : Assignment) : Prop := ∀ v, a.value v ≠ .dontCare → v.index ≤ Var.maxIndex

/-- The literal over an index that a value makes true, if it is decided. -/
def litOf (t : Ternary) (i : Nat) : Option Lit :=
  match t with
  | .true => some (Var.pos ⟨i⟩)
  | .false => some (Var.neg ⟨i⟩)
  | .dontCare => none

/-- The literal over a variable that is true, if the variable is decided. -/
def lit? (a : Assignment) (i : Nat) : Option Lit := litOf (a.value ⟨i⟩) i

theorem zipIdx_values (a : Assignment) :
    a.values.toList.zipIdx = (List.range a.size).map fun i => (a.value ⟨i⟩, i) := by
  refine List.ext_getElem (by simp [size]) fun i hi _ => ?_
  rw [List.length_zipIdx, Array.length_toList] at hi
  simp [value_eq_getD, hi]

theorem lits_eq (a : Assignment) : a.lits = (List.range a.size).filterMap a.lit? := by
  rw [lits, zipIdx_values, List.filterMap_map]
  rfl

/-- The literal with the polarity of a decided value is the one that is true. -/
theorem pack_eq_iff_litValue {n : Bool} (h : i ≤ Var.maxIndex) (hv : a.value ⟨i⟩ = .ofBool !n) :
    Lit.pack (UInt32.ofNat i) n = l ↔ l.index = i ∧ a.litValue l = .true := by
  rw [Lit.pack_eq_iff h, litValue_eq_true_iff, Lit.isPos_eq]
  refine and_congr_right fun hi => ?_
  have hvar : l.var = ⟨i⟩ := congrArg Var.mk hi
  rw [hvar, hv]
  cases n <;> cases l.isNeg <;> decide

theorem lit?_eq_some_iff (h : a.Usable) :
    a.lit? i = some l ↔ l.index = i ∧ a.litValue l = .true := by
  have hle : a.value ⟨i⟩ ≠ .dontCare → i ≤ Var.maxIndex := h ⟨i⟩
  unfold lit? litOf
  split
  · next hv => rw [Option.some.injEq, Var.pos, pack_eq_iff_litValue (hle (by rw [hv]; decide)) hv]
  · next hv => rw [Option.some.injEq, Var.neg, pack_eq_iff_litValue (hle (by rw [hv]; decide)) hv]
  · next hv =>
    -- no literal over an open variable is true
    refine iff_of_false (Option.some_ne_none l).symm ?_
    rintro ⟨rfl, hl⟩
    have hopen := (litValue_eq_dontCare_iff a l).mpr hv
    rw [hl] at hopen
    cases hopen

theorem mem_lits_iff (h : a.Usable) : l ∈ a.lits ↔ a.litValue l = .true := by
  rw [lits_eq, List.mem_filterMap]
  constructor
  · rintro ⟨i, -, hl⟩
    exact ((lit?_eq_some_iff h).mp hl).2
  · intro hl
    have hlt : l.index < a.size := index_lt_size (by rw [hl]; nofun)
    exact ⟨l.index, List.mem_range.mpr hlt, (lit?_eq_some_iff h).mpr ⟨rfl, hl⟩⟩

theorem lits_rising (h : a.Usable) : Rising a.lits := by
  rw [Rising, lits_eq, List.pairwise_filterMap]
  refine List.pairwise_lt_range.imp fun {i j} hij l hl m hm => ?_
  rw [((lit?_eq_some_iff h).mp hl).1, ((lit?_eq_some_iff h).mp hm).1]
  exact hij

/-! ## Iteration -/

theorem litAt_eq_ok_iff {t : Ternary} {l? : Option Lit} : litAt i t = .ok l? ↔
    (i < 4294967296 ∧ (t ≠ .dontCare → i ≤ Var.maxIndex)) ∧ l? = litOf t i := by
  have hnew (n : Bool) : (Lit.new i n).map some = .ok l? ↔
      i ≤ Var.maxIndex ∧ l? = some (Lit.pack (UInt32.ofNat i) n) := by
    unfold Lit.new
    split
    · next hle => simp [Except.map, hle, eq_comm]
    · next hlt => simp [Except.map, hlt]
  unfold litAt
  by_cases hi : i < 4294967296
  · rw [if_pos hi]
    cases t with
    | true =>
      dsimp only
      rw [hnew]
      simp [litOf, hi, Var.pos]
    | false =>
      dsimp only
      rw [hnew]
      simp [litOf, hi, Var.neg]
    | dontCare => simp [litOf, hi, eq_comm]
  · rw [if_neg hi]
    simp [hi]

theorem iterateFrom_eq_ok_iff {ts : List Ternary} : iterateFrom i ts = .ok ls ↔
    (∀ p ∈ ts.zipIdx i, p.2 < 4294967296 ∧ (p.1 ≠ .dontCare → p.2 ≤ Var.maxIndex)) ∧
      ls = (ts.zipIdx i).filterMap fun p => litOf p.1 p.2 := by
  induction ts generalizing i ls with
  | nil => simp [iterateFrom, eq_comm]
  | cons t ts ih =>
    rw [iterateFrom, bind_ok_iff, List.zipIdx_cons, List.forall_mem_cons]
    constructor
    · rintro ⟨l?, hl, h⟩
      obtain ⟨rest, hrest, h⟩ := bind_ok_iff.mp h
      obtain ⟨hplace, rfl⟩ := litAt_eq_ok_iff.mp hl
      obtain ⟨hplaces, rfl⟩ := ih.mp hrest
      injection h with h
      subst h
      refine ⟨⟨hplace, hplaces⟩, ?_⟩
      cases hlit : litOf t i <;> simp [hlit]
    · rintro ⟨⟨hplace, hplaces⟩, rfl⟩
      refine ⟨_, litAt_eq_ok_iff.mpr ⟨hplace, rfl⟩, bind_ok_iff.mpr ⟨_, ih.mpr ⟨hplaces, rfl⟩, ?_⟩⟩
      cases hlit : litOf t i <;> simp [hlit, pure, Except.pure]

/-- Every place has a 32-bit index, and every decided value is that of a usable variable. -/
structure Iterable (a : Assignment) : Prop where
  size_le : a.size ≤ 4294967296
  usable : a.Usable

theorem iterate_eq_ok_iff : a.iterate = .ok ls ↔ a.Iterable ∧ ls = a.lits := by
  have hlits : (a.values.toList.zipIdx.filterMap fun p => litOf p.1 p.2) = a.lits := rfl
  rw [iterate, iterateFrom_eq_ok_iff, hlits, zipIdx_values, List.forall_mem_map]
  simp only [List.mem_range]
  refine and_congr_left fun _ => ⟨fun h => ⟨?_, fun v hv => ?_⟩, fun h i hi => ?_⟩
  · -- a longer assignment has a place with the first index that is too high
    by_contra hlt
    exact Nat.lt_irrefl _ (h 4294967296 (Nat.lt_of_not_le hlt)).1
  · by_cases hlt : v.index < a.size
    · exact (h v.index hlt).2 hv
    · exact absurd (value_of_size_le (Nat.le_of_not_lt hlt)) hv
  · exact ⟨Nat.lt_of_lt_of_le hi h.size_le, h.usable ⟨i⟩⟩

theorem exists_iterate_iff : (∃ ls, a.iterate = .ok ls) ↔ a.Iterable := by
  simp [iterate_eq_ok_iff]

/-! ## Collected literals -/

theorem value_foldl_of_not_mentioned (hv : ∀ l ∈ ls, l.var ≠ v) :
    (ls.foldl assignLit a).value v = a.value v := by
  induction ls generalizing a with
  | nil => rfl
  | cons l ls ih =>
    obtain ⟨hl, hls⟩ := List.forall_mem_cons.mp hv
    rw [List.foldl_cons, ih hls, a.value_assignLit_of_ne hl]

theorem size_foldl (a : Assignment) (ls : List Lit) :
    (ls.foldl assignLit a).size = reach a.size ls := by
  induction ls generalizing a with
  | nil => rfl
  | cons l ls ih =>
    rw [List.foldl_cons, ih, reach_cons, assignLit, size_assign]
    rfl

theorem litValue_of_lastMention (h : LastMention l ls) : (ofLits ls).litValue l = .true := by
  obtain ⟨pre, post, rfl, hpost⟩ := h
  have hkept : (ofLits (pre ++ l :: post)).value l.var =
      ((pre.foldl assignLit empty).assignLit l).value l.var := by
    rw [ofLits, List.foldl_append, List.foldl_cons]
    exact value_foldl_of_not_mentioned hpost
  rw [litValue_eq_iff.mpr hkept]
  exact litValue_assignLit _ l

theorem mentioned_of_value (h : (ofLits ls).value v ≠ .dontCare) : ∃ l ∈ ls, l.var = v := by
  by_contra hno
  refine h ((value_foldl_of_not_mentioned fun l hl heq => hno ⟨l, hl, heq⟩).trans ?_)
  exact value_empty v

/-- A literal is true in the collected assignment if it is the last one over its variable. -/
theorem litValue_ofLits_iff : (ofLits ls).litValue l = .true ↔ LastMention l ls := by
  refine ⟨fun h => ?_, litValue_of_lastMention⟩
  have hdecided : (ofLits ls).value l.var ≠ .dontCare :=
    mt ((ofLits ls).litValue_eq_dontCare_iff l).mpr (by rw [h]; nofun)
  obtain ⟨m, hm, hvar⟩ := exists_lastMention (mentioned_of_value hdecided)
  rcases Lit.eq_or_eq_negate hvar with rfl | rfl
  · exact hm
  · -- the last mention is true, so its negation is not
    have hfalse := litValue_of_lastMention hm
    rw [litValue_negate, h] at hfalse
    cases hfalse

theorem usable_ofLits (ls : List Lit) : (ofLits ls).Usable := by
  intro v hv
  obtain ⟨l, -, rfl⟩ := mentioned_of_value hv
  exact l.index_le

theorem isGreatest_size_ofLits (ls : List Lit) :
    IsGreatest {n | n = 0 ∨ ∃ l ∈ ls, n = l.index + 1} (ofLits ls).size := by
  have hsize : (ofLits ls).size = reach 0 ls := size_foldl empty ls
  rw [hsize]
  refine ⟨reach_cases 0 ls, ?_⟩
  rintro n (rfl | ⟨l, hl, rfl⟩)
  · exact Nat.zero_le _
  · exact index_lt_reach hl

theorem iterable_ofLits (ls : List Lit) : (ofLits ls).Iterable := by
  refine ⟨?_, usable_ofLits ls⟩
  rcases (isGreatest_size_ofLits ls).1 with hzero | ⟨l, -, hlast⟩
  · omega
  · have hle : l.index ≤ 2147483647 := l.index_le
    omega

/-- The highest variable that is covered is that of the literals. -/
theorem maxVar_ofLits (ls : List Lit) : (ofLits ls).maxVar = .ok (Clausal.maxVar? ls) := by
  have hsize : (ofLits ls).size = reach 0 ls := size_foldl empty ls
  have hle : (ofLits ls).size ≤ Var.maxIndex + 1 := by
    rw [hsize]
    exact reach_le_iff.mpr ⟨Nat.zero_le _, fun l _ => Nat.lt_succ_of_le l.index_le⟩
  rw [reach_eq_maxVar] at hsize
  unfold maxVar
  cases hv : Clausal.maxVar? ls with
  | none =>
    rw [hv] at hsize
    exact if_pos (.inl hsize)
  | some v =>
    rw [hv] at hsize
    have hsize : (ofLits ls).size = v.index + 1 := hsize.trans (Nat.zero_max _)
    rw [hsize] at hle ⊢
    have hindex : v.index ≤ Var.maxIndex := Nat.le_of_lt_succ hle
    rw [Var.maxIndex] at hle
    rw [if_neg (by omega), Nat.add_sub_cancel, Var.new, if_pos hindex]
    rfl

/-! ## There and back -/

/-- The last value is decided, if there is one. -/
def EndsDecided (a : Assignment) : Prop := a.values.back? ≠ some .dontCare

theorem endsDecided_iff : a.EndsDecided ↔ ∀ n, a.size = n + 1 → a.value ⟨n⟩ ≠ .dontCare := by
  unfold EndsDecided size
  rw [Array.back?_eq_getElem?]
  constructor
  · intro h n hn hopen
    have hlt : n < a.values.size := by omega
    rw [hn, Nat.add_sub_cancel] at h
    exact h (by simpa [value_eq_getD, hlt] using hopen)
  · intro h hback
    obtain ⟨hlt, -⟩ := Array.getElem?_eq_some_iff.mp hback
    refine h (a.values.size - 1) (by omega) ?_
    rw [value_eq_getD, hback]
    rfl

/-- Without open values at its end an assignment is as short as its values allow. -/
theorem size_le_of_endsDecided (hb : b.EndsDecided) (h : ∀ v, a.value v = b.value v) :
    b.size ≤ a.size := by
  by_contra hlt
  obtain ⟨n, hn⟩ : ∃ n, b.size = n + 1 := ⟨b.size - 1, by omega⟩
  refine endsDecided_iff.mp hb n hn ?_
  rw [← h]
  exact value_of_size_le (show a.size ≤ n by omega)

theorem ext_of_endsDecided (ha : a.EndsDecided) (hb : b.EndsDecided)
    (h : ∀ v, a.value v = b.value v) : a = b :=
  ext_value (Nat.le_antisymm (size_le_of_endsDecided ha fun v => (h v).symm)
    (size_le_of_endsDecided hb h)) h

theorem endsDecided_ofLits (ls : List Lit) : (ofLits ls).EndsDecided := by
  refine endsDecided_iff.mpr fun n hn hopen => ?_
  rcases (isGreatest_size_ofLits ls).1 with hzero | ⟨l, hl, hlast⟩
  · omega
  · -- the highest variable is mentioned, so its last mention decides it
    have hvar : l.var = ⟨n⟩ := congrArg Var.mk (show l.index = n by omega)
    obtain ⟨m, hm, hmvar⟩ := exists_lastMention ⟨l, hl, hvar⟩
    rw [← hmvar, ← litValue_eq_dontCare_iff, litValue_of_lastMention hm] at hopen
    cases hopen

/-- The true literals show all values of usable variables. -/
theorem value_eq_of_true_iff (ha : a.Usable) (hb : b.Usable)
    (h : ∀ l, a.litValue l = .true ↔ b.litValue l = .true) (v : Var) : a.value v = b.value v := by
  by_cases hv : v.index ≤ Var.maxIndex
  · have hval : ∀ n, a.value v = .ofBool !n ↔ b.value v = .ofBool !n := by
      intro n
      obtain ⟨l, hl⟩ := Lit.exists_new hv n
      obtain ⟨hi, rfl⟩ := Lit.new_eq_ok_iff.mp hl
      have hvar : l.var = v := congrArg Var.mk hi
      have htrue := h l
      rwa [litValue_eq_true_iff, litValue_eq_true_iff, Lit.isPos_eq, hvar] at htrue
    have hpos := hval false
    have hneg := hval true
    cases hav : a.value v <;> cases hbv : b.value v <;> simp_all [Ternary.ofBool]
  · rw [not_not.mp (mt (ha v) hv), not_not.mp (mt (hb v) hv)]

theorem value_ofLits_lits (h : a.Usable) (v : Var) : (ofLits a.lits).value v = a.value v := by
  refine value_eq_of_true_iff (usable_ofLits a.lits) h (fun l => ?_) v
  rw [litValue_ofLits_iff, (lits_rising h).lastMention_iff, mem_lits_iff h]

/-- What is missing is open values at the end. -/
theorem cover_ofLits_lits (h : a.Usable) : (ofLits a.lits).cover a.size = a := by
  have hle : (ofLits a.lits).size ≤ a.size :=
    size_le_of_endsDecided (endsDecided_ofLits a.lits) fun v => (value_ofLits_lits h v).symm
  refine ext_value ?_ fun v => ?_
  · rw [size_cover]
    omega
  · rw [value_cover, value_ofLits_lits h]

theorem ofLits_lits_eq_iff (h : a.Usable) : ofLits a.lits = a ↔ a.EndsDecided := by
  constructor
  · intro heq
    rw [← heq]
    exact endsDecided_ofLits a.lits
  · intro ha
    exact ext_of_endsDecided (endsDecided_ofLits a.lits) ha (value_ofLits_lits h)

theorem endsDecided_iff_back : a.EndsDecided ↔
    a.isEmpty = true ∨ ∃ t, a.values.back? = some t ∧ t ≠ .dontCare := by
  unfold EndsDecided isEmpty size
  rw [beq_iff_eq, Array.size_eq_zero_iff, ← Array.back?_eq_none_iff]
  cases a.values.back? <;> simp

/-- Going through an assignment gives its true literals, by rising index, unless it has more places
than there are 32-bit indices or decides a variable that no literal has. Collected again they give
its values, without the open ones at its end: nothing else is lost, and nothing at all if the
assignment is empty or its last value is decided. An assignment that is collected from some literals
gives the last mentions of their variables, by rising index, and its size is one more than the
highest index. -/
theorem lits_ofLits :
    (∀ a : Assignment, ((∃ ls, a.iterate = .ok ls) ↔ a.Iterable) ∧
      ∀ ls, a.iterate = .ok ls → Rising ls ∧ (∀ l, l ∈ ls ↔ a.litValue l = .true) ∧
        (ofLits ls).EndsDecided ∧ (ofLits ls).cover a.size = a ∧
        (∀ v, (ofLits ls).value v = a.value v) ∧
        (ofLits ls = a ↔ a.isEmpty = true ∨ ∃ t, a.values.back? = some t ∧ t ≠ .dontCare)) ∧
    ∀ ls : List Lit, (∃ ms, (ofLits ls).iterate = .ok ms ∧ Rising ms ∧
        ∀ l, l ∈ ms ↔ LastMention l ls) ∧
      IsGreatest {n | n = 0 ∨ ∃ l ∈ ls, n = l.index + 1} (ofLits ls).size := by
  refine ⟨fun a => ⟨exists_iterate_iff, fun ls hls => ?_⟩, fun ls => ⟨?_, ?_⟩⟩
  · obtain ⟨hit, rfl⟩ := iterate_eq_ok_iff.mp hls
    have hu := hit.usable
    refine ⟨lits_rising hu, fun l => mem_lits_iff hu, endsDecided_ofLits a.lits,
      cover_ofLits_lits hu, value_ofLits_lits hu, ?_⟩
    rw [ofLits_lits_eq_iff hu, endsDecided_iff_back]
  · have hu := usable_ofLits ls
    refine ⟨_, iterate_eq_ok_iff.mpr ⟨iterable_ofLits ls, rfl⟩, lits_rising hu, fun l => ?_⟩
    rw [mem_lits_iff hu, litValue_ofLits_iff]
  · exact isGreatest_size_ofLits ls

/-- A gap, an open end, and literals that clash and repeat out of order. -/
theorem lits_ofLits_gap :
    let a : Assignment := ofValues [.true, .dontCare, .false, .dontCare]
    let ms : List Lit := [Var.pos ⟨0⟩, Var.neg ⟨2⟩]
    let ls : List Lit := [Var.neg ⟨3⟩, Var.pos ⟨1⟩, Var.pos ⟨3⟩, Var.neg ⟨1⟩, Var.pos ⟨3⟩]
    a.iterate = .ok ms ∧ a.Iterable ∧ (ofLits ms).cover 4 = a ∧ ofLits ms ≠ a ∧
      (ofLits ls).iterate = .ok [Var.neg ⟨1⟩, Var.pos ⟨3⟩] ∧ LastMention (Var.neg ⟨1⟩) ls ∧
      ¬ LastMention (Var.pos ⟨1⟩) ls := by
  intro a ms ls
  have hms : a.iterate = .ok ms := by decide
  have hls : (ofLits ls).iterate = .ok [Var.neg ⟨1⟩, Var.pos ⟨3⟩] := by decide
  obtain ⟨hit, hthere⟩ := lits_ofLits.1 a
  obtain ⟨-, -, -, hcover, -, heq⟩ := hthere ms hms
  obtain ⟨⟨ks, hks, -, hmem⟩, -⟩ := lits_ofLits.2 ls
  obtain rfl : ks = _ := Except.ok.inj (hks.symm.trans hls)
  refine ⟨hms, hit.mp ⟨ms, hms⟩, hcover, ?_, hls, (hmem _).mp (by decide),
    mt (hmem _).mpr (by decide)⟩
  rw [Ne, heq]
  decide

end Assignment

end Clausal
