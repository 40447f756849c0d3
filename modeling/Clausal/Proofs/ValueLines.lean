import Clausal.Proofs.AddedLiterals
import Clausal.Proofs.Agreement
import Clausal.Proofs.Numerals

/-!
# What value lines record

An assignment records a list of literals if just these are true and it ends at the highest of their
variables, that is if they were added to nothing. The tokens of a value line up to the first zero
add literals, and do so just if they are literals that are admitted (`addTokens_eq_ok_iff`).
-/

namespace Clausal

namespace Assignment

variable {a b : Assignment} {ks ls : List Lit} {l : Lit} {t : List Char} {ts : List (List Char)}

/-! ## Recorded literals -/

/-- Just the given literals are true, and the assignment is as long as they need. -/
structure Records (a : Assignment) (ls : List Lit) : Prop where
  true_iff : ∀ l, a.litValue l = .true ↔ l ∈ ls
  size_eq : a.size = reach 0 ls

theorem Records.consistent (h : a.Records ls) : Consistent ls := by
  intro l hl hneg
  rw [← h.true_iff] at hl hneg
  rw [litValue_negate, hl] at hneg
  cases hneg

theorem litValue_pos {v : Var} (h : v.index ≤ Var.maxIndex) (a : Assignment) :
    a.litValue v.pos = a.value v := by
  have hn : v.pos.isNeg = false := Lit.isNeg_pack (by rw [Var.toNat_index h]; exact h)
  unfold litValue
  rw [hn, Var.var_pos h]
  rfl

/-- A variable is open if none of the recorded literals is over it. -/
theorem Records.value_eq (h : a.Records ls) {v : Var} (hv : ∀ l ∈ ls, l.var ≠ v) :
    a.value v = .dontCare := by
  have hreach : reach 0 ls ≤ Var.maxIndex + 1 :=
    reach_le_iff.mpr ⟨Nat.zero_le _, fun l _ => Nat.lt_succ_of_le l.index_le⟩
  by_cases hlt : v.index < a.size
  · have hle : v.index ≤ Var.maxIndex := by
      have hsize := h.size_eq
      omega
    have hvar := Var.var_pos hle
    cases hval : a.litValue v.pos with
    | dontCare => rwa [litValue_pos hle] at hval
    | true => exact absurd hvar (hv _ ((h.true_iff _).mp hval))
    | false =>
      have hneg : a.litValue v.pos.negate = .true := by
        rw [litValue_negate, hval]
        rfl
      exact absurd ((Lit.var_negate _).trans hvar) (hv _ ((h.true_iff _).mp hneg))
  · exact value_of_size_le (Nat.le_of_not_lt hlt)

/-- To record literals is to have them added to nothing. -/
theorem records_iff : a.Records ls ↔ empty.Adds ls a := by
  constructor
  · intro h
    exact ⟨admits_empty.mpr h.consistent, fun l hl => (h.true_iff l).mpr hl,
      fun v hv => h.value_eq hv, h.size_eq⟩
  · intro h
    refine ⟨fun l => ⟨fun htrue => ?_, h.holds l⟩, h.size_eq⟩
    rcases h.value_cases l.var with heq | ⟨-, m, hm, hvar, -⟩
    · rw [litValue_eq_iff.mpr heq, (litValue_eq_dontCare_iff empty l).mpr rfl] at htrue
      cases htrue
    · rcases Lit.eq_or_eq_negate hvar with rfl | rfl
      · exact hm
      · have hfalse := h.holds _ hm
        rw [litValue_negate, htrue] at hfalse
        cases hfalse

theorem records_empty : empty.Records [] := records_iff.mpr (adds_nil empty)

/-- Literals have one record. -/
theorem Records.unique (ha : a.Records ls) (hb : b.Records ls) : a = b :=
  (records_iff.mp ha).unique (records_iff.mp hb)

theorem exists_records (h : Consistent ls) : ∃ a : Assignment, a.Records ls :=
  ⟨_, records_iff.mpr (admits_empty.mpr h).adds_foldl⟩

/-- Literals are added if and only if they are recorded behind those before. -/
theorem Records.adds_iff (h : a.Records ks) : a.Adds ls b ↔ b.Records (ks ++ ls) := by
  rw [records_iff, (records_iff.mp h).append_iff]

/-! ## Tokens -/

theorem ValueToken.read_eq_literal_iff :
    ValueToken.read t = .literal l ↔ Decimal.parseInt t = some l.signed := by
  unfold ValueToken.read
  constructor
  · intro h
    split at h
    · cases h
    · next z hz =>
      split at h
      · next m hm =>
        injection h with h
        rw [hz, ← Lit.signed_of_ofInt hm, h]
      · cases h
      · cases h
  · intro h
    rw [h]
    simp only [Lit.ofInt_signed]

theorem ValueToken.read_eq_stop_iff :
    ValueToken.read t = .stop ↔ Decimal.parseInt t = some 0 := by
  unfold ValueToken.read
  constructor
  · intro h
    split at h
    · cases h
    · next z hz =>
      split at h
      · cases h
      · next hm =>
        rw [hz]
        by_contra hne
        rw [Lit.ofInt, if_neg fun h0 => hne (congrArg some h0), Lit.ofIndex] at hm
        split at hm <;> cases hm
      · cases h
  · intro h
    rw [h]
    rfl

/-- The tokens spell the literals, and at most a zero ends them. -/
def Spells (ts : List (List Char)) (ls : List Lit) : Prop :=
  ts.map ValueToken.read = ls.map .literal ∨
    ts.map ValueToken.read = ls.map .literal ++ [.stop]

/-- The tokens in front of the first zero. -/
def beforeZero (ts : List (List Char)) : List (List Char) :=
  ts.takeWhile fun t => Decimal.parseInt t != some 0

/-- The tokens are the numbers of the literals. -/
def Denote (ts : List (List Char)) (ls : List Lit) : Prop :=
  ts.map Decimal.parseInt = ls.map fun l => some l.signed

theorem beforeZero_cons_of_zero (h : Decimal.parseInt t = some 0) (ts : List (List Char)) :
    beforeZero (t :: ts) = [] := by
  have hzero : ¬ (Decimal.parseInt t != some 0) = true := by
    rw [h]
    decide
  exact List.takeWhile_cons_of_neg hzero

theorem beforeZero_cons_of_literal (h : Decimal.parseInt t = some l.signed)
    (ts : List (List Char)) : beforeZero (t :: ts) = t :: beforeZero ts := by
  have hne : (Decimal.parseInt t != some 0) = true := by
    rw [h, bne_iff_ne]
    intro h0
    injection h0 with h0
    exact l.signed_ne_zero h0
  exact List.takeWhile_cons_of_pos hne

theorem Denote.cons (ht : Decimal.parseInt t = some l.signed) (hts : Denote ts ls) :
    Denote (t :: ts) (l :: ls) := by
  unfold Denote at *
  rw [List.map_cons, List.map_cons, ht, hts]

theorem Denote.append {us : List (List Char)} (hts : Denote ts ks) (hus : Denote us ls) :
    Denote (ts ++ us) (ks ++ ls) := by
  unfold Denote at *
  rw [List.map_append, List.map_append, hts, hus]

theorem Denote.of_append {us : List (List Char)} (h : Denote (ts ++ us) ls) :
    ∃ ms ns, ls = ms ++ ns ∧ Denote ts ms ∧ Denote us ns := by
  unfold Denote at *
  rw [List.map_append] at h
  obtain ⟨ms, ns, rfl, hms, hns⟩ := List.map_eq_append_iff.mp h.symm
  exact ⟨ms, ns, rfl, hms.symm, hns.symm⟩

/-- Tokens that spell literals are their numbers up to the first zero. -/
theorem Spells.denote (h : Spells ts ls) : Denote (beforeZero ts) ls := by
  induction ts generalizing ls with
  | nil =>
    rcases h with h | h
    · obtain rfl : ls = [] := List.map_eq_nil_iff.mp h.symm
      rfl
    · exact absurd h.symm (List.append_ne_nil_of_right_ne_nil _ (List.cons_ne_nil _ _))
  | cons t ts ih =>
    cases ls with
    | nil =>
      rcases h with h | h
      · cases h
      · injection h with ht
        rw [beforeZero_cons_of_zero (ValueToken.read_eq_stop_iff.mp ht)]
        rfl
    | cons l ls =>
      have hsplit : ValueToken.read t = .literal l ∧ Spells ts ls := by
        rcases h with h | h
        · injection h with ht hts
          exact ⟨ht, .inl hts⟩
        · injection h with ht hts
          exact ⟨ht, .inr hts⟩
      have hl := ValueToken.read_eq_literal_iff.mp hsplit.1
      rw [beforeZero_cons_of_literal hl]
      exact (ih hsplit.2).cons hl

/-- The tokens in front of the first zero are literals if that zero is the first token, or if the
first token is a literal and so are the others in front of it. -/
theorem denote_beforeZero_cons_iff : Denote (beforeZero (t :: ts)) ls ↔
    Decimal.parseInt t = some 0 ∧ ls = [] ∨
      ∃ l ms, ls = l :: ms ∧ Decimal.parseInt t = some l.signed ∧ Denote (beforeZero ts) ms := by
  constructor
  · intro h
    by_cases hzero : Decimal.parseInt t = some 0
    · rw [beforeZero_cons_of_zero hzero] at h
      exact .inl ⟨hzero, List.map_eq_nil_iff.mp h.symm⟩
    · have hfirst : beforeZero (t :: ts) = t :: beforeZero ts :=
        List.takeWhile_cons_of_pos (bne_iff_ne.mpr hzero)
      rw [hfirst] at h
      cases ls with
      | nil => cases h
      | cons l ms =>
        injection h with ht hts
        exact .inr ⟨l, ms, rfl, ht, hts⟩
  · rintro (⟨hzero, rfl⟩ | ⟨l, ms, rfl, ht, hts⟩)
    · rw [beforeZero_cons_of_zero hzero]
      rfl
    · rw [beforeZero_cons_of_literal ht]
      exact hts.cons ht

/-- The tokens of a value line are applied without a fault if and only if those in front of the
first zero are literals that are admitted, and then these are added. -/
theorem addTokens_eq_ok_iff :
    a.addTokens ts = (b, .ok ()) ↔ ∃ ls, Denote (beforeZero ts) ls ∧ a.Adds ls b := by
  constructor
  · intro hadd
    induction ts generalizing a with
    | nil =>
      injection hadd with hb
      exact ⟨[], rfl, hb ▸ a.adds_nil⟩
    | cons t ts ih =>
      unfold addTokens at hadd
      split at hadd
      · cases hadd
      · next ht =>
        injection hadd with hb
        refine ⟨[], ?_, hb ▸ a.adds_nil⟩
        exact denote_beforeZero_cons_iff.mpr (.inl ⟨ValueToken.read_eq_stop_iff.mp ht, rfl⟩)
      · next l ht =>
        have hl := ValueToken.read_eq_literal_iff.mp ht
        split at hadd
        · next c hc =>
          obtain ⟨ls, hls, hb⟩ := ih hadd
          refine ⟨l :: ls, ?_, (addLit_eq_ok_iff.mp hc).trans hb⟩
          exact denote_beforeZero_cons_iff.mpr (.inr ⟨l, ls, rfl, hl, hls⟩)
        · cases hadd
  · rintro ⟨ls, hls, hb⟩
    induction ts generalizing a ls with
    | nil =>
      obtain rfl : ls = [] := List.map_eq_nil_iff.mp hls.symm
      rw [a.adds_nil.unique hb]
      rfl
    | cons t ts ih =>
      unfold addTokens
      rcases denote_beforeZero_cons_iff.mp hls with ⟨hzero, rfl⟩ | ⟨l, ms, rfl, hl, hms⟩
      · rw [ValueToken.read_eq_stop_iff.mpr hzero, a.adds_nil.unique hb]
      · have hc := adds_assignLit (hb.admits.not_false l List.mem_cons_self)
        rw [ValueToken.read_eq_literal_iff.mpr hl]
        dsimp only
        rw [addLit_eq_ok_iff.mpr hc]
        exact ih ms hms (hc.append_iff.mp hb)

theorem addValueLine_of_tokens {cs : List Char} (hcs : tokens cs = ['v'] :: ts) :
    a.addValueLine cs = a.addTokens ts := by
  unfold addValueLine
  rw [hcs]
  rfl

/-! ## Characters -/

theorem exists_mem_tokens {cs : List Char} {c : Char} (hc : c ∈ cs) (hs : isSpace c = false) :
    ∃ t ∈ tokens cs, c ∈ t := by
  suffices h : ∃ t ∈ cs.splitOnP isSpace, c ∈ t by
    obtain ⟨t, ht, hct⟩ := h
    refine ⟨t, List.mem_filter.mpr ⟨ht, ?_⟩, hct⟩
    simpa using List.ne_nil_of_mem hct
  induction cs with
  | nil => cases hc
  | cons d cs ih =>
    rw [List.splitOnP_cons_eq_if_modifyHead]
    split
    · next hd =>
      rcases List.mem_cons.mp hc with rfl | hc
      · rw [hs] at hd
        cases hd
      · obtain ⟨t, ht, hct⟩ := ih hc
        exact ⟨t, List.mem_cons_of_mem _ ht, hct⟩
    · obtain ⟨u, us, hu⟩ := List.exists_cons_of_ne_nil (List.splitOnP_ne_nil isSpace cs)
      rw [hu, List.modifyHead_cons]
      rcases List.mem_cons.mp hc with rfl | hc
      · exact ⟨_, List.mem_cons_self, List.mem_cons_self⟩
      · obtain ⟨t, ht, hct⟩ := ih hc
        rw [hu] at ht
        rcases List.mem_cons.mp ht with rfl | ht
        · exact ⟨_, List.mem_cons_self, List.mem_cons_of_mem _ hct⟩
        · exact ⟨t, List.mem_cons_of_mem _ ht, hct⟩

/-- A number is written with digits and a sign. -/
theorem mem_of_parseInt {cs : List Char} {z : Int} (h : Decimal.parseInt cs = some z) {c : Char}
    (hc : c ∈ cs) : c.isDigit = true ∨ c = '-' ∨ c = '+' := by
  obtain ⟨hn, -⟩ := Decimal.parseInt_eq_some_iff.mp h
  cases hn with
  | unsigned hd => exact .inl (hd.isDigit c hc)
  | plus hd =>
    rcases List.mem_cons.mp hc with rfl | hc
    · exact .inr (.inr rfl)
    · exact .inl (hd.isDigit c hc)
  | minus hd =>
    rcases List.mem_cons.mp hc with rfl | hc
    · exact .inr (.inl rfl)
    · exact .inl (hd.isDigit c hc)

theorem ValueToken.exists_parseInt {t : List Char} (h : ValueToken.read t ≠ .junk) :
    ∃ z, Decimal.parseInt t = some z := by
  unfold ValueToken.read at h
  split at h
  · exact absurd rfl h
  · next z hz => exact ⟨z, hz⟩

theorem Spells.not_junk {ts : List (List Char)} (h : Spells ts ls) :
    ∀ t ∈ ts, ValueToken.read t ≠ .junk := by
  intro t ht hjunk
  have hmem : .junk ∈ ts.map ValueToken.read := List.mem_map.mpr ⟨t, ht, hjunk⟩
  rcases h with h | h
  · rw [h] at hmem
    simp at hmem
  · rw [h] at hmem
    simp at hmem

/-- Apart from white space a value line holds its tag, digits and signs. -/
theorem mem_of_spells {cs : List Char} {ts : List (List Char)} (hcs : tokens cs = ['v'] :: ts)
    (hts : Spells ts ls) {c : Char} (hc : c ∈ cs) (hs : isSpace c = false) :
    c = 'v' ∨ c.isDigit = true ∨ c = '-' ∨ c = '+' := by
  obtain ⟨t, ht, hct⟩ := exists_mem_tokens hc hs
  rw [hcs] at ht
  rcases List.mem_cons.mp ht with rfl | ht
  · exact .inl (List.mem_singleton.mp hct)
  · obtain ⟨z, hz⟩ := ValueToken.exists_parseInt (hts.not_junk t ht)
    exact .inr (mem_of_parseInt hz hct)

end Assignment

end Clausal
