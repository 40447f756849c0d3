import Clausal.Proofs.ReadLimits

/-!
# Packed literals

A literal is one word: twice the index plus one for a negated literal, without a carry out of the 32
bits. So words and pairs of a usable index and a polarity are in one-to-one correspondence, the
order of the words is that of the pairs, and the signed 32-bit numbers other than zero stand for
literals, one for each but the positive literal over the highest variable (`packing_exact`).
-/

namespace Clausal.Lit

variable {l m : Lit} {i : Nat} {n : Bool}

/-! ## Words -/

/-- The word is the double of the index plus the polarity. -/
theorem code_eq (l : Lit) : l.code.toNat = 2 * l.index + l.isNeg.toNat := by
  rw [index_eq, isNeg_eq]
  rcases Nat.mod_two_eq_zero_or_one l.code.toNat with h | h
  · simp only [h, Nat.zero_ne_one, decide_false, Bool.toNat_false]
    omega
  · simp only [h, decide_true, Bool.toNat_true]
    omega

/-- Packing gives the one literal with the index and the polarity. -/
theorem new_eq_ok_iff : new i n = .ok l ↔ l.index = i ∧ l.isNeg = n := by
  constructor
  · intro h
    unfold new at h
    split at h
    · next hi =>
      have hword : (UInt32.ofNat i).toNat = i := by
        rw [Var.maxIndex] at hi
        simp
        omega
      injection h with h
      rw [← h]
      exact ⟨(index_pack (by omega)).trans hword, isNeg_pack (by omega)⟩
    · cases h
  · rintro ⟨rfl, rfl⟩
    rw [new, if_pos l.index_le, pack_index]

theorem exists_new (h : i ≤ Var.maxIndex) (n : Bool) : ∃ l, new i n = .ok l :=
  ⟨_, if_pos h⟩

theorem pack_eq_iff (h : i ≤ Var.maxIndex) :
    pack (UInt32.ofNat i) n = l ↔ l.index = i ∧ l.isNeg = n := by
  rw [← new_eq_ok_iff, new, if_pos h, Except.ok.injEq]

/-- The order of the words goes by the index and then by the polarity. -/
theorem le_iff : l.le m = true ↔
    l.index < m.index ∨ l.index = m.index ∧ (l.isNeg = true → m.isNeg = true) := by
  rw [le, decide_eq_true_eq, UInt32.le_iff_toNat_le, code_eq, code_eq]
  cases l.isNeg <;> cases m.isNeg <;> simp <;> omega

/-! ## Numbers -/

theorem fitsInt_toInt (z : Int32) : Decimal.fitsInt z.toInt = true := by
  have hlow := z.le_toInt
  have hhigh := z.toInt_lt
  simp only [Decimal.fitsInt, Bool.and_eq_true, decide_eq_true_eq]
  omega

/-- A number of 32 bits is that of a literal unless it is zero. -/
theorem exists_ofInt_iff (z : Int32) : (∃ l, ofInt z.toInt = .ok l) ↔ z ≠ 0 := by
  constructor
  · rintro ⟨l, hl⟩ rfl
    cases hl
  · intro hz
    have hne : z.toInt ≠ 0 := fun h => hz (Int32.toInt_inj.mp h)
    obtain ⟨l, hl⟩ := exists_signed hne (fitsInt_toInt z)
    exact ⟨l, hl ▸ ofInt_signed l⟩

theorem toInt_eq_error_iff : l.toInt = .error .noFileNumber ↔ l.index = Var.maxIndex := by
  have hle := l.index_le
  unfold toInt
  split
  · simp only [reduceCtorEq, false_iff]
    omega
  · simp only [true_iff]
    omega

/-- The number of a literal below the highest variable has 32 bits. -/
theorem exists_toInt_eq (h : l.index < Var.maxIndex) :
    ∃ z : Int32, l.toInt = .ok z.toInt ∧ ofInt z.toInt = .ok l := by
  have hz : (Int32.ofInt l.signed).toInt = l.signed := by
    rw [Var.maxIndex] at h
    refine Int32.toInt_ofInt_of_le ?_ ?_ <;> unfold signed <;> split <;> omega
  refine ⟨.ofInt l.signed, ?_, ?_⟩
  · rw [hz]
    exact if_pos h
  · rw [hz]
    exact ofInt_signed l

/-- Only the literal of the least number has no number itself. -/
theorem toInt_of_ofInt {z : Int32} (hz : z ≠ Int32.minValue) (h : ofInt z.toInt = .ok l) :
    l.toInt = .ok z.toInt := by
  have hsigned := signed_of_ofInt h
  have hfits := fitsInt_toInt z
  rw [← hsigned] at hfits ⊢
  refine if_pos ((index_lt_iff hfits).mpr ?_)
  rintro rfl
  exact hz (Int32.toInt_inj.mp hsigned.symm)

/-! ## The packing -/

/-- A usable index and a polarity are packed into the word `2 * index + polarity`, from which both
are read back; each word is that of just one pair. Negation keeps the variable, flips the polarity
and undoes itself. Literals are ordered by index, the positive one first. A 32-bit number is that of
a literal unless it is zero, a literal has a number unless it is over the highest variable, and
wherever both hold, literals and numbers are translated back and forth without loss. -/
theorem packing_exact :
    (∀ i, i ≤ Var.maxIndex → ∀ n, ∃ l, new i n = .ok l ∧ l.code.toNat = 2 * i + n.toNat ∧
      l.var = ⟨i⟩ ∧ l.isNeg = n) ∧
    (∀ w : UInt32, ∃! p : Nat × Bool, new p.1 p.2 = .ok ⟨w⟩) ∧
    (∀ l : Lit, l.negate.negate = l ∧ l.negate.var = l.var ∧ l.negate.isNeg = !l.isNeg) ∧
    (∀ l m : Lit, l.le m = true ↔
      l.index < m.index ∨ l.index = m.index ∧ (l.isNeg = true → m.isNeg = true)) ∧
    (∀ z : Int32, (∃ l, ofInt z.toInt = .ok l) ↔ z ≠ 0) ∧
    (∀ l : Lit, l.toInt = .error .noFileNumber ↔ l.index = Var.maxIndex) ∧
    (∀ l : Lit, l.index < Var.maxIndex →
      ∃ z : Int32, l.toInt = .ok z.toInt ∧ ofInt z.toInt = .ok l) ∧
    ∀ z : Int32, z ≠ 0 → z ≠ Int32.minValue →
      ∃ l, ofInt z.toInt = .ok l ∧ l.toInt = .ok z.toInt := by
  refine ⟨fun i hi n => ?_, fun w => ?_, fun l => ?_, fun l m => le_iff, exists_ofInt_iff,
    fun l => toInt_eq_error_iff, fun l => exists_toInt_eq, fun z hz hmin => ?_⟩
  · obtain ⟨l, hl⟩ := exists_new hi n
    obtain ⟨rfl, rfl⟩ := new_eq_ok_iff.mp hl
    exact ⟨l, hl, l.code_eq, rfl, rfl⟩
  · refine ⟨(index ⟨w⟩, isNeg ⟨w⟩), new_eq_ok_iff.mpr ⟨rfl, rfl⟩, ?_⟩
    rintro ⟨i, n⟩ hp
    obtain ⟨hi, hn⟩ := new_eq_ok_iff.mp hp
    exact Prod.ext hi.symm hn.symm
  · exact ⟨l.negate_negate, congrArg Var.mk l.index_negate, l.isNeg_negate⟩
  · obtain ⟨l, hl⟩ := (exists_ofInt_iff z).mpr hz
    exact ⟨l, hl, toInt_of_ofInt hmin hl⟩

/-- The negated literal over the highest variable is the last word, is read from the least number
and has no number; the one below it has the number above. -/
theorem packing_exact_highest :
    (∃ l, new 2147483647 true = .ok l ∧ l.code.toNat = 4294967295 ∧
      l.toInt = .error .noFileNumber ∧ ofInt (Int32.minValue.toInt) = .ok l) ∧
    ∃ l, ofInt (-2147483647) = .ok l ∧ l.toInt = .ok (-2147483647) := by
  obtain ⟨hpack, -, -, -, -, hnumber, -, hback⟩ := packing_exact
  obtain ⟨l, hl, hcode, -, -⟩ := hpack 2147483647 (by decide) true
  obtain ⟨hindex, hneg⟩ := new_eq_ok_iff.mp hl
  have hleast : l = least := ext_index (hindex.trans (by decide)) (hneg.trans (by decide))
  refine ⟨⟨l, hl, hcode, (hnumber l).mpr hindex, ?_⟩, ?_⟩
  · rw [hleast]
    decide
  · exact hback (-2147483647) (by decide) (by decide)

end Clausal.Lit
