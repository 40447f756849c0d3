import Clausal.Lit
import Mathlib.Data.List.TakeWhile

/-!
# Texts of numbers

A count is written with decimal digits, an integer with at most one sign in front of them; zeros in
front are allowed. The readers accept just these texts, as far as the number fits the range that
they allow (`parseCount_eq_some_iff`, `parseInt_eq_some_iff`).
-/

namespace Clausal

namespace Decimal

variable {cs ds : List Char} {z : Int} {n : Nat}

/-- Decimal digits, at least one. -/
structure IsDigits (ds : List Char) : Prop where
  ne_nil : ds ≠ []
  isDigit : ∀ c ∈ ds, c.isDigit = true

/-- The texts of an integer. -/
inductive Numeral : List Char → Int → Prop
  | unsigned {ds : List Char} (h : IsDigits ds) : Numeral ds (value ds)
  | plus {ds : List Char} (h : IsDigits ds) : Numeral ('+' :: ds) (value ds)
  | minus {ds : List Char} (h : IsDigits ds) : Numeral ('-' :: ds) (-value ds)

theorem readNat_eq_some_nil_iff : readNat cs = some (n, []) ↔ IsDigits cs ∧ value cs = n := by
  unfold readNat
  constructor
  · intro h
    split at h
    · cases h
    · next hne =>
      injection h with h
      injection h with hn hrest
      have hd : ∀ c ∈ cs, c.isDigit = true := List.dropWhile_eq_nil_iff.mp hrest
      rw [List.takeWhile_eq_self_iff.mpr hd] at hn hne
      exact ⟨⟨hne, hd⟩, hn⟩
  · rintro ⟨⟨hne, hd⟩, rfl⟩
    rw [List.takeWhile_eq_self_iff.mpr hd, List.dropWhile_eq_nil_iff.mpr hd]
    split
    · exact absurd rfl hne
    · rfl

theorem parseCount_eq_some_iff :
    parseCount cs = some n ↔ IsDigits cs ∧ value cs = n ∧ n ≤ maxNat := by
  rw [← and_assoc, ← readNat_eq_some_nil_iff]
  unfold parseCount readCount
  constructor
  · intro h
    split at h
    · next m hm =>
      injection h with h
      subst h
      split at hm
      · next k rest hk =>
        simp only [Option.ite_none_right_eq_some, Option.some.injEq, Prod.mk.injEq] at hm
        obtain ⟨hle, rfl, rfl⟩ := hm
        exact ⟨hk, hle⟩
      · cases hm
    · cases h
  · rintro ⟨h, hle⟩
    simp only [h, if_pos hle]

/-- A sign is taken off, and digits are left. -/
theorem numeral_iff : Numeral cs z ↔
    IsDigits (splitSign cs).2 ∧
      z = if (splitSign cs).1 then -(value (splitSign cs).2 : Int) else value (splitSign cs).2 := by
  constructor
  · intro h
    cases h with
    | unsigned h =>
      rw [splitSign_of_isDigit h.isDigit]
      exact ⟨h, rfl⟩
    | plus h => exact ⟨h, rfl⟩
    | minus h => exact ⟨h, rfl⟩
  · unfold splitSign
    rintro ⟨h, rfl⟩
    split at h
    · exact .minus h
    · exact .plus h
    · exact .unsigned h

theorem parseInt_eq_some_iff : parseInt cs = some z ↔ Numeral cs z ∧ fitsInt z = true := by
  rw [numeral_iff]
  unfold parseInt readInt
  constructor
  · intro h
    split at h
    · next y hy =>
      injection h with h
      subst h
      split at hy
      · cases hy
      · next k rest hk =>
        simp only [Option.ite_none_right_eq_some, Option.some.injEq, Prod.mk.injEq] at hy
        obtain ⟨hfits, rfl, rfl⟩ := hy
        obtain ⟨hd, rfl⟩ := readNat_eq_some_nil_iff.mp hk
        exact ⟨⟨hd, rfl⟩, hfits⟩
    · cases h
  · rintro ⟨⟨hd, rfl⟩, hfits⟩
    simp only [readNat_eq_some_nil_iff.mpr ⟨hd, rfl⟩, if_pos hfits]

end Decimal

/-! ## Numbers of literals -/

theorem Lit.signed_ne_zero (l : Lit) : l.signed ≠ 0 := by
  unfold signed
  split <;> omega

theorem Lit.signed_of_ofInt {z : Int} {l : Lit} (h : Lit.ofInt z = .ok l) : l.signed = z := by
  unfold ofInt at h
  by_cases hz : z = 0
  · rw [if_pos hz] at h
    cases h
  rw [if_neg hz, ofIndex] at h
  by_cases hle : z.natAbs - 1 ≤ Var.maxIndex
  · rw [if_pos hle] at h
    injection h with h
    have hi : (UInt32.ofNat (z.natAbs - 1)).toNat = z.natAbs - 1 := by
      rw [Var.maxIndex] at hle
      simp
      omega
    have hindex : l.index = z.natAbs - 1 := by
      rw [← h, index_pack (by rw [hi]; exact hle), hi]
    have hneg : l.isNeg = decide (z < 0) := by
      rw [← h, isNeg_pack (by rw [hi]; exact hle)]
    unfold signed
    rw [hindex, hneg]
    by_cases hlt : z < 0
    · simp only [hlt, decide_true, if_true]
      omega
    · simp only [hlt, decide_false, Bool.false_eq_true, if_false]
      omega
  · rw [if_neg hle] at h
    cases h

/-- Every number of 32 bits other than zero is that of a literal. -/
theorem Lit.exists_signed {z : Int} (h0 : z ≠ 0) (hfits : Decimal.fitsInt z = true) :
    ∃ l : Lit, l.signed = z := by
  unfold Decimal.fitsInt at hfits
  simp only [Bool.and_eq_true, decide_eq_true_eq] at hfits
  have hindex : z.natAbs - 1 ≤ Var.maxIndex := by
    rw [Var.maxIndex]
    omega
  have ho : ofInt z = .ok (pack (UInt32.ofNat (z.natAbs - 1)) (z < 0)) := by
    rw [ofInt, if_neg h0, ofIndex, if_pos hindex]
  exact ⟨_, signed_of_ofInt ho⟩

theorem Lit.ofInt_signed (l : Lit) : ofInt l.signed = .ok l := by
  have habs : l.signed.natAbs = l.index + 1 := by
    unfold signed
    split <;> omega
  have hneg : decide (l.signed < 0) = l.isNeg := by
    unfold signed
    split
    · next h => exact (decide_eq_true (by omega)).trans h.symm
    · next h => exact (decide_eq_false (by omega)).trans (Bool.eq_false_iff.mpr h).symm
  rw [ofInt, if_neg l.signed_ne_zero, habs, hneg, Nat.add_sub_cancel, ofIndex, if_pos l.index_le,
    pack_index]

end Clausal
