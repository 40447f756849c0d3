import Clausal.Var

/-!
# Literals

A literal is a variable with a polarity, packed into one 32-bit word: the index doubled, plus one if
the literal is negated. Every word is a literal, and the order of the words is the order of the
literals: by index, the positive one first.
-/

namespace Clausal

structure Lit where
  code : UInt32
deriving DecidableEq, Hashable

namespace Lit

/-- The literal over an index with a polarity. The index must be usable. -/
def pack (index : UInt32) (negated : Bool) : Lit :=
  ⟨(index <<< 1) + (if negated then 1 else 0)⟩

def index (l : Lit) : Nat := (l.code >>> 1).toNat

def var (l : Lit) : Var := ⟨l.index⟩

def isNeg (l : Lit) : Bool := l.code &&& 1 == 1

/-- Whether the literal is the variable itself. -/
def isPos (l : Lit) : Bool := l.code &&& 1 == 0

def negate (l : Lit) : Lit := ⟨l.code ^^^ 1⟩

/-- The order of literals: by index, the positive one first. -/
def le (l m : Lit) : Bool := l.code ≤ m.code

/-- The literal with an index that the caller promises to be usable. -/
def new (index : Nat) (negated : Bool) : Except Violation Lit :=
  if index ≤ Var.maxIndex then .ok (pack (UInt32.ofNat index) negated) else .error .indexTooHigh

/-- The literal with a given index, if that is usable. -/
def ofIndex (index : Nat) (negated : Bool) : Except IndexError Lit :=
  if index ≤ Var.maxIndex then .ok (pack (UInt32.ofNat index) negated) else .error (.tooHigh index)

/-- The literal that a number in a file stands for. -/
def ofInt (z : Int) : Except IndexError Lit :=
  if z = 0 then .error .zeroLiteral else ofIndex (z.natAbs - 1) (z < 0)

/-- The index plus one, negative for a negated literal. -/
def signed (l : Lit) : Int := if l.isNeg then -(l.index + 1 : Nat) else (l.index + 1 : Nat)

/-- The number that stands for the literal in a file. -/
def toInt (l : Lit) : Except Violation Int :=
  if l.index < Var.maxIndex then .ok l.signed else .error .noFileNumber

def text (l : Lit) : List Char := if l.isNeg then '~' :: l.var.text else l.var.text

/-! ## The packing in numbers -/

theorem index_eq (l : Lit) : l.index = l.code.toNat / 2 := by
  simp [index, UInt32.toNat_shiftRight, Nat.shiftRight_succ]

theorem isNeg_eq (l : Lit) : l.isNeg = decide (l.code.toNat % 2 = 1) := by
  rw [isNeg, Bool.eq_iff_iff]
  simp [← UInt32.toNat_inj, Nat.and_one_is_mod]

theorem isPos_eq (l : Lit) : l.isPos = !l.isNeg := by
  rw [isNeg_eq, isPos, Bool.eq_iff_iff]
  simp [← UInt32.toNat_inj, Nat.and_one_is_mod]

/-- Flipping the last bit changes the parity. -/
theorem xor_one_mod_two (n : Nat) : (n ^^^ 1) % 2 = 1 - n % 2 := by
  have h := Nat.testBit_xor n 1 0
  simp only [Nat.testBit_zero, Nat.mod_succ, decide_true, Bool.xor_true] at h
  rcases Nat.mod_two_eq_zero_or_one n with hn | hn <;>
    rcases Nat.mod_two_eq_zero_or_one (n ^^^ 1) with hx | hx <;> simp_all

theorem code_negate (l : Lit) : l.negate.code.toNat =
    if l.isNeg then l.code.toNat - 1 else l.code.toNat + 1 := by
  have hd := Nat.xor_div_two (a := l.code.toNat) (b := 1)
  have hm := xor_one_mod_two l.code.toNat
  rw [isNeg_eq, negate, UInt32.toNat_xor]
  simp only [UInt32.toNat_one, Nat.reduceDiv, Nat.xor_zero, decide_eq_true_eq] at hd ⊢
  split <;> omega

theorem code_pack {i : UInt32} {n : Bool} (h : i.toNat ≤ Var.maxIndex) :
    (pack i n).code.toNat = 2 * i.toNat + n.toNat := by
  rw [Var.maxIndex] at h
  rw [pack, UInt32.toNat_add, UInt32.toNat_shiftLeft]
  cases n <;> simp [Nat.shiftLeft_eq] <;> omega

@[simp] theorem index_pack {i : UInt32} {n : Bool} (h : i.toNat ≤ Var.maxIndex) :
    (pack i n).index = i.toNat := by
  rw [index_eq, code_pack h]
  cases n <;> simp
  omega

@[simp] theorem isNeg_pack {i : UInt32} {n : Bool} (h : i.toNat ≤ Var.maxIndex) :
    (pack i n).isNeg = n := by
  rw [isNeg_eq, code_pack h]
  cases n <;> simp

@[simp] theorem index_negate (l : Lit) : l.negate.index = l.index := by
  have h := isNeg_eq l
  rw [index_eq, index_eq, code_negate]
  split <;> simp_all <;> omega

@[simp] theorem isNeg_negate (l : Lit) : l.negate.isNeg = !l.isNeg := by
  have h := xor_one_mod_two l.code.toNat
  rw [isNeg_eq, isNeg_eq, negate, UInt32.toNat_xor, UInt32.toNat_one, h]
  rcases Nat.mod_two_eq_zero_or_one l.code.toNat with hn | hn <;> simp [hn]

theorem index_le (l : Lit) : l.index ≤ Var.maxIndex := by
  have h := l.code.toNat_lt
  rw [index_eq, Var.maxIndex]
  omega

/-- A literal is fixed by its index and its polarity. -/
theorem ext_index {l m : Lit} (hi : l.index = m.index) (hn : l.isNeg = m.isNeg) : l = m := by
  have h : l.code.toNat = m.code.toNat := by
    rw [index_eq, index_eq] at hi
    rw [isNeg_eq, isNeg_eq, decide_eq_decide] at hn
    omega
  cases l; cases m
  simpa [UInt32.toNat_inj] using h

@[simp] theorem negate_negate (l : Lit) : l.negate.negate = l :=
  ext_index (by simp) (by simp)

/-- Every word is the packing of its index and its polarity. -/
theorem pack_index (l : Lit) : pack (UInt32.ofNat l.index) l.isNeg = l := by
  have h := l.index_le
  have hi : (UInt32.ofNat l.index).toNat = l.index := by
    rw [Var.maxIndex] at h
    simp; omega
  exact ext_index (by rw [index_pack (by omega), hi]) (isNeg_pack (by omega))

end Lit

def Var.pos (v : Var) : Lit := Lit.pack (UInt32.ofNat v.index) false

def Var.neg (v : Var) : Lit := Lit.pack (UInt32.ofNat v.index) true

/-- The highest variable of a list of literals. -/
def maxVar? (lits : List Lit) : Option Var :=
  match lits with
  | [] => none
  | l :: ls => some (ls.foldl (fun v m => v.max m.var) l.var)

end Clausal
