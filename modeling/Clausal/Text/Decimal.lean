/-!
# Decimal numbers

Numbers are written with the fewest digits. Reading takes the longest run of digits and then checks
the range that the place in the text allows.
-/

namespace Clausal.Decimal

/-- The decimal digits of a number. -/
def write (n : Nat) : List Char := Nat.toDigits 10 n

/-- An integer, with a sign only if it is negative. -/
def writeInt : Int → List Char
  | .ofNat n => write n
  | .negSucc n => '-' :: write (n + 1)

/-- The number that a list of digits denotes. -/
def value (digits : List Char) : Nat := Nat.ofDigitChars 10 digits 0

/-- The longest run of digits at the start of a text, and the rest. No digit is no number. -/
def readNat (cs : List Char) : Option (Nat × List Char) :=
  match cs.takeWhile Char.isDigit with
  | [] => none
  | ds => some (value ds, cs.dropWhile Char.isDigit)

/-- The largest unsigned number that is read. -/
def maxNat : Nat := 18446744073709551615

/-- A number of at most 64 bits at the start of a text, and the rest. -/
def readCount (cs : List Char) : Option (Nat × List Char) :=
  match readNat cs with
  | some (n, rest) => if n ≤ maxNat then some (n, rest) else none
  | none => none

/-- A text that is one number of at most 64 bits and nothing else. -/
def parseCount (cs : List Char) : Option Nat :=
  match readCount cs with
  | some (n, []) => some n
  | _ => none

/-- Whether an integer fits 32 signed bits. -/
def fitsInt (z : Int) : Bool := -2147483648 ≤ z && z ≤ 2147483647

/-- Takes a sign off the front of a text; says whether it was a minus. -/
def splitSign : List Char → Bool × List Char
  | '-' :: rest => (true, rest)
  | '+' :: rest => (false, rest)
  | cs => (false, cs)

/-- A signed integer of at most 32 bits at the start of a text, and the rest. Either sign may be
written. -/
def readInt (cs : List Char) : Option (Int × List Char) :=
  match readNat (splitSign cs).2 with
  | none => none
  | some (n, rest) =>
    let z : Int := if (splitSign cs).1 then -n else n
    if fitsInt z then some (z, rest) else none

/-- A text that is one signed integer of at most 32 bits and nothing else. -/
def parseInt (cs : List Char) : Option Int :=
  match readInt cs with
  | some (z, []) => some z
  | _ => none

theorem value_write (n : Nat) : value (write n) = n :=
  Nat.ofDigitChars_toDigits (by decide) (by decide)

theorem isDigit_of_mem_write {n : Nat} {c : Char} (h : c ∈ write n) : c.isDigit :=
  Nat.isDigit_of_mem_toDigits (by decide) (by decide) h

theorem write_ne_nil (n : Nat) : write n ≠ [] := Nat.toDigits_ne_nil

/-- The digits of a number are read up to the first character that is none. -/
theorem readNat_write_append (n : Nat) {rest : List Char}
    (h : ∀ c ∈ rest.head?, c.isDigit = false) : readNat (write n ++ rest) = some (n, rest) := by
  have hd : ∀ c ∈ write n, c.isDigit = true := fun c hc => isDigit_of_mem_write hc
  have ht : rest.takeWhile Char.isDigit = [] := by
    cases rest with
    | nil => rfl
    | cons c cs => simp [h c rfl]
  have hr : rest.dropWhile Char.isDigit = rest := by
    cases rest with
    | nil => rfl
    | cons c cs => simp [h c rfl]
  rw [readNat, List.takeWhile_append_of_pos hd, List.dropWhile_append_of_pos hd, ht, hr,
    List.append_nil]
  split
  · next hn => exact absurd hn (write_ne_nil n)
  · rw [value_write]

theorem readNat_write (n : Nat) : readNat (write n) = some (n, []) := by
  have h := @readNat_write_append n [] (by simp)
  rwa [List.append_nil] at h

theorem parseCount_write {n : Nat} (hn : n ≤ maxNat) : parseCount (write n) = some n := by
  simp [parseCount, readCount, readNat_write, hn]

theorem splitSign_of_isDigit {cs : List Char} (h : ∀ c ∈ cs, c.isDigit) :
    splitSign cs = (false, cs) := by
  unfold splitSign
  split
  · exact absurd (h '-' (by simp)) (by decide)
  · exact absurd (h '+' (by simp)) (by decide)
  · rfl

theorem parseInt_writeInt {z : Int} (hz : fitsInt z) : parseInt (writeInt z) = some z := by
  cases z with
  | ofNat n =>
    have hd : ∀ c ∈ write n, c.isDigit := fun c hc => isDigit_of_mem_write hc
    simp_all [parseInt, readInt, writeInt, splitSign_of_isDigit hd, readNat_write]
  | negSucc n =>
    have hi : (-(n + 1 : Int)) = Int.negSucc n := rfl
    simp [parseInt, readInt, writeInt, splitSign, readNat_write, hi, hz]

end Clausal.Decimal
