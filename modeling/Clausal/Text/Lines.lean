import Clausal.Text.Utf8

/-!
# Lines

A line ends at a line feed or at the end of the input; an input that ends in a line feed has no
empty line after it. A carriage return before the line feed belongs to the line end.
-/

namespace Clausal

/-- A line of bytes without its line feed, and whether it had one. -/
structure RawLine where
  bytes : Bytes
  ended : Bool
deriving DecidableEq

/-- Puts one byte in front of the lines that follow it. -/
def RawLine.cons (b : UInt8) (ls : List RawLine) : List RawLine :=
  if b = 10 then ⟨[], true⟩ :: ls
  else match ls with
    | [] => [⟨[b], false⟩]
    | l :: ls => { l with bytes := b :: l.bytes } :: ls

def rawLines (bs : Bytes) : List RawLine := bs.foldr RawLine.cons []

/-- The bytes of a line with its line feed. -/
def RawLine.whole (l : RawLine) : Bytes := if l.ended then l.bytes ++ [10] else l.bytes

/-- The text of a line with its line end; `none` if it is not UTF-8. -/
def RawLine.fullText (l : RawLine) : Option (List Char) := utf8Decode l.whole

/-- Drops one trailing carriage return. -/
def dropReturn (cs : List Char) : List Char :=
  if cs.getLast? = some '\r' then cs.dropLast else cs

/-- The text of a line without its line end; `none` if it is not UTF-8. -/
def RawLine.text (l : RawLine) : Option (List Char) :=
  (utf8Decode l.bytes).map fun cs => if l.ended then dropReturn cs else cs

@[simp] theorem rawLines_nil : rawLines [] = [] := rfl

@[simp] theorem rawLines_cons (b : UInt8) (bs : Bytes) :
    rawLines (b :: bs) = RawLine.cons b (rawLines bs) := rfl

/-- No byte of the input is lost. -/
theorem flatMap_whole_rawLines (bs : Bytes) : (rawLines bs).flatMap RawLine.whole = bs := by
  induction bs with
  | nil => rfl
  | cons b bs ih =>
    rw [rawLines_cons]
    by_cases hb : b = 10
    · simp [RawLine.cons, hb, RawLine.whole, ih]
    · cases h : rawLines bs with
      | nil =>
        rw [h] at ih
        simp [RawLine.cons, hb, RawLine.whole, ← ih]
      | cons l ls =>
        rw [h] at ih
        cases hl : l.ended <;> simp_all [RawLine.cons, RawLine.whole]

end Clausal
