/-!
# Blanks

Two classes of separators occur: the four blanks between the tokens of a clause line, and the
characters with the Unicode property White_Space, which separate the tokens of a value line and are
trimmed from header and status lines.
-/

namespace Clausal

/-- Space, tab, carriage return and line feed. -/
def isBlank (c : Char) : Bool := c == ' ' || c == '\t' || c == '\r' || c == '\n'

/-- The characters with the Unicode property White_Space. -/
def isSpace (c : Char) : Bool :=
  let n := c.toNat
  (9 ≤ n && n ≤ 13) || n == 32 || n == 0x85 || n == 0xA0 || n == 0x1680
    || (0x2000 ≤ n && n ≤ 0x200A) || n == 0x2028 || n == 0x2029 || n == 0x202F
    || n == 0x205F || n == 0x3000

def trimStart (cs : List Char) : List Char := cs.dropWhile isSpace

def trimEnd (cs : List Char) : List Char := (cs.reverse.dropWhile isSpace).reverse

/-- The maximal runs of characters outside a class. -/
def runsOutside (p : Char → Bool) (cs : List Char) : List (List Char) :=
  (cs.splitOnP p).filter fun t => !t.isEmpty

/-- The maximal runs of characters that are not white space. -/
def tokens (cs : List Char) : List (List Char) := runsOutside isSpace cs

/-- The maximal runs of characters that are not blank. -/
def words (cs : List Char) : List (List Char) := runsOutside isBlank cs

theorem isSpace_of_isBlank {c : Char} (h : isBlank c) : isSpace c := by
  simp only [isBlank, Bool.or_eq_true, beq_iff_eq] at h
  rcases h with ((rfl | rfl) | rfl) | rfl <;> rfl

end Clausal
