/-!
# Ternary values

The value of a variable or of a constraint under an assignment that may leave variables open.
-/

namespace Clausal

/-- True, false or open. -/
inductive Ternary
  | true
  | false
  | dontCare
deriving DecidableEq, Inhabited

namespace Ternary

def ofBool (b : Bool) : Ternary := if b then .true else .false

/-- The truth value, with a given one for an open value. -/
def getD (t : Ternary) (default : Bool) : Bool :=
  match t with
  | .true => Bool.true
  | .false => Bool.false
  | .dontCare => default

def negate : Ternary → Ternary
  | .true => .false
  | .false => .true
  | .dontCare => .dontCare

/-- The character that stands for the value. -/
def char : Ternary → Char
  | .true => '1'
  | .false => '0'
  | .dontCare => '_'

def ofChar? : Char → Option Ternary
  | '1' => some .true
  | '0' => some .false
  | '_' => some .dontCare
  | _ => none

/-- The value that is open unless it is decided otherwise. -/
def unset : Ternary := .dontCare

@[simp] theorem negate_negate (t : Ternary) : t.negate.negate = t := by cases t <;> rfl

theorem negate_eq_true_iff (t : Ternary) : t.negate = .true ↔ t = .false := by
  cases t <;> simp [negate]

theorem negate_eq_false_iff (t : Ternary) : t.negate = .false ↔ t = .true := by
  cases t <;> simp [negate]

theorem negate_eq_dontCare_iff (t : Ternary) : t.negate = .dontCare ↔ t = .dontCare := by
  cases t <;> simp [negate]

theorem ofChar?_char (t : Ternary) : ofChar? t.char = some t := by cases t <;> rfl

end Ternary

end Clausal
