import Clausal.Lit
import Clausal.Ternary

/-!
# Assignments

An assignment lists the values of the variables from index 0 on; a variable beyond the list is
open. Assigning a variable fills the gap below it with open values.
-/

namespace Clausal

/-- The values of the variables from index 0 on. -/
structure Assignment where
  values : Array Ternary
deriving DecidableEq

namespace Assignment

def empty : Assignment := ⟨#[]⟩

def size (a : Assignment) : Nat := a.values.size

def isEmpty (a : Assignment) : Bool := a.size == 0

def value (a : Assignment) (v : Var) : Ternary := a.values.getD v.index .dontCare

def litValue (a : Assignment) (l : Lit) : Ternary :=
  if l.isNeg then (a.value l.var).negate else a.value l.var

/-- Covers at least the given number of variables. -/
def cover (a : Assignment) (n : Nat) : Assignment :=
  ⟨a.values ++ Array.replicate (n - a.size) .dontCare⟩

def assign (a : Assignment) (v : Var) (t : Ternary) : Assignment :=
  ⟨(a.cover (v.index + 1)).values.setIfInBounds v.index t⟩

def assignLit (a : Assignment) (l : Lit) : Assignment := a.assign l.var (.ofBool l.isPos)

/-- Decides every open value that is covered. -/
def replaceOpen (a : Assignment) (b : Bool) : Assignment :=
  ⟨a.values.map fun t => if t = .dontCare then .ofBool b else t⟩

/-- Keeps the values up to a variable. -/
def truncate (a : Assignment) (v : Var) : Assignment := ⟨a.values.take (v.index + 1)⟩

/-- The highest variable that is covered. There is none if the places have no 32-bit number, and a
last place above the highest usable variable violates the contract. -/
def maxVar (a : Assignment) : Except Violation (Option Var) :=
  if a.size = 0 ∨ 4294967296 ≤ a.size then .ok none else (Var.new (a.size - 1)).map some

/-- The highest variable that is covered, if it can be had. -/
def maxVar? (a : Assignment) : Option Var := a.maxVar.toOption.join

/-- The literals that are true, by rising index, if every decided value is that of a usable variable
(in general, see `iterate`). -/
def lits (a : Assignment) : List Lit :=
  a.values.toList.zipIdx.filterMap fun (t, i) =>
    match t with
    | .true => some (Var.pos ⟨i⟩)
    | .false => some (Var.neg ⟨i⟩)
    | .dontCare => none

/-- The literal over an index with a value, if it is decided. A place without a 32-bit index and an
index that no literal has violate the contract. -/
def litAt (i : Nat) (t : Ternary) : Except Violation (Option Lit) :=
  if i < 4294967296 then
    match t with
    | .true => (Lit.new i false).map some
    | .false => (Lit.new i true).map some
    | .dontCare => .ok none
  else .error .tooManyValues

/-- The literals of values from index `i` on, one after another. -/
def iterateFrom : Nat → List Ternary → Except Violation (List Lit)
  | _, [] => .ok []
  | i, t :: ts => do
    let l? ← litAt i t
    let ls ← iterateFrom (i + 1) ts
    return l?.toList ++ ls

/-- Goes through all values for the literals that are true. -/
def iterate (a : Assignment) : Except Violation (List Lit) := iterateFrom 0 a.values.toList

/-- The assignment that makes the given literals true; of two that clash the later one counts. -/
def ofLits (ls : List Lit) : Assignment := ls.foldl assignLit empty

def ofValues (ts : List Ternary) : Assignment := ⟨ts.toArray⟩

/-- The values as characters, from index 0 on. -/
def text (a : Assignment) : List Char := a.values.toList.map Ternary.char

/-! ## Values after each operation -/

@[simp] theorem value_empty (v : Var) : empty.value v = .dontCare := rfl

theorem value_eq_getD (a : Assignment) (v : Var) :
    a.value v = (a.values[v.index]?).getD .dontCare := by
  rw [value, Array.getD_eq_getD_getElem?]

@[simp] theorem size_cover (a : Assignment) (n : Nat) : (a.cover n).size = max a.size n := by
  simp [cover, size]
  omega

@[simp] theorem value_cover (a : Assignment) (n : Nat) (v : Var) :
    (a.cover n).value v = a.value v := by
  rw [value_eq_getD, value_eq_getD, cover, Array.getElem?_append]
  split
  · rfl
  · next h =>
    rw [Array.getElem?_replicate, Array.getElem?_eq_none (by omega)]
    split <;> rfl

@[simp] theorem size_assign (a : Assignment) (v : Var) (t : Ternary) :
    (a.assign v t).size = max a.size (v.index + 1) := by
  have h := a.size_cover (v.index + 1)
  simpa [assign, size] using h

theorem value_assign (a : Assignment) (v w : Var) (t : Ternary) :
    (a.assign v t).value w = if w = v then t else a.value w := by
  have hs : v.index < (a.cover (v.index + 1)).values.size := by
    have h := a.size_cover (v.index + 1)
    rw [size] at h
    omega
  rw [← a.value_cover (v.index + 1) w, value_eq_getD, value_eq_getD, assign,
    Array.getElem?_setIfInBounds]
  by_cases h : w = v
  · simp [h, hs]
  · have hne : v.index ≠ w.index := fun hi => h (by cases v; cases w; simp_all)
    simp [h, hne]

theorem litValue_eq_dontCare_iff (a : Assignment) (l : Lit) :
    a.litValue l = .dontCare ↔ a.value l.var = .dontCare := by
  unfold litValue
  split
  · exact Ternary.negate_eq_dontCare_iff _
  · rfl

@[simp] theorem litValue_negate (a : Assignment) (l : Lit) :
    a.litValue l.negate = (a.litValue l).negate := by
  simp only [litValue, Lit.isNeg_negate, Lit.var, Lit.index_negate]
  cases l.isNeg <;> simp

end Assignment

end Clausal
