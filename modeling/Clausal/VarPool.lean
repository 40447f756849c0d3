import Clausal.Lit

/-!
# Variable pools

A pool hands out variables by rising index: everything below `next` is used. Marking a variable as
used moves `next` above it and never back.
-/

namespace Clausal

/-- The variables from `next` on are free. -/
structure VarPool where
  next : Var
deriving DecidableEq

namespace VarPool

def full : VarPool := ⟨⟨0⟩⟩

/-- The number of variables below the free ones. -/
def used (p : VarPool) : Nat := p.next.index

/-- The highest variable below the free ones. -/
def maxVar? (p : VarPool) : Option Var := if p.used = 0 then none else some ⟨p.used - 1⟩

def fresh (p : VarPool) : Except Violation (Var × VarPool) :=
  match p.next.add 1 with
  | .ok next => .ok (p.next, ⟨next⟩)
  | .error e => .error e

/-- The room of a variable in memory, in bytes. -/
def varSize : Nat := 4

/-- Why a pool has no more variables to hand out. -/
def shortage (p : VarPool) : Violation :=
  if p.used + 1 < 4294967296 then .indexTooHigh else .indexOverflow

/-- Takes the next `n` free variables, which are consecutive. -/
def freshMany (p : VarPool) (n : Nat) : Except Violation (List Var × VarPool) :=
  if n = 0 ∨ p.used + n ≤ Var.maxIndex then
    .ok ((List.range n).map fun i => ⟨p.used + i⟩, ⟨⟨p.used + n⟩⟩)
  else .error (if fitsMemory n varSize then p.shortage else .beyondMemory)

/-- Takes the variables of rows of `n`, one row after another. -/
def freshRows (p : VarPool) : Nat → Nat → Except Violation (List Var × VarPool)
  | 0, _ => .ok ([], p)
  | rows + 1, n => do
    let (vs, q) ← p.freshMany n
    let (ws, r) ← q.freshRows rows n
    return (vs ++ ws, r)

/-- Frees no variable below `v`; says whether that used any up. -/
def advance (p : VarPool) (v : Var) : Bool × VarPool :=
  if p.next.index < v.index then (true, ⟨v⟩) else (false, p)

/-- Uses the variables up to `v`; says whether that used any up. -/
def markUsed (p : VarPool) (v : Var) : Except Violation (Bool × VarPool) :=
  match v.add 1 with
  | .ok w => .ok (p.advance w)
  | .error e => .error e

/-- Uses the variables up to the highest one in a list of literals. -/
def cover (p : VarPool) (ls : List Lit) : Except Violation VarPool :=
  match Clausal.maxVar? ls with
  | none => .ok p
  | some v => (p.markUsed v).map (·.2)

theorem fresh_eq_ok (p : VarPool) (h : p.used < Var.maxIndex) :
    p.fresh = .ok (p.next, ⟨⟨p.used + 1⟩⟩) := by
  rw [used] at h
  have h32 : p.next.index + 1 < 4294967296 := by rw [Var.maxIndex] at h; omega
  simp only [fresh, used, Var.add, if_pos h32, Var.new]
  rw [if_pos (by omega)]

theorem fresh_eq_error (p : VarPool) (h : Var.maxIndex ≤ p.used) :
    p.fresh = .error p.shortage := by
  have hv : p.next.add 1 = .error p.shortage := by
    unfold used at h
    unfold Var.add Var.new
    by_cases h32 : p.next.index + 1 < 4294967296
    · rw [if_pos h32, if_neg (by omega)]
      exact congrArg _ (if_pos h32).symm
    · rw [if_neg h32]
      exact congrArg _ (if_neg h32).symm
  unfold fresh
  rw [hv]

@[simp] theorem freshMany_zero (p : VarPool) : p.freshMany 0 = .ok ([], p) := by
  simp [freshMany, used]

/-- Fresh variables are consecutive. -/
theorem freshMany_eq_ok (p : VarPool) (n : Nat) (h : p.used + n ≤ Var.maxIndex) :
    p.freshMany n = .ok ((List.range n).map fun i => ⟨p.used + i⟩, ⟨⟨p.used + n⟩⟩) :=
  if_pos (.inr h)

theorem freshMany_eq_error (p : VarPool) (n : Nat) (hn : n ≠ 0) (h : Var.maxIndex < p.used + n) :
    ∃ v, p.freshMany n = .error v :=
  ⟨_, if_neg (by omega)⟩

/-- Taking one more variable takes the next one first. -/
theorem freshMany_succ (p : VarPool) (n : Nat) (h : p.used + n < Var.maxIndex) :
    p.freshMany (n + 1) =
      (p.fresh >>= fun (v, q) => q.freshMany n >>= fun (vs, r) => .ok (v :: vs, r)) := by
  have hq : (⟨⟨p.used + 1⟩⟩ : VarPool).used = p.used + 1 := rfl
  have hs : p.next = ⟨p.used + 0⟩ := rfl
  rw [p.freshMany_eq_ok _ (by omega), p.fresh_eq_ok (by omega)]
  simp only [bind, Except.bind]
  rw [freshMany_eq_ok _ _ (by omega)]
  simp only [List.range_succ_eq_map, List.map_cons, List.map_map, hq, hs]
  simp [Function.comp_def, Nat.add_assoc, Nat.add_comm]

end VarPool

end Clausal
