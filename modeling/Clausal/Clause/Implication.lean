import Clausal.Clause.Basic

/-!
# Units and implications as clauses

The premise of an implication becomes the negated literals at the front of the clause.
-/

namespace Clausal.Clause

def unit (a : Lit) : Clause := ⟨[a]⟩

def refute (a : Lit) : Clause := ⟨[a.negate]⟩

def anyOf (ls : List Lit) : Clause := ⟨ls⟩

def implies (a b : Lit) : Clause := ⟨[a.negate, b]⟩

def impliesAny (a : Lit) (bs : List Lit) : Clause := ⟨a.negate :: bs⟩

/-- If `a` then each of `bs`, one clause for each. -/
def impliesAll (a : Lit) (bs : List Lit) : List Clause := bs.map (implies a)

/-- If all of `as` then `b`. -/
def allImply (as : List Lit) (b : Lit) : Clause := ⟨as.map Lit.negate ++ [b]⟩

end Clausal.Clause
