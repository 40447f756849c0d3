import Clausal.Cnf
import Clausal.Text.Blank

/-!
# Clause lines

A clause line lists non-zero literals separated by blanks and may end with a zero; what follows the
zero is ignored. A weighted clause line has a positive weight in front. Blank lines and lines whose
first character after the blanks is `c` hold no clause.
-/

namespace Clausal.Dimacs

/-- What a line of the body holds. -/
inductive LineContent (α : Type)
  /-- No clause. -/
  | nothing
  /-- A clause. -/
  | entry (a : α)
  /-- Neither. -/
  | fault
deriving DecidableEq

def litOfWord (w : List Char) : Option Lit :=
  match Decimal.parseInt w with
  | none => none
  | some z => (Lit.ofInt z).toOption

/-- The literals up to the end or up to the word `0`. -/
def litsOfWords : List (List Char) → Option (List Lit)
  | [] => some []
  | w :: ws =>
    match litOfWord w with
    | some l => (litsOfWords ws).map (l :: ·)
    | none => if w = ['0'] then some [] else none

def isComment : List (List Char) → Bool
  | ('c' :: _) :: _ => true
  | _ => false

def readClauseLine (cs : List Char) : LineContent Clause :=
  let ws := words cs
  if ws.isEmpty || isComment ws then .nothing
  else match litsOfWords ws with
    | some ls => .entry ⟨ls⟩
    | none => .fault

/-- The positive weight that a word denotes. -/
def weightOfWord (w : List Char) : Option Nat :=
  match Decimal.parseCount w with
  | some 0 => none
  | r => r

/-- Reads a line of a weighted instance. A weight alone is no clause; the empty clause needs its
zero. -/
def readWeightedLine (cs : List Char) : LineContent (Nat × Clause) :=
  let ws := words cs
  if ws.isEmpty || isComment ws then .nothing
  else match ws with
    | w :: v :: vs =>
      match weightOfWord w, litsOfWords (v :: vs) with
      | some n, some ls => .entry (n, ⟨ls⟩)
      | _, _ => .fault
    | _ => .fault

end Clausal.Dimacs
