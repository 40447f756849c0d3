import Clausal.Cnf

/-!
# Written instances

Each clause is written on a line of its own and ends with a zero. In a weighted instance the soft
clauses weigh one and the hard ones, which come first, weigh one more than all soft ones together.
A literal over the highest variable has no number, and writing stops in front of it.
-/

namespace Clausal.Dimacs

/-- A literal with the blank behind it. -/
def litText (l : Lit) : List Char := Decimal.writeInt l.signed ++ [' ']

def clauseText (c : Clause) : List Char := c.lits.flatMap litText ++ ['0', '\n']

def weightedText (weight : Nat) (c : Clause) : List Char :=
  Decimal.write weight ++ ' ' :: clauseText c

/-- The lines in front of the clauses of an unweighted instance. -/
def cnfHead (hard : Cnf) (vars : Nat) : List Char :=
  "c CNF file written by satenc\np cnf ".toList ++ Decimal.write vars ++ ' ' ::
    Decimal.write hard.size ++ ['\n']

def cnfText (hard : Cnf) (vars : Nat) : List Char :=
  cnfHead hard vars ++ hard.clauses.flatMap clauseText

/-- The weight of a hard clause beside the given soft clauses. -/
def topWeight (soft : List Clause) : Nat := soft.length + 1

/-- The lines in front of the clauses of a weighted instance. -/
def wcnfHead (hard : Cnf) (soft : List Clause) (vars : Nat) : List Char :=
  "c WCNF file written by satenc\nc ".toList ++ Decimal.write hard.size
    ++ " hard clauses\nc ".toList ++ Decimal.write soft.length
    ++ " soft clauses\np wcnf ".toList ++ Decimal.write vars ++ ' ' ::
    Decimal.write (hard.size + soft.length) ++ ' ' :: Decimal.write (topWeight soft) ++ ['\n']

def wcnfText (hard : Cnf) (soft : List Clause) (vars : Nat) : List Char :=
  wcnfHead hard soft vars ++ hard.clauses.flatMap (weightedText (topWeight soft))
    ++ soft.flatMap (weightedText 1)

/-! ## Literals without a number -/

def hasNumber (l : Lit) : Bool := l.index < Var.maxIndex

def writable (cs : List Clause) : Bool := cs.all fun c => c.lits.all hasNumber

/-- The lines of clauses, each with a text in front, up to the first literal without a number. -/
def linesBefore (lead : List Char) : List Clause → List Char
  | [] => []
  | c :: cs =>
    if c.lits.all hasNumber then lead ++ clauseText c ++ linesBefore lead cs
    else lead ++ (c.lits.takeWhile hasNumber).flatMap litText

/-- What has been written, and the condition that stopped the writing if it did not end. -/
structure Draft where
  text : List Char
  fault : Option Violation

/-- The whole text, if writing ended. -/
def Draft.whole (d : Draft) : Except Violation (List Char) :=
  match d.fault with
  | none => .ok d.text
  | some v => .error v

theorem Draft.whole_eq_ok {d : Draft} {text : List Char} :
    d.whole = .ok text ↔ d.fault = none ∧ d.text = text := by
  unfold whole
  split <;> simp [*]

/-- Writes an unweighted instance as far as its literals have numbers. -/
def cnfDraft (hard : Cnf) (vars : Nat) : Draft :=
  if writable hard.clauses then ⟨cnfText hard vars, none⟩
  else ⟨cnfHead hard vars ++ linesBefore [] hard.clauses, some .noFileNumber⟩

/-- Writes a weighted instance as far as its literals have numbers. -/
def wcnfDraft (hard : Cnf) (soft : List Clause) (vars : Nat) : Draft :=
  let lead (weight : Nat) := Decimal.write weight ++ [' ']
  if !writable hard.clauses then
    ⟨wcnfHead hard soft vars ++ linesBefore (lead (topWeight soft)) hard.clauses,
      some .noFileNumber⟩
  else if !writable soft then
    ⟨wcnfHead hard soft vars ++ hard.clauses.flatMap (weightedText (topWeight soft))
      ++ linesBefore (lead 1) soft, some .noFileNumber⟩
  else ⟨wcnfText hard soft vars, none⟩

def writeCnf (hard : Cnf) (vars : Nat) : Except Violation (List Char) := (cnfDraft hard vars).whole

def writeWcnf (hard : Cnf) (soft : List Clause) (vars : Nat) : Except Violation (List Char) :=
  (wcnfDraft hard soft vars).whole

theorem writeCnf_eq (hard : Cnf) (vars : Nat) : writeCnf hard vars =
    if writable hard.clauses then .ok (cnfText hard vars) else .error .noFileNumber := by
  unfold writeCnf cnfDraft
  split <;> rfl

theorem writeWcnf_eq (hard : Cnf) (soft : List Clause) (vars : Nat) : writeWcnf hard soft vars =
    if writable hard.clauses && writable soft then .ok (wcnfText hard soft vars)
    else .error .noFileNumber := by
  unfold writeWcnf wcnfDraft
  cases writable hard.clauses <;> cases writable soft <;> rfl

end Clausal.Dimacs
