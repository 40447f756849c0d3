import Clausal.Dimacs.Instance
import Clausal.Dimacs.Written
import Clausal.Model.Basic
import Clausal.Storage.Basic

/-!
# Models and files

A model is written with the number of its variables. The file is opened before the text is made, so
a path that takes no file is reported before a literal that has no number; so is a full device, if
the text before that literal does not fit the buffer. A model that is read has the variables that
the header announces and those that occur in its clauses.
-/

namespace Clausal.Model

/-- Writes the hard clauses as far as possible. -/
def cnfDraft (m : Model) : Dimacs.Draft := Dimacs.cnfDraft m.hard m.varCount

/-- Writes the hard and the soft clauses as far as possible. -/
def wcnfDraft (m : Model) : Dimacs.Draft := Dimacs.wcnfDraft m.hard m.soft m.varCount

def writeCnf (m : Model) : Except Violation (List Char) := Dimacs.writeCnf m.hard m.varCount

def writeWcnf (m : Model) : Except Violation (List Char) :=
  Dimacs.writeWcnf m.hard m.soft m.varCount

/-- Opens a file and writes a draft to it. -/
def saveDraft (d : Dimacs.Draft) (path : String) (st : Storage) :
    Except Violation (Except FileError Storage) :=
  match st.create path with
  | .error e => .ok (.error e)
  | .ok (l, st) =>
    match d.fault with
    | none => .ok (st.write l (utf8Encode d.text))
    | some v => if st.chokes l (utf8Encode d.text) then .ok (.error .noSpace) else .error v

def saveCnf (m : Model) := saveDraft m.cnfDraft

def saveWcnf (m : Model) := saveDraft m.wcnfDraft

/-- The model with the clauses of an instance. -/
def ofInstance (i : Dimacs.Instance) : Except Violation Model := do
  let m ← { empty with pool := ⟨⟨i.header.vars⟩⟩ }.extend i.hard.clauses
  m.extendSoft i.soft

/-- The model of an instance that was read. The variable behind those of the header is the first
free one, so it has to be usable. -/
def ofRead (i : Dimacs.Instance) : Except Dimacs.Error (Except Violation Model) :=
  if i.header.vars ≤ Var.maxIndex then .ok (ofInstance i)
  else .error (.tooManyVars i.headerLine i.header.vars)

/-- Reads a model in a given format. A variable without a number above it violates the contract. -/
def read (format : Dimacs.Format) (bs : Bytes) :
    Except Dimacs.Error (Except Violation Model) :=
  Dimacs.Instance.read format bs >>= ofRead

end Clausal.Model
