import Clausal.Dimacs.ClauseLine
import Clausal.Dimacs.Header

/-!
# Instances

An instance is a header followed by lines that each hold at most one clause. The number of clauses
in the header is not compared with them, but an unweighted header may not announce more than memory
holds, since room for them is set aside at once.
-/

namespace Clausal.Dimacs

/-- The content of a file. -/
structure Instance where
  header : Header
  headerLine : Nat
  hard : Cnf
  soft : List Clause
deriving DecidableEq

/-- A clause of a file. -/
inductive Entry
  | hard (c : Clause)
  | soft (c : Clause)
deriving DecidableEq

def Entry.hard? : Entry → Option Clause
  | hard c => some c
  | soft _ => none

def Entry.soft? : Entry → Option Clause
  | hard _ => none
  | soft c => some c

/-- Reads line `n` under a header. -/
def Header.readLine (h : Header) (n : Nat) (cs : List Char) : Except Error (Option Entry) :=
  match h with
  | .cnf .. =>
    match readClauseLine cs with
    | .nothing => .ok none
    | .entry c => .ok (some (.hard c))
    | .fault => .error (.badClause n cs)
  | .wcnf _ _ top =>
    match readWeightedLine cs with
    | .nothing => .ok none
    | .entry (w, c) =>
      if w ≥ top then .ok (some (.hard c))
      else if w = 1 then .ok (some (.soft c))
      else .error (.heavySoftClause n w)
    | .fault => .error (.badClause n cs)

/-- Reads the lines after a header, numbered from `n`. -/
def Header.readBody (h : Header) : Nat → List RawLine → Except Error (List Entry)
  | _, [] => .ok []
  | n, l :: ls =>
    match l.text with
    | none => .error (.file .notUtf8)
    | some cs =>
      match h.readLine n cs with
      | .error e => .error e
      | .ok entry => (h.readBody (n + 1) ls).map (entry.toList ++ ·)

/-- The room of a clause in memory, in bytes. -/
def clauseSize : Nat := 24

/-- Whether memory may hold the clauses that room is set aside for. -/
def Header.fits : Header → Bool
  | .cnf _ clauses => fitsMemory clauses clauseSize
  | .wcnf .. => true

def Instance.read (format : Format) (bs : Bytes) : Except Error Instance := do
  let (header, line, body) ← Header.find 1 (rawLines bs)
  if header.format ≠ format then throw (.wrongFormat format header.format)
  if !header.fits then throw (.tooManyClauses header.clauses)
  let entries ← header.readBody (line + 1) body
  return ⟨header, line, ⟨entries.filterMap Entry.hard?⟩, entries.filterMap Entry.soft?⟩

end Clausal.Dimacs
