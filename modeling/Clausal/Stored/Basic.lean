import Clausal.Model.Basic
import Clausal.Stored.Tree

/-!
# Stored forms

The stored form of each type and its reader. Reading checks the ranges of numbers (32 bits for
indices and words, 64 bits for counts) and nothing else.
-/

namespace Clausal

/-- A type with a stored form. -/
class Stored (α : Type) where
  /-- The stored form of a value. -/
  store : α → Tree
  /-- The value of a stored form. -/
  load : Tree → Option α

open Stored (store load)

/-- The first number that takes more than 32 bits. -/
def Stored.wordLimit : Nat := 4294967296

/-- The first number that takes more than 64 bits. -/
def Stored.countLimit : Nat := 18446744073709551616

/-- A count. -/
def Stored.loadCount (t : Tree) : Option Nat := t.numberBelow countLimit

instance {α : Type} [Stored α] : Stored (List α) where
  store xs := .list (xs.map store)
  load := Tree.listOf load

instance : Stored Var where
  store v := .fields [("idx", .number v.index)]
  load t := do
    let [i] ← t.record ["idx"] | none
    return ⟨← i.numberBelow Stored.wordLimit⟩

instance : Stored Lit where
  store l := .fields [("lidx", .number l.code.toNat)]
  load t := do
    let [c] ← t.record ["lidx"] | none
    return ⟨UInt32.ofNat (← c.numberBelow Stored.wordLimit)⟩

instance : Stored Clause where
  store c := .fields [("lits", store c.lits)]
  load t := do
    let [ls] ← t.record ["lits"] | none
    return ⟨← load ls⟩

def Ternary.name : Ternary → String
  | .true => "True"
  | .false => "False"
  | .dontCare => "DontCare"

def Ternary.ofName? (s : String) : Option Ternary :=
  [Ternary.true, .false, .dontCare].find? fun t => t.name = s

instance : Stored Ternary where
  store t := .text t.name
  load t := do
    match ← t.case? with
    | (s, none) => Ternary.ofName? s
    | (s, some .null) => Ternary.ofName? s
    | _ => none

instance : Stored Assignment where
  store a := .fields [("assignment", store a.values.toList)]
  load t := do
    let [vs] ← t.record ["assignment"] | none
    return .ofValues (← load vs)

instance : Stored Cardinality where
  store
    | .atMostOne ls => .fields [("AtMostOne", store ls)]
    | .atLeast ls k => .fields [("AtLeast", .list [store ls, .number k])]
  load t := do
    match ← t.case? with
    | ("AtMostOne", some ls) => return .atMostOne (← load ls)
    | ("AtLeast", some (.list [ls, k])) => return .atLeast (← load ls) (← Stored.loadCount k)
    | _ => none

instance : Stored VarPool where
  store p := .fields [("next_var", store p.next)]
  load t := do
    let [v] ← t.record ["next_var"] | none
    return ⟨← load v⟩

instance : Stored Cnf where
  store f := .fields [("clauses", store f.clauses)]
  load t := do
    let [cs] ← t.record ["clauses"] | none
    return ⟨← load cs⟩

instance : Stored Model where
  store m := .fields [("name", .text m.name), ("var_manager", store m.pool),
    ("cnf", store m.hard), ("soft", store m.soft)]
  load t := do
    let [name, pool, hard, soft] ← t.record ["name", "var_manager", "cnf", "soft"] | none
    return ⟨← name.text?, ← load pool, ← load hard, ← load soft⟩

instance : Stored Pairwise where
  store e := .fields [("in_lits", store e.lits), ("n_clauses", .number e.clauseCount)]
  load t := do
    let [ls, c] ← t.record ["in_lits", "n_clauses"] | none
    return ⟨← load ls, ← Stored.loadCount c⟩

instance : Stored SequentialCounter where
  store e := .fields [("in_lits", store e.lits), ("n_vars", .number e.varCount),
    ("n_clauses", .number e.clauseCount)]
  load t := do
    let [ls, v, c] ← t.record ["in_lits", "n_vars", "n_clauses"] | none
    return ⟨← load ls, ← v.numberBelow Stored.wordLimit, ← Stored.loadCount c⟩

instance : Stored CounterMatrix where
  store m := .fields [("vars", store m.vars), ("n_cols", .number m.columns)]
  load t := do
    let [vs, n] ← t.record ["vars", "n_cols"] | none
    return ⟨← load vs, ← Stored.loadCount n⟩

end Clausal
