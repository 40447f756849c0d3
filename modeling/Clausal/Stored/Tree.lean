/-!
# Stored values

Values are stored as trees of numbers, texts, lists and named fields. A record may be given by its
fields in any order, with other fields ignored, or by the list of its fields in their order. A case
of a choice is given by its name, alone or as the only field.
-/

namespace Clausal

/-- A stored value. -/
inductive Tree
  | null
  | bool (b : Bool)
  | number (n : Nat)
  /-- A number that is negative or not whole. -/
  | oddNumber
  | text (s : String)
  | list (items : List Tree)
  | fields (entries : List (String × Tree))
deriving Inhabited

namespace Tree

/-- A number below a limit. -/
def numberBelow (limit : Nat) : Tree → Option Nat
  | number n => if n < limit then some n else none
  | _ => none

def text? : Tree → Option String
  | text s => some s
  | _ => none

/-- A list whose items are read one by one. -/
def listOf {α : Type} (read : Tree → Option α) : Tree → Option (List α)
  | list items => items.mapM read
  | _ => none

/-- The fields of a record in the order of their names. -/
def record (names : List String) : Tree → Option (List Tree)
  | fields entries => names.mapM fun n => entries.lookup n
  | list items => if items.length = names.length then some items else none
  | _ => none

/-- The name of a case, and what is stored with it. -/
def case? : Tree → Option (String × Option Tree)
  | text s => some (s, none)
  | fields [(s, t)] => some (s, some t)
  | _ => none

end Tree

end Clausal
