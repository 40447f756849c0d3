import Clausal.Storage.Path

/-!
# Locations

A location is a place in the directory tree, given by the names on the way from the root. Paths lead
to locations; two paths can lead to the same one.
-/

namespace Clausal

/-- The names from the root on. -/
structure Location where
  names : List (List Char)
deriving DecidableEq

namespace Location

def root : Location := ⟨[]⟩

/-- The directory that holds the location. The root holds itself. -/
def parent (l : Location) : Location := ⟨l.names.dropLast⟩

def child (l : Location) (name : List Char) : Location := ⟨l.names ++ [name]⟩

/-- The location that an absolute path without steps `.` and `..` spells out. -/
def ofText (path : String) : Location := ⟨Path.names path.toList⟩

def text (l : Location) : String :=
  if l.names = [] then "/" else String.ofList (l.names.flatMap ('/' :: ·))

@[simp] theorem parent_child (l : Location) (name : List Char) : (l.child name).parent = l := by
  cases l
  simp [child, parent]

end Location

end Clausal
