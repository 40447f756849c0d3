import Clausal.Storage.Location
import Clausal.Text.Utf8

/-!
# Layouts

What a machine holds before anything is written: its directories, the files and devices in them,
the links between directories, and the directory that relative paths start from.
-/

namespace Clausal

/-- What stands at a location. -/
inductive Node
  | directory
  /-- A file with its content. -/
  | file (content : Bytes)
  /-- A device that forgets what it takes and gives nothing. -/
  | sink
  /-- A device that takes no bytes. -/
  | full
deriving DecidableEq

/-- The fixed part of a directory tree. -/
structure Layout where
  /-- What stands where. -/
  nodes : List (Location × Node)
  /-- Names that lead to a directory elsewhere. -/
  links : List (Location × Location)
  /-- The directories that take no new files. -/
  closed : List Location
  /-- Where relative paths start. -/
  home : Location

namespace Layout

/-- What stands at a location. The root is a directory. -/
def node? (s : Layout) (l : Location) : Option Node :=
  if l = .root then some .directory else s.nodes.lookup l

/-- The location that a location stands for. -/
def redirect (s : Layout) (l : Location) : Location := (s.links.lookup l).getD l

/-- Whether new files can be made in a directory. -/
def isOpen (s : Layout) (l : Location) : Bool := !s.closed.contains l

end Layout

end Clausal
