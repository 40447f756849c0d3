/-!
# Paths

A path is a text of names separated by slashes. Trailing slashes and trailing steps `.` do not
change which name is the last one; the steps `.` and `..` are no file names.
-/

namespace Clausal.Path

/-- Drops trailing slashes and trailing steps `.` from a path that is given backwards. -/
def dropTail : List Char → List Char
  | '/' :: rest => dropTail rest
  | '.' :: '/' :: rest => dropTail rest
  | cs => cs

/-- The directory part and the file name of a path, if it ends in a file name. -/
def split? (path : List Char) : Option (List Char × List Char) :=
  let back := dropTail path.reverse
  let name := (back.takeWhile (· != '/')).reverse
  if name = [] ∨ name = ['.'] ∨ name = ['.', '.'] then none
  else some ((back.dropWhile (· != '/')).reverse, name)

/-- The stem and the extension of a file name, which the last dot separates. A name whose only dot
is its first character has no extension. -/
def splitName (name : List Char) : List Char × Option (List Char) :=
  let back := name.reverse
  let stem := ((back.dropWhile (· != '.')).drop 1).reverse
  if stem = [] then (name, none) else (stem, some (back.takeWhile (· != '.')).reverse)

/-- The extension of the file name. -/
def extension? (path : List Char) : Option (List Char) :=
  match split? path with
  | none => none
  | some (_, name) => (splitName name).2

/-- Puts an extension after the stem of the file name and drops what stood there. -/
def setExtension (path ext : List Char) : List Char :=
  match split? path with
  | none => path
  | some (dir, name) => dir ++ (splitName name).1 ++ '.' :: ext

/-- The path with another extension. The length of the old extension is taken off the end before the
new one is set, so a name that leaves only `..` keeps no extension. -/
def withExtension (path ext : List Char) : List Char :=
  let old := (extension? path).getD []
  setExtension (path.take (path.length - old.length)) ext

/-- The names of a path in their order. Slashes in a row count as one. -/
def names (path : List Char) : List (List Char) :=
  (path.splitOnP (· == '/')).filter fun t => !t.isEmpty

/-- Whether the path starts at the root. -/
def isAbsolute (path : List Char) : Bool := path.head? == some '/'

/-- Whether the path names a directory by a trailing slash. -/
def endsInSlash (path : List Char) : Bool := path.getLast? == some '/'

end Clausal.Path
