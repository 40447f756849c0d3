import Clausal.Storage.Error
import Clausal.Storage.Layout

/-!
# Storage

The files that a program reads and writes. A path is followed name by name: every name but the last
has to lead to a directory, and the steps `.` and `..` lead to directories. Where the last name
leads is a matter of what the path is for: a new file needs room only, any other use needs
something there.
-/

namespace Clausal

/-- A directory tree with the files that were written. -/
structure Storage where
  layout : Layout
  files : List (Location × Bytes)

namespace Storage

def node? (s : Storage) (l : Location) : Option Node :=
  match s.files.lookup l with
  | some bs => some (.file bs)
  | none => s.layout.node? l

def put (s : Storage) (l : Location) (bs : Bytes) : Storage :=
  { s with files := (l, bs) :: s.files.filter (·.1 != l) }

/-- Removes a file that was written. -/
def remove (s : Storage) (l : Location) : Storage :=
  { s with files := s.files.filter (·.1 != l) }

/-- The storage with another directory that relative paths start from. -/
def seenFrom (s : Storage) (dir : Location) : Storage :=
  { s with layout := { s.layout with home := dir } }

/-! ## Following paths -/

/-- The length of the longest name in bytes. -/
def maxName : Nat := 255

/-- The length of the longest path in bytes. -/
def maxPath : Nat := 4095

/-- The location of a name in a directory. -/
def lookupName (s : Storage) (dir : Location) (name : List Char) : Except FileError Location :=
  if byteCount name > maxName then .error .nameTooLong
  else .ok (s.layout.redirect (dir.child name))

/-- Goes from a directory to the directory that a name leads to. -/
def enter (s : Storage) (dir : Location) (name : List Char) : Except FileError Location :=
  if name = ['.'] then .ok dir
  else if name = ['.', '.'] then .ok dir.parent
  else match s.lookupName dir name with
    | .error e => .error e
    | .ok l =>
      match s.node? l with
      | some .directory => .ok l
      | some _ => .error .notDirectory
      | none => .error .notFound

/-- Where a path leads. -/
inductive Destination
  /-- To a directory. -/
  | directory (l : Location)
  /-- To a name in a directory; a trailing slash says that it has to be a directory. -/
  | entry (dir : Location) (name : List Char) (slash : Bool)
deriving DecidableEq

/-- Follows a path up to its last name. -/
def follow (s : Storage) (path : String) : Except FileError Destination :=
  let cs := path.toList
  if cs.contains (Char.ofNat 0) then .error .nullInPath
  else if cs = [] then .error .notFound
  else if byteCount cs > maxPath then .error .nameTooLong
  else
    let start := if Path.isAbsolute cs then .root else s.layout.home
    match (Path.names cs).getLast? with
    | none => .ok (.directory start)
    | some last =>
      match (Path.names cs).dropLast.foldlM s.enter start with
      | .error e => .error e
      | .ok dir =>
        if last = ['.'] then .ok (.directory dir)
        else if last = ['.', '.'] then .ok (.directory dir.parent)
        else .ok (.entry dir last (Path.endsInSlash cs))

/-- The location at which a path makes a file or finds one to write to. -/
def locateNew (s : Storage) (path : String) : Except FileError Location :=
  match s.follow path with
  | .error e => .error e
  | .ok (.directory _) => .error .isDirectory
  | .ok (.entry dir name slash) =>
    if slash then .error .isDirectory
    else match s.lookupName dir name with
      | .error e => .error e
      | .ok l =>
        match s.node? l with
        | some .directory => .error .isDirectory
        | some _ => .ok l
        | none => if s.layout.isOpen dir then .ok l else .error .notFound

/-- The location of what a path finds, and what stands there. -/
def locate (s : Storage) (path : String) : Except FileError (Location × Node) :=
  match s.follow path with
  | .error e => .error e
  | .ok (.directory l) => .ok (l, .directory)
  | .ok (.entry dir name slash) =>
    match s.lookupName dir name with
    | .error e => .error e
    | .ok l =>
      match s.node? l with
      | none => .error .notFound
      | some .directory => .ok (l, .directory)
      | some n => if slash then .error .notDirectory else .ok (l, n)

/-- The directory that a path leads to. -/
def directory? (s : Storage) (path : String) : Option Location :=
  match s.locate path with
  | .ok (l, .directory) => some l
  | _ => none

/-! ## Reading and writing -/

/-- Opens a file to write to: it is made, or emptied if it is there. -/
def create (s : Storage) (path : String) : Except FileError (Location × Storage) :=
  match s.locateNew path with
  | .error e => .error e
  | .ok l =>
    match s.node? l with
    | some .sink | some .full => .ok (l, s)
    | _ => .ok (l, s.put l [])

/-- Writes the content of an opened file. -/
def write (s : Storage) (l : Location) (bs : Bytes) : Except FileError Storage :=
  match s.node? l with
  | some .full => .error .noSpace
  | some .sink => .ok s
  | _ => .ok (s.put l bs)

/-- The number of bytes that are held back before they are written. -/
def bufferSize : Nat := 8192

/-- Whether writing fails at the latest with the given bytes, if more are to come. -/
def chokes (s : Storage) (l : Location) (bs : Bytes) : Bool :=
  s.node? l == some .full && bs.length > bufferSize

/-- Makes a file with the given content. -/
def save (s : Storage) (path : String) (bs : Bytes) : Except FileError Storage :=
  match s.create path with
  | .error e => .error e
  | .ok (l, t) => t.write l bs

/-- The bytes that reading gives. -/
def contentOf : Node → Except FileError Bytes
  | .directory => .error .isDirectory
  | .file bs => .ok bs
  | .sink | .full => .ok []

def read (s : Storage) (path : String) : Except FileError Bytes :=
  match s.locate path with
  | .error e => .error e
  | .ok (_, n) => contentOf n

/-- The bytes of the file at a location, none if there is no file. -/
def contentAt (s : Storage) (l : Location) : Bytes :=
  match s.node? l with
  | some (.file bs) => bs
  | _ => []

theorem node?_put (s : Storage) (l : Location) (bs : Bytes) :
    (s.put l bs).node? l = some (.file bs) := by
  simp [node?, put]

theorem node?_put_of_ne (s : Storage) {l m : Location} (bs : Bytes) (h : m ≠ l) :
    (s.put l bs).node? m = s.node? m := by
  have hf : ((l, bs) :: s.files.filter (·.1 != l)).lookup m = s.files.lookup m := by
    simp only [List.lookup_cons, beq_false_of_ne h]
    induction s.files with
    | nil => rfl
    | cons f fs ih =>
      obtain ⟨k, v⟩ := f
      by_cases hk : k = l
      · subst hk
        simp [List.lookup_cons, beq_false_of_ne h, ih]
      · simp [hk, List.lookup_cons, ih]
  simp [node?, put, hf]

theorem contentAt_put (s : Storage) (l : Location) (bs : Bytes) :
    (s.put l bs).contentAt l = bs := by
  simp [contentAt, node?_put]

end Storage

end Clausal
