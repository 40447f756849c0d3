import Clausal.Solver.Command
import Clausal.Storage.Basic

/-!
# Machines

The surroundings of a process: the files, the programs among them, and the directories in which
programs are looked for. A name with a slash is a path from the directory that the process starts
in; any other name is looked for in the directories of the search path, one after another.

A process finds files from the directory that it starts in, which need not be the one of its caller.
-/

namespace Clausal

/-- How a process is given an instance. -/
inductive Handover
  /-- By its input. -/
  | piped (bs : Bytes)
  /-- By a file that one of its arguments names. -/
  | named (path : String)
deriving DecidableEq

/-- What a process is started with: its command, the directory it starts in, the files that it
finds, and an instance. -/
structure Invocation where
  command : Command
  directory : Location
  files : Storage
  handover : Handover

/-- The instance that the process reads. A path that leads to no file from its directory gives it
nothing. -/
def Invocation.input (i : Invocation) : Bytes :=
  match i.handover with
  | .piped bs => bs
  | .named path => ((i.files.seenFrom i.directory).read path).toOption.getD []

/-- How a process ended. -/
inductive Exit
  | code (n : Nat)
  | signal
deriving DecidableEq

/-- What a process leaves. -/
structure Termination where
  stdout : Bytes
  exit : Exit
deriving DecidableEq

/-- A program as a function of what it is started with. -/
abbrev Program := Invocation → Termination

/-- What the system refuses to the next call, apart from paths that do not open and programs that do
not start. -/
structure Faults where
  /-- The temporary file cannot be made. -/
  make : Option FileError := none
  /-- The temporary file cannot be written. -/
  fill : Option FileError := none
  /-- The temporary file cannot be removed. -/
  remove : Option FileError := none
  /-- The instance cannot be written to the input of the process. -/
  feed : Option FileError := none
  /-- The end of the process cannot be waited for. -/
  wait : Option FileError := none
  /-- The output cannot be read up to the line that decides. -/
  read : Option FileError := none
  /-- The output cannot be read behind the line that decides. -/
  drain : Option FileError := none
  /-- The thread that reads the output breaks off. -/
  thread : Bool := false
deriving DecidableEq

/-- The files, the programs by their locations, the search path that processes inherit, the place of
the next temporary file, and what the system refuses. -/
structure Machine where
  storage : Storage
  program? : Location → Option Program
  searchPath : String
  temp : Location
  faults : Faults := {}

namespace Machine

def defaultSearchPath : String := "/bin:/usr/bin"

/-- The search path that a command is looked for with. -/
def searchPathFor (m : Machine) (c : Command) : String :=
  if c.decides "PATH" then (c.envValue? "PATH").getD defaultSearchPath else m.searchPath

/-- The paths at which a search path looks for a name. An empty piece is the starting directory. -/
def places (searchPath name : String) : List String :=
  (searchPath.toList.splitOnP (· == ':')).map fun dir =>
    if dir = [] then name else String.ofList dir ++ "/" ++ name

/-- The paths at which the program of a command is looked for. -/
def candidates (m : Machine) (c : Command) : List String :=
  if c.program = "" then []
  else if c.program.toList.contains '/' then [c.program]
  else places (m.searchPathFor c) c.program

/-- The directory that a command starts in. -/
def directory? (m : Machine) (c : Command) : Option Location :=
  match c.directory with
  | none => some m.storage.layout.home
  | some path => m.storage.directory? path

/-- The program at a path from a directory. -/
def programAt (m : Machine) (dir : Location) (path : String) : Option Program :=
  match (m.storage.seenFrom dir).locate path with
  | .ok (l, _) => m.program? l
  | .error _ => none

/-- The program of a command and the directory it starts in, if it can be started. -/
def launch? (m : Machine) (c : Command) : Option (Program × Location) :=
  if c.isReady then
    match m.directory? c with
    | none => none
    | some dir => ((m.candidates c).findSome? (m.programAt dir)).map (·, dir)
  else none

end Machine

end Clausal
