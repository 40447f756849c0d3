import Clausal.Model.File
import Clausal.Solver.Machine
import Clausal.Solver.Outcome

/-!
# External solvers

A solver is a program that gets an instance by a file or by its input, and answers by its output,
which goes to a file or through a pipe. A call is a function of the storage and of the programs: it
gives the answer, the storage after the call, and what the program was started with.

A weighted model is handed over as a weighted instance, any other as an unweighted one. There are
four arms, for an instance in a file or a pipe and an output in a file or a pipe. Each goes through
the steps in an order of its own, which says what is reported if several of them fail.
-/

namespace Clausal

/-- How the instance reaches the solver. -/
inductive InputVia
  /-- By a file that is kept. -/
  | file (path : String) (position : ArgPosition)
  /-- By a file that is removed after the call. -/
  | tempFile (position : ArgPosition)
  /-- By the input of the process. -/
  | pipe
deriving DecidableEq

/-- How the output of the solver is read. -/
inductive OutputVia
  /-- From a file that is kept. -/
  | file (path : String)
  /-- From the output of the process. -/
  | pipe
deriving DecidableEq

/-- A solver that is called as a process. -/
structure ExternalSolver where
  command : Command
  input : InputVia
  output : OutputVia
deriving DecidableEq

/-- What a call leaves: the answer, the files, and the start of the process if there was one. -/
structure Call where
  result : Except CallError Reply
  storage : Storage
  started : Option Invocation

/-- The error of an exit that solvers do not use. -/
def Exit.fault? : Exit → Option CallError
  | code n => if n = 0 ∨ n = 10 ∨ n = 20 then none else some (.badExit n)
  | signal => some .killed

namespace ExternalSolver

/-- The solver that gets a temporary file as its last argument and answers through a pipe. -/
def ofCommand (c : Command) : ExternalSolver := ⟨c, .tempFile .last, .pipe⟩

/-- The path beside the instance that takes the output. -/
def resultPathFor (path : String) : String :=
  String.ofList (Path.withExtension path.toList "sol".toList)

/-- The solver that gets a file as its last argument and answers in a file beside it. -/
def withInstanceFile (c : Command) (path : String) : ExternalSolver :=
  ⟨c, .file path .last, .file (resultPathFor path)⟩

/-- The path of the file that takes the output. -/
def resultPath? (s : ExternalSolver) : Option String :=
  match s.output with
  | .file path => some path
  | .pipe => none

/-! ## Handing over the instance -/

/-- The instance of a model as far as it can be written. -/
def instanceDraft (m : Model) : Dimacs.Draft := if m.isWeighted then m.wcnfDraft else m.cnfDraft

/-- The text that is handed to a solver. -/
def instanceText (m : Model) : Except Violation (List Char) := (instanceDraft m).whole

/-- A file with the instance, as it is named to the process. -/
structure InstanceFile where
  path : String
  position : ArgPosition
  location : Location

/-- Where the instance lies before the process starts. -/
structure Delivery where
  storage : Storage
  file? : Option InstanceFile

/-- Puts the instance where the solver reads it, if that is a file. -/
def deliver (s : ExternalSolver) (bs : Bytes) (m : Machine) : Except CallError Delivery :=
  match s.input with
  | .file path position =>
    match m.storage.create path with
    | .error e => .error (.file e)
    | .ok (l, st) =>
      match st.write l bs with
      | .error _ => .error (.writeInstance path)
      | .ok st => .ok ⟨st, some ⟨path, position, l⟩⟩
  | .tempFile position =>
    match m.faults.make, m.faults.fill with
    | some e, _ => .error (.file e)
    | none, some e => .error (.file e)
    | none, none => .ok ⟨m.storage.put m.temp bs, some ⟨m.temp.text, position, m.temp⟩⟩
  | .pipe => .ok ⟨m.storage, none⟩

/-- Removes the temporary file, if there is one and it can be removed. -/
def cleanUp (s : ExternalSolver) (m : Machine) (st : Storage) : Storage :=
  match s.input, m.faults.remove with
  | .tempFile _, none => st.remove m.temp
  | _, _ => st

/-! ## Taking the output -/

/-- The files after the output was opened, and where it goes if it goes to a file. -/
structure Outlet where
  storage : Storage
  location? : Option Location

/-- Opens a file that takes the output. -/
def Outlet.toFile (path : String) (st : Storage) : Except CallError Outlet :=
  match st.create path with
  | .error e => .error (.file e)
  | .ok (l, st) => .ok ⟨st, some l⟩

/-- The outlet to a pipe. -/
def Outlet.toPipe (st : Storage) : Outlet := ⟨st, none⟩

/-- Opens what takes the output. -/
def openOutput (s : ExternalSolver) (st : Storage) : Except CallError Outlet :=
  match s.output with
  | .file path => Outlet.toFile path st
  | .pipe => .ok (.toPipe st)

/-- The files after the process wrote its output. -/
def Outlet.after (o : Outlet) (stdout : Bytes) : Storage :=
  match o.location? with
  | some l => (o.storage.write l stdout).toOption.getD o.storage
  | none => o.storage

/-- The output that is there to be read: what the file holds, or what came through the pipe. -/
def Outlet.received (o : Outlet) (stdout : Bytes) : Bytes :=
  match o.location? with
  | some l => (o.after stdout).contentAt l
  | none => stdout

/-- Opens the file of the output again and reads it. -/
def reopen (path : String) (st : Storage) : Except CallError Bytes :=
  match st.locate path with
  | .error e => .error (.file e)
  | .ok (_, n) => (Storage.contentOf n).mapError fun e => .reply (.file e)

/-! ## Steps of a call -/

/-- Fails if the system refuses the step, with the error that the refusal causes. -/
def attempt (refusal? : Option FileError) (error : FileError → CallError) : Except CallError Unit :=
  match refusal? with
  | some e => .error (error e)
  | none => .ok ()

/-- Reads the answer of the solver, as far as it can be read. -/
def parse (f : Faults) (output : Bytes) : Except CallError Reply :=
  match f.read with
  | some e => .error (.reply (.file e))
  | none => (Reply.read output).mapError .reply

/-- Reads the answer from a pipe, and the pipe to its end. -/
def parseAndDrain (f : Faults) (output : Bytes) : Except CallError Reply := do
  let reply ← parse f output
  attempt f.drain fun _ => .undrained
  return reply

/-- What a thread makes of a computation. -/
def joined {α : Type} (f : Faults) (result : α) : Except CallError α :=
  if f.thread then .error .readerBroke else .ok result

/-- Accepts the exits that solvers use. -/
def checkExit (e : Exit) : Except CallError Unit :=
  match e.fault? with
  | some e => .error e
  | none => .ok ()

/-! ## Ends of a call

What is made of a process that has been started. The result of a step that is only looked at later
is kept until then. -/

/-- The instance is in a file, the output in another one: a single step runs the process. -/
def fileToFile (f : Faults) (program path : String) (st : Storage) (t : Termination) :
    Except CallError Reply := do
  attempt f.wait fun _ => .start .run program
  let output ← reopen path st
  let reply ← parse f output
  checkExit t.exit
  return reply

/-- The instance is in a file, and the output is read while the process runs. -/
def fileToPipe (f : Faults) (t : Termination) : Except CallError Reply := do
  let output := parseAndDrain f t.stdout
  attempt f.wait .file
  let reply ← output
  checkExit t.exit
  return reply

/-- The instance is written while the process runs, and the output is in a file. -/
def pipeToFile (f : Faults) (path : String) (st : Storage) (t : Termination) :
    Except CallError Reply := do
  let written := attempt f.feed .file
  attempt f.wait .file
  written
  let output ← reopen path st
  let reply ← parse f output
  checkExit t.exit
  return reply

/-- The instance is written while a thread reads the output. -/
def pipeToPipe (f : Faults) (t : Termination) : Except CallError Reply := do
  let written := attempt f.feed .file
  let output := joined f (parseAndDrain f t.stdout)
  attempt f.wait .file
  let reply ← (← output)
  written
  checkExit t.exit
  return reply

/-! ## Calls -/

/-- How the process is started. -/
def startMode (s : ExternalSolver) : StartMode :=
  match s.input, s.output with
  | .pipe, _ => .spawn
  | _, .file _ => .run
  | _, .pipe => .spawn

/-- The command of a call. -/
def commandFor (s : ExternalSolver) : Option InstanceFile → Command
  | none => s.command.sanitized
  | some f => s.command.sanitized.withInstance f.path f.position

/-- Starts a process and goes on with the files that it leaves. -/
def launching (mode : StartMode) (command : Command) (h : Handover) (o : Outlet) (m : Machine)
    (go : Storage → Termination → Except CallError Reply) : Call :=
  match m.launch? command with
  | none => ⟨.error (.start mode command.program), o.storage, none⟩
  | some (program, dir) =>
    let i : Invocation := ⟨command, dir, o.storage, h⟩
    let t := program i
    ⟨go (o.after t.stdout) t, o.after t.stdout, some i⟩

/-- Opens a file for the output and goes on. -/
def capturing (path : String) (st : Storage) (go : Outlet → Call) : Call :=
  match Outlet.toFile path st with
  | .error e => ⟨.error e, st, none⟩
  | .ok o => go o

/-- Calls the solver with an instance that is in a file. -/
def callOnFile (s : ExternalSolver) (f : InstanceFile) (st : Storage) (m : Machine) : Call :=
  let command := s.commandFor (some f)
  match s.output with
  | .file path =>
    capturing path st fun o =>
      launching .run command (.named f.path) o m fun st t =>
        fileToFile m.faults command.program path st t
  | .pipe =>
    launching .spawn command (.named f.path) (.toPipe st) m fun _ t => fileToPipe m.faults t

/-- Calls the solver with an instance that goes through a pipe. -/
def callPiped (s : ExternalSolver) (bs : Bytes) (m : Machine) : Call :=
  let command := s.commandFor none
  match s.output with
  | .file path =>
    capturing path m.storage fun o =>
      launching .spawn command (.piped bs) o m fun st t => pipeToFile m.faults path st t
  | .pipe =>
    launching .spawn command (.piped bs) (.toPipe m.storage) m fun _ t => pipeToPipe m.faults t

/-- What comes of a result when the temporary file is removed. If that fails, it is reported unless
something else is. -/
def afterRemoval (s : ExternalSolver) (f : Faults) (result : Except CallError Reply) :
    Except CallError Reply :=
  match s.input with
  | .tempFile _ => do
    let reply ← result
    attempt f.remove .file
    return reply
  | _ => result

/-- Removes the temporary file when the call is over. -/
def closing (s : ExternalSolver) (m : Machine) (c : Call) : Call :=
  ⟨s.afterRemoval m.faults c.result, s.cleanUp m c.storage, c.started⟩

/-- Hands an instance to the solver. -/
def call (s : ExternalSolver) (bs : Bytes) (m : Machine) : Call :=
  match s.deliver bs m with
  | .error e => ⟨.error e, m.storage, none⟩
  | .ok d =>
    match d.file? with
    | none => s.callPiped bs m
    | some f => s.closing m (s.callOnFile f d.storage m)

/-- Whether writing to a place that refuses it fails at the latest with the given bytes, if more are
to come. -/
def refuses (refusal? : Option FileError) (bs : Bytes) : Bool :=
  refusal?.isSome && bs.length > Storage.bufferSize

/-- Whether the call fails at the latest when it has the given bytes and asks for no more. -/
def failsBy (s : ExternalSolver) (bs : Bytes) (m : Machine) : Bool :=
  match s.input with
  | .file path _ =>
    match m.storage.create path with
    | .error _ => true
    | .ok (l, st) => st.chokes l bs
  | .tempFile _ => m.faults.make.isSome || refuses m.faults.fill bs
  | .pipe =>
    !(s.openOutput m.storage).isOk || (m.launch? (s.commandFor none)).isNone
      || refuses m.faults.feed bs

/-- Solves a model. A literal without a number violates the contract if the call gets that far. -/
def solve (s : ExternalSolver) (model : Model) (m : Machine) : Except Violation Call :=
  let d := instanceDraft model
  let bs := utf8Encode d.text
  match d.fault with
  | none => .ok (s.call bs m)
  | some v => if s.failsBy bs m then .ok (s.call bs m) else .error v

/-- A writable model is handed over by its text. -/
theorem solve_eq {s : ExternalSolver} {model : Model} {m : Machine} {text : List Char}
    (h : instanceText model = .ok text) : s.solve model m = .ok (s.call (utf8Encode text) m) := by
  obtain ⟨hf, rfl⟩ := Dimacs.Draft.whole_eq_ok.1 h
  simp [solve, hf]

/-- The assignment cut to the variables of a model, unless it covers fewer or there are none. -/
def fitTo (a : Assignment) (n : Nat) : Assignment :=
  if a.size < n ∨ n = 0 then a else a.truncate ⟨n - 1⟩

/-- The outcome of an answer for a model with `n` variables. -/
def outcome (n : Nat) : Except CallError Reply → Outcome
  | .ok (.sat a) => .sat (fitTo a n)
  | .ok .unsat => .unsat
  | .ok .unknown => .failure .undecided
  | .error e => .failure e

/-- Solves a model and classifies the answer. -/
def run (s : ExternalSolver) (model : Model) (m : Machine) : Except Violation (Outcome × Call) :=
  (s.solve model m).map fun c => (outcome model.varCount c.result, c)

end ExternalSolver

end Clausal
