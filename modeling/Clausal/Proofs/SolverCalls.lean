import Clausal.Proofs.StoredFiles
import Clausal.Solver.External

/-!
# Calls of a solver

The four arms of a call differ in the order of their steps, and so in what they report if the system
refuses several of them. If it refuses none they agree: each makes of a process what its output and
its exit say (`ending_eq`). So a call that meets no failure of the system, however the instance goes
and the output comes, starts the program with the same bytes, and its result is the answer of the
program to these (`Faultless.call_result`).
-/

namespace Clausal

/-- A program that is named by its path is started from there. -/
theorem Machine.launch?_of_path {m : Machine} {c : Command} {p : Program} {dir l : Location}
    {n : Node} (hr : c.isReady = true) (hpath : c.program.toList.contains '/' = true)
    (hd : m.directory? c = some dir)
    (hl : (m.storage.seenFrom dir).locate c.program = .ok (l, n)) (hp : m.program? l = some p) :
    m.launch? c = some (p, dir) := by
  have hname : c.program ≠ "" := by
    intro h
    rw [h] at hpath
    cases hpath
  have hat : m.programAt dir c.program = some p := by
    unfold programAt
    rw [hl]
    exact hp
  unfold launch? candidates
  rw [if_pos hr, if_neg hname, if_pos hpath, hd]
  simp only [List.findSome?_cons, hat]
  rfl

/-- The answer of a process that has ended: its output counts before its exit. -/
def answer (output : Bytes) (exit : Exit) : Except CallError Reply :=
  match Reply.read output with
  | .error e => .error (.reply e)
  | .ok r =>
    match exit.fault? with
    | some e => .error e
    | none => .ok r

namespace ExternalSolver

variable {s : ExternalSolver} {f : Faults} {m : Machine} {bs output : Bytes} {path program : String}
  {st : Storage} {t : Termination} {r : Reply} {e : FileError}

/-! ## Steps -/

theorem attempt_eq_ok_iff {refusal? : Option FileError} {error : FileError → CallError} {u : Unit} :
    attempt refusal? error = .ok u ↔ refusal? = none := by
  cases refusal? <;> simp [attempt]

theorem parse_eq_ok_iff : parse f output = .ok r ↔ f.read = none ∧ Reply.read output = .ok r := by
  unfold parse
  cases f.read with
  | some e => simp
  | none =>
    cases Reply.read output with
    | error e =>
      show Except.error (CallError.reply e) = .ok r ↔ _
      simp
    | ok q =>
      show Except.ok q = .ok r ↔ _
      simp

theorem parseAndDrain_eq_ok_iff : parseAndDrain f output = .ok r ↔
    f.read = none ∧ f.drain = none ∧ Reply.read output = .ok r := by
  unfold parseAndDrain
  simp only [bind_ok_iff, parse_eq_ok_iff, attempt_eq_ok_iff]
  constructor
  · rintro ⟨q, ⟨hread, hq⟩, -, hdrain, heq⟩
    obtain rfl := Except.ok.inj heq
    exact ⟨hread, hdrain, hq⟩
  · rintro ⟨hread, hdrain, hr⟩
    exact ⟨r, ⟨hread, hr⟩, (), hdrain, rfl⟩

theorem joined_eq_ok_iff {α : Type} {x y : α} : joined f x = .ok y ↔ f.thread = false ∧ x = y := by
  cases h : f.thread <;> simp [joined, h]

theorem checkExit_eq_ok_iff {x : Exit} {u : Unit} : checkExit x = .ok u ↔ x.fault? = none := by
  unfold checkExit
  cases x.fault? <;> simp

/-! ## Arms -/

theorem fileToFile_eq_ok_iff : fileToFile f program path st t = .ok r ↔
    f.wait = none ∧ f.read = none ∧ ∃ output, reopen path st = .ok output ∧
      Reply.read output = .ok r ∧ t.exit.fault? = none := by
  unfold fileToFile
  simp only [bind_ok_iff, parse_eq_ok_iff, attempt_eq_ok_iff, checkExit_eq_ok_iff]
  constructor
  · rintro ⟨-, hwait, output, hopen, q, ⟨hread, hq⟩, -, hexit, heq⟩
    obtain rfl := Except.ok.inj heq
    exact ⟨hwait, hread, output, hopen, hq, hexit⟩
  · rintro ⟨hwait, hread, output, hopen, hr, hexit⟩
    exact ⟨(), hwait, output, hopen, r, ⟨hread, hr⟩, (), hexit, rfl⟩

theorem fileToPipe_eq_ok_iff : fileToPipe f t = .ok r ↔
    f.wait = none ∧ f.read = none ∧ f.drain = none ∧ Reply.read t.stdout = .ok r ∧
      t.exit.fault? = none := by
  unfold fileToPipe
  simp only [bind_ok_iff, parseAndDrain_eq_ok_iff, attempt_eq_ok_iff, checkExit_eq_ok_iff]
  constructor
  · rintro ⟨-, hwait, q, ⟨hread, hdrain, hq⟩, -, hexit, heq⟩
    obtain rfl := Except.ok.inj heq
    exact ⟨hwait, hread, hdrain, hq, hexit⟩
  · rintro ⟨hwait, hread, hdrain, hr, hexit⟩
    exact ⟨(), hwait, r, ⟨hread, hdrain, hr⟩, (), hexit, rfl⟩

theorem pipeToFile_eq_ok_iff : pipeToFile f path st t = .ok r ↔
    f.wait = none ∧ f.feed = none ∧ f.read = none ∧ ∃ output, reopen path st = .ok output ∧
      Reply.read output = .ok r ∧ t.exit.fault? = none := by
  unfold pipeToFile
  simp only [bind_ok_iff, parse_eq_ok_iff, attempt_eq_ok_iff, checkExit_eq_ok_iff]
  constructor
  · rintro ⟨-, hwait, -, hfeed, output, hopen, q, ⟨hread, hq⟩, -, hexit, heq⟩
    obtain rfl := Except.ok.inj heq
    exact ⟨hwait, hfeed, hread, output, hopen, hq, hexit⟩
  · rintro ⟨hwait, hfeed, hread, output, hopen, hr, hexit⟩
    exact ⟨(), hwait, (), hfeed, output, hopen, r, ⟨hread, hr⟩, (), hexit, rfl⟩

theorem pipeToPipe_eq_ok_iff : pipeToPipe f t = .ok r ↔
    f.wait = none ∧ f.feed = none ∧ f.thread = false ∧ f.read = none ∧ f.drain = none ∧
      Reply.read t.stdout = .ok r ∧ t.exit.fault? = none := by
  unfold pipeToPipe
  simp only [bind_ok_iff, joined_eq_ok_iff, attempt_eq_ok_iff, checkExit_eq_ok_iff]
  constructor
  · rintro ⟨-, hwait, _, ⟨hthread, rfl⟩, q, hq, -, hfeed, -, hexit, heq⟩
    obtain rfl := Except.ok.inj heq
    obtain ⟨hread, hdrain, hq⟩ := parseAndDrain_eq_ok_iff.mp hq
    exact ⟨hwait, hfeed, hthread, hread, hdrain, hq, hexit⟩
  · rintro ⟨hwait, hfeed, hthread, hread, hdrain, hr, hexit⟩
    exact ⟨(), hwait, _, ⟨hthread, rfl⟩, r, parseAndDrain_eq_ok_iff.mpr ⟨hread, hdrain, hr⟩, (),
      hfeed, (), hexit, rfl⟩

/-- Without an end to wait for there is no answer, whatever the output says. -/
theorem wait_refused (h : f.wait = some e) :
    fileToFile f program path st t = .error (.start .run program) ∧
      fileToPipe f t = .error (.file e) ∧ pipeToFile f path st t = .error (.file e) ∧
      pipeToPipe f t = .error (.file e) := by
  simp only [fileToFile, fileToPipe, pipeToFile, pipeToPipe, attempt, h]
  exact ⟨rfl, rfl, rfl, rfl⟩

/-- A process that closes its input is reported before what it writes to a file, but after what
comes through a pipe, if that is at fault. -/
theorem feed_refused (hfeed : f.feed = some e) (hwait : f.wait = none)
    (hthread : f.thread = false) :
    pipeToFile f path st t = .error (.file e) ∧
      pipeToPipe f t = parseAndDrain f t.stdout >>= fun _ => .error (.file e) := by
  simp only [pipeToFile, pipeToPipe, attempt, joined, hfeed, hwait, hthread]
  exact ⟨rfl, rfl⟩

/-! ## Arms without refusals -/

/-- What all arms have in common if the system refuses nothing: the output is read, then the exit is
looked at. -/
theorem parse_checkExit (output : Bytes) (x : Exit) :
    (do let reply ← parse {} output; checkExit x; return reply) = answer output x := by
  unfold parse checkExit answer
  cases Reply.read output with
  | error e => rfl
  | ok r => cases x.fault? <;> rfl

theorem parseAndDrain_eq_parse (output : Bytes) : parseAndDrain {} output = parse {} output := by
  unfold parseAndDrain
  cases parse {} output <;> rfl

theorem fileToFile_eq_answer (h : reopen path st = .ok output) :
    fileToFile {} program path st t = answer output t.exit := by
  rw [← parse_checkExit]
  show (reopen path st >>= fun output => _) = _
  rw [h]
  rfl

theorem fileToPipe_eq_answer : fileToPipe {} t = answer t.stdout t.exit := by
  rw [← parse_checkExit, ← parseAndDrain_eq_parse]
  rfl

theorem pipeToFile_eq_answer (h : reopen path st = .ok output) :
    pipeToFile {} path st t = answer output t.exit := by
  rw [← parse_checkExit]
  show (reopen path st >>= fun output => _) = _
  rw [h]
  rfl

theorem pipeToPipe_eq_answer : pipeToPipe {} t = answer t.stdout t.exit := by
  rw [← parse_checkExit, ← parseAndDrain_eq_parse]
  rfl

/-! ## The course of a call -/

/-- What the arm of the solver makes of a process. -/
def ending (s : ExternalSolver) (m : Machine) (st : Storage) (t : Termination) :
    Except CallError Reply :=
  match s.input, s.output with
  | .pipe, .file path => pipeToFile m.faults path st t
  | .pipe, .pipe => pipeToPipe m.faults t
  | _, .file path => fileToFile m.faults s.command.sanitized.program path st t
  | _, .pipe => fileToPipe m.faults t

/-- How the process is given the instance. -/
def handover (bs : Bytes) : Option InstanceFile → Handover
  | none => .piped bs
  | some f => .named f.path

/-- What the process is started with. -/
def invocation (s : ExternalSolver) (bs : Bytes) (d : Delivery) (o : Outlet) (dir : Location) :
    Invocation :=
  ⟨s.commandFor d.file?, dir, o.storage, handover bs d.file?⟩

/-- How a call goes: it stops where the instance cannot be written, the output cannot be opened or
the program does not start, and else it makes what its arm does of the process that has ended. -/
inductive Course (s : ExternalSolver) (bs : Bytes) (m : Machine) : Call → Prop
  | undelivered {e : CallError} (hd : s.deliver bs m = .error e) :
    Course s bs m ⟨.error e, m.storage, none⟩
  | unopened {d : Delivery} {e : CallError} (hd : s.deliver bs m = .ok d)
    (ho : s.openOutput d.storage = .error e) :
    Course s bs m ⟨.error e, s.cleanUp m d.storage, none⟩
  | unstarted {d : Delivery} {o : Outlet} (hd : s.deliver bs m = .ok d)
    (ho : s.openOutput d.storage = .ok o) (hl : m.launch? (s.commandFor d.file?) = none) :
    Course s bs m ⟨.error (.start s.startMode s.command.sanitized.program),
      s.cleanUp m o.storage, none⟩
  | ended {d : Delivery} {o : Outlet} {p : Program} {dir : Location} {t : Termination}
    (hd : s.deliver bs m = .ok d) (ho : s.openOutput d.storage = .ok o)
    (hl : m.launch? (s.commandFor d.file?) = some (p, dir)) (ht : p (s.invocation bs d o dir) = t) :
    Course s bs m ⟨s.afterRemoval m.faults (s.ending m (o.after t.stdout) t),
      s.cleanUp m (o.after t.stdout), some (s.invocation bs d o dir)⟩

/-- A delivery without a file is that to a pipe. -/
theorem file?_eq_none_iff {d : Delivery} (hd : s.deliver bs m = .ok d) :
    d.file? = none ↔ s.input = .pipe := by
  unfold deliver at hd
  split at hd
  · next hin =>
    split at hd
    · cases hd
    split at hd
    · cases hd
    injection hd with hd
    simp [← hd, hin]
  · next hin =>
    split at hd
    · cases hd
    · cases hd
    injection hd with hd
    simp [← hd, hin]
  · next hin =>
    injection hd with hd
    simp [← hd, hin]

/-- Opening the output and starting the process, which all arms do alike. -/
def proceed (s : ExternalSolver) (bs : Bytes) (d : Delivery) (m : Machine) : Call :=
  match s.openOutput d.storage with
  | .error e => ⟨.error e, d.storage, none⟩
  | .ok o => launching s.startMode (s.commandFor d.file?) (handover bs d.file?) o m (s.ending m)

theorem program_commandFor (s : ExternalSolver) (x? : Option InstanceFile) :
    (s.commandFor x?).program = s.command.sanitized.program := by
  cases x? with
  | none => rfl
  | some x =>
    obtain ⟨path, position, l⟩ := x
    cases position <;> rfl

theorem callOnFile_eq_proceed (hin : s.input ≠ .pipe) (x : InstanceFile) (bs : Bytes) :
    s.callOnFile x st m = s.proceed bs ⟨st, some x⟩ m := by
  have hprogram := s.program_commandFor (some x)
  unfold callOnFile
  dsimp only
  rw [hprogram]
  obtain ⟨c, input, output⟩ := s
  cases input with
  | pipe => exact absurd rfl hin
  | file _ _ | tempFile _ => cases output <;> rfl

theorem callPiped_eq_proceed (hin : s.input = .pipe) (bs : Bytes) (m : Machine) :
    s.callPiped bs m = s.proceed bs ⟨m.storage, none⟩ m := by
  obtain ⟨c, input, output⟩ := s
  obtain rfl : input = .pipe := hin
  cases output <;> rfl

theorem closing_of_pipe (hin : s.input = .pipe) (m : Machine) (c : Call) : s.closing m c = c := by
  unfold closing afterRemoval cleanUp
  rw [hin]

/-- Every arm opens the output, starts the process, and removes a temporary file. -/
theorem call_eq_proceed {d : Delivery} (hd : s.deliver bs m = .ok d) :
    s.call bs m = s.closing m (s.proceed bs d m) := by
  unfold call
  rw [hd]
  dsimp only
  obtain ⟨st, x?⟩ := d
  have hfile := file?_eq_none_iff hd
  cases x? with
  | none =>
    have hin := hfile.mp rfl
    have hst : st = m.storage := by
      unfold deliver at hd
      rw [hin] at hd
      injection hd with hd
      injection hd with hd
      exact hd.symm
    rw [closing_of_pipe hin, hst]
    exact callPiped_eq_proceed hin bs m
  | some x =>
    have hin : s.input ≠ .pipe := fun hin => Option.some_ne_none x (hfile.mpr hin)
    rw [← callOnFile_eq_proceed hin x bs]

theorem afterRemoval_error (s : ExternalSolver) (f : Faults) (e : CallError) :
    s.afterRemoval f (.error e) = .error e := by
  unfold afterRemoval
  split <;> rfl

theorem afterRemoval_unrefused (s : ExternalSolver) (result : Except CallError Reply) :
    s.afterRemoval {} result = result := by
  unfold afterRemoval
  split
  · cases result <;> rfl
  · rfl

theorem afterRemoval_eq_ok {result : Except CallError Reply} (h : s.afterRemoval f result = .ok r) :
    result = .ok r := by
  unfold afterRemoval at h
  split at h
  · obtain ⟨q, hq, h⟩ := bind_ok_iff.mp h
    obtain ⟨-, -, h⟩ := bind_ok_iff.mp h
    rw [hq, Except.ok.inj h]
  · exact h

/-- A call that starts the process makes of it what its arm does. -/
theorem call_of_launched {d : Delivery} {o : Outlet} {p : Program} {dir : Location}
    (hd : s.deliver bs m = .ok d) (ho : s.openOutput d.storage = .ok o)
    (hl : m.launch? (s.commandFor d.file?) = some (p, dir))
    (ht : p (s.invocation bs d o dir) = t) : s.call bs m =
      ⟨s.afterRemoval m.faults (s.ending m (o.after t.stdout) t), s.cleanUp m (o.after t.stdout),
        some (s.invocation bs d o dir)⟩ := by
  subst ht
  rw [call_eq_proceed hd, proceed, ho]
  dsimp only
  rw [launching, hl]
  rfl

theorem call_course (s : ExternalSolver) (bs : Bytes) (m : Machine) :
    s.Course bs m (s.call bs m) := by
  cases hd : s.deliver bs m with
  | error e =>
    have hcall : s.call bs m = ⟨.error e, m.storage, none⟩ := by rw [call, hd]
    rw [hcall]
    exact .undelivered hd
  | ok d =>
    cases ho : s.openOutput d.storage with
    | error e =>
      rw [call_eq_proceed hd, proceed, ho, closing, afterRemoval_error]
      exact .unopened hd ho
    | ok o =>
      cases hl : m.launch? (s.commandFor d.file?) with
      | none =>
        rw [call_eq_proceed hd, proceed, ho]
        dsimp only
        rw [launching, hl, closing, afterRemoval_error, program_commandFor]
        exact .unstarted hd ho hl
      | some launched =>
        obtain ⟨p, dir⟩ := launched
        rw [call_of_launched hd ho hl rfl]
        exact .ended hd ho hl rfl

/-- The output file is found again by its path, and what it holds is read. -/
theorem reopen_after {o : Outlet} (ho : s.openOutput st = .ok o) (hout : s.output = .file path)
    (stdout : Bytes) : reopen path (o.after stdout) = .ok (o.received stdout) := by
  unfold openOutput Outlet.toFile at ho
  rw [hout] at ho
  dsimp only at ho
  cases hc : st.create path with
  | error e =>
    rw [hc] at ho
    cases ho
  | ok created =>
    obtain ⟨l, st'⟩ := created
    rw [hc] at ho
    injection ho with ho
    subst ho
    have hholds := Storage.holds_of_create hc
    have hafter : ((Outlet.mk st' (some l)).after stdout).Holds path l := by
      unfold Outlet.after
      dsimp only
      cases hw : st'.write l stdout with
      | error e => exact hholds
      | ok st'' => exact hholds.write hw
    obtain ⟨n, hlocate, hcontent⟩ := hafter.locate_eq
    unfold reopen
    rw [hlocate]
    dsimp only
    rw [hcontent]
    rfl

theorem received_of_pipe {o : Outlet} (ho : s.openOutput st = .ok o) (hout : s.output = .pipe)
    (stdout : Bytes) : o.received stdout = stdout := by
  unfold openOutput at ho
  rw [hout] at ho
  injection ho with ho
  rw [← ho]
  rfl

/-! ## Calls without failures -/

/-- The call meets no failure: the instance is written to a place that keeps it, the output does not
replace it and goes to a place that keeps it too, the program is started and finds the instance, and
the system refuses nothing. -/
structure Faultless (s : ExternalSolver) (bs : Bytes) (m : Machine) (p : Program) (dir : Location)
    (d : Delivery) (o : Outlet) : Prop where
  delivered : s.deliver bs m = .ok d
  opened : s.openOutput d.storage = .ok o
  launched : m.launch? (s.commandFor d.file?) = some (p, dir)
  served : m.faults = {}
  found : ∀ x, d.file? = some x → (o.storage.seenFrom dir).Holds x.path x.location
  instanceKept : ∀ x, d.file? = some x →
    d.storage.node? x.location ≠ some .sink ∧ o.location? ≠ some x.location
  outputKept : ∀ l, o.location? = some l →
    o.storage.node? l ≠ some .sink ∧ o.storage.node? l ≠ some .full

namespace Faultless

variable {p : Program} {dir : Location} {d : Delivery} {o : Outlet}

/-- A file that was delivered holds the instance. -/
theorem node?_file (h : s.Faultless bs m p dir d o) {x : InstanceFile} (hd : d.file? = some x) :
    d.storage.node? x.location = some (.file bs) := by
  have hdel := h.delivered
  have hsink := (h.instanceKept x hd).1
  unfold deliver at hdel
  split at hdel
  · split at hdel
    · cases hdel
    · split at hdel
      · cases hdel
      · next st hw =>
        injection hdel with hdel
        subst hdel
        injection hd with hd
        subst hd
        exact Storage.node?_write hw hsink
  · split at hdel
    · cases hdel
    · cases hdel
    · injection hdel with hdel
      subst hdel
      injection hd with hd
      subst hd
      exact m.storage.node?_put m.temp bs
  · injection hdel with hdel
    subst hdel
    cases hd

/-- Opening the output leaves the file of the instance alone. -/
theorem node?_opened (h : s.Faultless bs m p dir d o) {x : InstanceFile} (hd : d.file? = some x) :
    o.storage.node? x.location = d.storage.node? x.location := by
  have hopen := h.opened
  have hne := (h.instanceKept x hd).2
  unfold openOutput at hopen
  split at hopen
  · unfold Outlet.toFile at hopen
    split at hopen
    · cases hopen
    · next hc =>
      injection hopen with hopen
      subst hopen
      exact Storage.node?_create_of_ne hc fun heq => hne (congrArg some heq.symm)
  · injection hopen with hopen
    subst hopen
    rfl

/-- The process reads the instance. -/
theorem input_eq (h : s.Faultless bs m p dir d o) : (s.invocation bs d o dir).input = bs := by
  unfold invocation Invocation.input handover
  cases hd : d.file? with
  | none => rfl
  | some x =>
    have hnode : (o.storage.seenFrom dir).node? x.location = some (.file bs) :=
      (h.node?_opened hd).trans (h.node?_file hd)
    dsimp only
    rw [(h.found x hd).read_eq, Storage.contentAt, hnode]
    rfl

theorem received_eq (h : s.Faultless bs m p dir d o) (stdout : Bytes) :
    o.received stdout = stdout := by
  unfold Outlet.received
  split
  · next l hl =>
    obtain ⟨hsink, hfull⟩ := h.outputKept l hl
    have hafter : o.after stdout = o.storage.put l stdout := by
      unfold Outlet.after
      rw [hl]
      simp only [Storage.write_eq_put hsink hfull]
      rfl
    rw [hafter, Storage.contentAt_put]
  · rfl

/-- Every arm makes the answer of the process that has ended. -/
theorem ending_eq (h : s.Faultless bs m p dir d o) (t : Termination) :
    s.ending m (o.after t.stdout) t = answer t.stdout t.exit := by
  have hopen (path : String) (hout : s.output = .file path) :
      reopen path (o.after t.stdout) = .ok t.stdout := by
    rw [reopen_after h.opened hout, h.received_eq]
  unfold ending
  rw [h.served]
  split
  · next hout => exact pipeToFile_eq_answer (hopen _ hout)
  · exact pipeToPipe_eq_answer
  · next hout _ => exact fileToFile_eq_answer (hopen _ hout)
  · exact fileToPipe_eq_answer

/-- The result is the answer of the program to the instance. -/
theorem call_result (h : s.Faultless bs m p dir d o) :
    (s.call bs m).result = answer (p (s.invocation bs d o dir)).stdout
      (p (s.invocation bs d o dir)).exit := by
  rw [call_of_launched h.delivered h.opened h.launched rfl]
  dsimp only
  rw [h.ending_eq, h.served, afterRemoval_unrefused]

end Faultless

/-- With a temporary file and a pipe only the start of the program can fail, if the system refuses
nothing and the temporary file can be found. -/
theorem faultless_ofCommand {c : Command} {p : Program} {dir : Location}
    (hl : m.launch? (c.sanitized.withInstance m.temp.text .last) = some (p, dir))
    (hf : m.faults = {}) (ht : (m.storage.seenFrom dir).locateNew m.temp.text = .ok m.temp)
    (bs : Bytes) : (ofCommand c).Faultless bs m p dir
      ⟨m.storage.put m.temp bs, some ⟨m.temp.text, .last, m.temp⟩⟩
      ⟨m.storage.put m.temp bs, none⟩ where
  delivered := by
    unfold deliver
    rw [hf]
    rfl
  opened := rfl
  launched := hl
  served := hf
  found x hx := by
    injection hx with hx
    subst hx
    exact Storage.holds_put ht bs
  instanceKept x hx := by
    injection hx with hx
    rw [← hx, Storage.node?_put]
    exact ⟨nofun, nofun⟩
  outputKept _ hl := by cases hl

end ExternalSolver

end Clausal
