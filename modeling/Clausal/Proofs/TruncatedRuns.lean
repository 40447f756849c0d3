import Clausal.Proofs.SolverRuns

/-!
# Assignments cut to a model

A run gives the assignment that is read from the output of the program, cut to the variables of the
model. A shorter one is left as it is, and so is every assignment if the model has no variable at
all, which is the one case in which the outcome can exceed the model (`run_cuts`).
-/

namespace Clausal

namespace Assignment

theorem size_truncate (a : Assignment) (v : Var) :
    (a.truncate v).size = min a.size (v.index + 1) := by
  unfold truncate size
  rw [Array.take_eq_extract, Array.size_extract]
  omega

theorem value_truncate (a : Assignment) (v w : Var) :
    (a.truncate v).value w = if w.index ≤ v.index then a.value w else .dontCare := by
  rw [value_eq_getD, value_eq_getD, truncate, Array.take_eq_extract, Array.getElem?_extract]
  by_cases h : w.index ≤ v.index
  · by_cases hs : w.index < a.values.size
    · rw [if_pos h, if_pos (by omega), Nat.zero_add]
    · rw [if_pos h, if_neg (by omega), Array.getElem?_eq_none (by omega)]
  · rw [if_neg h, if_neg (by omega)]
    rfl

end Assignment

namespace ExternalSolver

variable {s : ExternalSolver} {model : Model} {m : Machine} {bs : Bytes} {r : Reply}

/-! ## Cutting -/

theorem size_fitTo (a : Assignment) (n : Nat) :
    (fitTo a n).size = if n = 0 then a.size else min a.size n := by
  unfold fitTo
  by_cases hn : n = 0
  · rw [if_pos (.inr hn), if_pos hn]
  · rw [if_neg hn]
    split
    · omega
    · rw [Assignment.size_truncate]
      dsimp only
      omega

/-- Cutting leaves the variables of the model alone. -/
theorem value_fitTo {n : Nat} {v : Var} (hv : v.index < n) (a : Assignment) :
    (fitTo a n).value v = a.value v := by
  unfold fitTo
  split
  · rfl
  · rw [Assignment.value_truncate]
    exact if_pos (by dsimp only; omega)

/-! ## Where an answer comes from -/

/-- The call starts the program, which ends well, and its output is read as the reply. -/
structure Replies (s : ExternalSolver) (bs : Bytes) (m : Machine) (p : Program) (o : Outlet)
    (inv : Invocation) (r : Reply) : Prop where
  started : (s.call bs m).started = some inv
  launched : m.launch? inv.command = some (p, inv.directory)
  exit : (p inv).exit.fault? = none
  read : Reply.read (o.received (p inv).stdout) = .ok r

/-- Whatever the system refuses, an arm that gives a reply read it from the output and accepted the
exit. -/
theorem ending_eq_ok {st : Storage} {o : Outlet} {t : Termination} (ho : s.openOutput st = .ok o)
    (h : s.ending m (o.after t.stdout) t = .ok r) :
    Reply.read (o.received t.stdout) = .ok r ∧ t.exit.fault? = none := by
  have hreopen {path : String} (hout : s.output = .file path) {output : Bytes}
      (hopen : reopen path (o.after t.stdout) = .ok output) : o.received t.stdout = output := by
    rw [reopen_after ho hout] at hopen
    exact Except.ok.inj hopen
  unfold ending at h
  split at h
  · next hout =>
    obtain ⟨-, -, -, output, hopen, hread, hexit⟩ := pipeToFile_eq_ok_iff.mp h
    exact ⟨hreopen hout hopen ▸ hread, hexit⟩
  · next hout =>
    obtain ⟨-, -, -, -, -, hread, hexit⟩ := pipeToPipe_eq_ok_iff.mp h
    rw [received_of_pipe ho hout]
    exact ⟨hread, hexit⟩
  · next hout _ =>
    obtain ⟨-, -, output, hopen, hread, hexit⟩ := fileToFile_eq_ok_iff.mp h
    exact ⟨hreopen hout hopen ▸ hread, hexit⟩
  · next hout _ =>
    obtain ⟨-, -, -, hread, hexit⟩ := fileToPipe_eq_ok_iff.mp h
    rw [received_of_pipe ho hout]
    exact ⟨hread, hexit⟩

/-- A call that gives a reply read it from the output of the program. -/
theorem exists_replies (h : (s.call bs m).result = .ok r) :
    ∃ d p o inv, s.deliver bs m = .ok d ∧ s.openOutput d.storage = .ok o ∧
      s.Replies bs m p o inv r := by
  have hcourse := s.call_course bs m
  generalize hc : s.call bs m = c at h hcourse
  cases hcourse with
  | undelivered hd => cases h
  | unopened hd ho => cases h
  | unstarted hd ho hl => cases h
  | @ended d o p dir t hd ho hl ht =>
    subst ht
    obtain ⟨hread, hexit⟩ := ending_eq_ok ho (afterRemoval_eq_ok h)
    exact ⟨d, p, o, s.invocation bs d o dir, hd, ho, by rw [hc], hl, hexit, hread⟩

theorem solve_eq_ok {c : Call} (h : s.solve model m = .ok c) :
    c = s.call (instanceBytes model) m := by
  unfold solve at h
  dsimp only at h
  split at h
  · injection h with h
    exact h.symm
  · split at h
    · injection h with h
      exact h.symm
    · cases h

/-! ## A machine with one program -/

/-- Files with one program. -/
def soleStorage : Storage :=
  ⟨⟨[(.ofText "/bin", .directory), (.ofText "/bin/solver", .file [])], [], [], .root⟩, []⟩

/-- A machine with that program. -/
def soleMachine (p : Program) : Machine where
  storage := soleStorage
  program? l := if l = .ofText "/bin/solver" then some p else none
  searchPath := ""
  temp := .ofText "/instance.cnf"

/-- A machine whose only program leaves the same whatever it is given. -/
def soleProgram (t : Termination) : Machine := soleMachine fun _ => t

/-- The command that names the program by its path. -/
def soleCommand : Command := ⟨"/bin/solver", [], [], none⟩

theorem launch?_soleMachine (p : Program) {c : Command} {dir : Location} (hr : c.isReady = true)
    (hp : c.program = "/bin/solver") (hd : (soleMachine p).directory? c = some dir)
    (hl : (soleStorage.seenFrom dir).locate "/bin/solver" =
      .ok (.ofText "/bin/solver", .file [])) : (soleMachine p).launch? c = some (p, dir) := by
  refine Machine.launch?_of_path (l := .ofText "/bin/solver") (n := .file []) hr ?_ hd ?_ ?_
  · rw [hp]
    decide +kernel
  · rw [hp]
    exact hl
  · show (if Location.ofText "/bin/solver" = .ofText "/bin/solver" then some p else none) = some p
    exact if_pos rfl

theorem launch?_soleProgram (t : Termination) {c : Command} (hr : c.isReady = true)
    (hp : c.program = "/bin/solver") (hd : c.directory = none) :
    (soleProgram t).launch? c = some (fun _ => t, .root) := by
  refine launch?_soleMachine _ hr hp ?_ (by decide +kernel)
  unfold Machine.directory?
  rw [hd]
  rfl

theorem run_soleProgram {text : List Char} (t : Termination)
    (htext : instanceText model = .ok text) (hr : answer t.stdout t.exit = .ok r) :
    ∃ c, (ofCommand soleCommand).run model (soleProgram t) =
      .ok (outcome model.varCount (.ok r), c) := by
  have hready : (soleCommand.sanitized.withInstance (Location.ofText "/instance.cnf").text
      .last).isReady = true := by decide +kernel
  have htemp : (soleStorage.seenFrom .root).locateNew (Location.ofText "/instance.cnf").text =
      .ok (.ofText "/instance.cnf") := by decide +kernel
  have hf := faultless_ofCommand (m := soleProgram t)
    (launch?_soleProgram t hready rfl rfl) rfl htemp (utf8Encode text)
  refine ⟨(ofCommand soleCommand).call (utf8Encode text) (soleProgram t), ?_⟩
  unfold run
  rw [solve_eq htext]
  show Except.ok (outcome model.varCount (Call.result _), _) = _
  rw [hf.call_result, hr]

/-! ## Runs -/

theorem outcome_eq_sat_iff {n : Nat} {result : Except CallError Reply} {a : Assignment} :
    outcome n result = .sat a ↔ ∃ b, result = .ok (.sat b) ∧ fitTo b n = a := by
  unfold outcome
  split <;> simp

/-- The assignment of a run is the one in the output of the program as far as the variables of the
model go. It covers no more than these if and only if there are any or the output has none. -/
theorem run_cuts {a : Assignment} {c : Call} (h : s.run model m = .ok (.sat a, c)) :
    c = s.call (instanceBytes model) m ∧ ∃ d p o inv b,
      s.deliver (instanceBytes model) m = .ok d ∧ s.openOutput d.storage = .ok o ∧
      s.Replies (instanceBytes model) m p o inv (.sat b) ∧
      (∀ v, v.index < model.varCount → a.value v = b.value v) ∧
      a.size = (if model.varCount = 0 then b.size else min b.size model.varCount) ∧
      (a.size ≤ model.varCount ↔ 0 < model.varCount ∨ b.size = 0) := by
  obtain ⟨c', hc', heq⟩ := map_ok_iff.mp h
  injection heq with hout hcall
  subst hcall
  obtain rfl := solve_eq_ok hc'
  obtain ⟨b, hb, rfl⟩ := outcome_eq_sat_iff.mp hout
  obtain ⟨d, p, o, inv, hd, ho, hreplies⟩ := exists_replies hb
  refine ⟨rfl, d, p, o, inv, b, hd, ho, hreplies, fun v hv => value_fitTo hv b,
    size_fitTo b model.varCount, ?_⟩
  rw [size_fitTo]
  split <;> omega

/-- A report of five variables for a model of three. -/
theorem run_cuts_longer : ∃ model a c,
    Model.empty.addClause ⟨[Var.pos ⟨0⟩, Var.pos ⟨1⟩, Var.pos ⟨2⟩]⟩ = .ok model ∧
      (ofCommand soleCommand).run model
        (soleProgram ⟨utf8Encode "v 1 -2 3 4 5 0\n".toList, .code 10⟩) = .ok (.sat a, c) ∧
      model.varCount = 3 ∧ a.size ≤ model.varCount := by
  obtain ⟨model, hmodel, hcount, text, htext⟩ : ∃ model,
      Model.empty.addClause ⟨[Var.pos ⟨0⟩, Var.pos ⟨1⟩, Var.pos ⟨2⟩]⟩ = .ok model ∧
        model.varCount = 3 ∧ ∃ text, instanceText model = .ok text :=
    ⟨_, rfl, rfl, _, rfl⟩
  have hr : answer (utf8Encode "v 1 -2 3 4 5 0\n".toList) (.code 10) =
      .ok (.sat ⟨#[.true, .false, .true, .true, .true]⟩) := by decide +kernel
  obtain ⟨c, hc⟩ := run_soleProgram ⟨utf8Encode "v 1 -2 3 4 5 0\n".toList, .code 10⟩ htext hr
  obtain ⟨-, _, _, _, _, _, -, -, -, -, -, hiff⟩ := run_cuts hc
  exact ⟨model, _, c, hmodel, hc, hcount, hiff.mpr (.inl (by rw [hcount]; decide))⟩

/-- A model without variables leaves the report as it is. -/
theorem run_without_variables : ∃ a c,
    (ofCommand soleCommand).run Model.empty
      (soleProgram ⟨utf8Encode "v -3 2 -1 0\n".toList, .code 0⟩) = .ok (.sat a, c) ∧
      Model.empty.varCount < a.size := by
  obtain ⟨text, htext⟩ : ∃ text, instanceText Model.empty = .ok text := ⟨_, rfl⟩
  have hr : answer (utf8Encode "v -3 2 -1 0\n".toList) (.code 0) =
      .ok (.sat ⟨#[.false, .true, .false]⟩) := by decide +kernel
  obtain ⟨c, hc⟩ := run_soleProgram ⟨utf8Encode "v -3 2 -1 0\n".toList, .code 0⟩ htext hr
  exact ⟨⟨#[.false, .true, .false]⟩, c, hc, by decide⟩

end ExternalSolver

end Clausal
