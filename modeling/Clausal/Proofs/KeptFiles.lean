import Clausal.Proofs.FileNames
import Clausal.Proofs.SolverRoutes

/-!
# Files that are kept

A solver with a file for its instance puts the output in a file beside it. The two are kept apart
unless the names are the same, which they are if and only if the instance has the extension of the
output already. Then the file is emptied before the process starts, and in the end it holds the
output only (`withInstanceFile_keeps`).
-/

namespace Clausal

open Clausal.Path

/-! ## Files beside each other -/

namespace Storage

variable {s : Storage} {path : String} {l k base : Location} {dir name : List Char} {slash : Bool}

/-- The directory that a directory part leads to. -/
def dirAt (s : Storage) (dir : List Char) : Except FileError Location :=
  (names dir).foldlM s.enter (if isAbsolute dir then .root else s.layout.home)

/-- The path of a name in a directory. -/
theorem follow_eq_entry (h : s.follow path = .ok (.entry base name slash)) :
    (names path.toList).getLast? = some name ∧ name ≠ ['.'] ∧ name ≠ ['.', '.'] ∧
      slash = endsInSlash path.toList ∧
      (names path.toList).dropLast.foldlM s.enter
        (if isAbsolute path.toList then .root else s.layout.home) = .ok base := by
  unfold follow at h
  dsimp only at h
  split at h
  · cases h
  split at h
  · cases h
  split at h
  · cases h
  split at h
  · cases h
  next last hlast =>
  split at h
  · cases h
  next d hd =>
  split at h
  · cases h
  next hhere =>
  split at h
  · cases h
  next hup =>
  injection h with h
  injection h with hat hname hslash
  subst hat hname hslash
  exact ⟨hlast, hhere, hup, rfl, hd⟩

/-- A path to a new file is a directory part and a file name. -/
theorem locateNew_eq_ok (h : s.locateNew path = .ok l) : ∃ dir name base,
    path.toList = dir ++ name ∧ IsDirPart dir ∧ IsFileName name ∧ s.dirAt dir = .ok base ∧
      l = s.layout.redirect (base.child name) := by
  obtain ⟨base, last, hfollow, hlookup, -⟩ := locateNew_eq_ok_iff.mp h
  have hl : l = s.layout.redirect (base.child last) := by
    unfold lookupName at hlookup
    split at hlookup
    · cases hlookup
    · injection hlookup with hlookup
      exact hlookup.symm
  obtain ⟨hlast, hhere, hup, hslash, hat⟩ := follow_eq_entry hfollow
  obtain ⟨dir, name, hpath, hdir, hname⟩ := exists_dirPart path.toList
  rw [hpath] at hlast hslash hat
  have hne : name ≠ [] := by
    rintro rfl
    rw [List.append_nil] at hslash hlast
    rcases hdir with rfl | ⟨front, rfl⟩
    · cases hlast
    · simp [endsInSlash] at hslash
  rw [names_append hdir hname hne, List.getLast?_concat] at hlast
  injection hlast with hlast
  subst hlast
  rw [names_append hdir hname hne, List.dropLast_concat, isAbsolute_append hname] at hat
  refine ⟨dir, name, base, hpath, hdir, ⟨hne, hname, hhere, hup⟩, hat, hl⟩

/-- The output of an instance goes to a file in the same directory, with the extension replaced. -/
theorem Accepts.beside (hl : s.Accepts path l)
    (hk : s.Accepts (ExternalSolver.resultPathFor path) k) : ∃ (base : Location) (name : List Char),
      extension? path.toList = (splitName name).2 ∧ l = s.layout.redirect (base.child name) ∧
      k = s.layout.redirect (base.child (replaced name "sol".toList)) := by
  obtain ⟨dir, name, base, hpath, hdir, hname, hat, hl⟩ := locateNew_eq_ok hl.located
  obtain ⟨dir', name', base', hpath', hdir', hname', hbase, hk⟩ := locateNew_eq_ok hk.located
  have hsol : IsFileName (replaced name "sol".toList) := hname.replaced (by decide) (by decide)
  -- the result path is a file name, so it is not the step to the parent
  have hparts : dir' = dir ∧ name' = replaced name "sol".toList := by
    have hsplit := hname'.split?_append hdir'
    rw [← hpath', ExternalSolver.resultPathFor, String.toList_ofList, hpath] at hsplit
    rcases withExtension_append hname hdir "sol".toList with heq | heq
    · rw [heq, hsol.split?_append hdir] at hsplit
      injection hsplit with hsplit
      injection hsplit with hdir hname
      exact ⟨hdir.symm, hname.symm⟩
    · rw [heq, split?_up hdir] at hsplit
      cases hsplit
  obtain ⟨rfl, rfl⟩ := hparts
  rw [hat] at hbase
  injection hbase with hbase
  subst hbase
  exact ⟨base, name, by rw [hpath, extension?_append hname hdir], hl, hk⟩

/-- Every link leads to a directory. -/
def LinksLead (s : Storage) : Prop :=
  ∀ x y, s.layout.links.lookup x = some y → s.node? y = some .directory

/-- No link leads to a file. -/
theorem LinksLead.redirect_eq (hlinks : s.LinksLead) {x : Location}
    (h : s.node? (s.layout.redirect x) ≠ some .directory) : s.layout.redirect x = x := by
  unfold Layout.redirect at h ⊢
  cases hx : s.layout.links.lookup x with
  | none => rfl
  | some y =>
    rw [hx] at h
    exact absurd (hlinks x y hx) h

/-- The output has the place of the instance if the instance has the extension of the output. -/
theorem Accepts.eq_of_extension (hl : s.Accepts path l)
    (hk : s.Accepts (ExternalSolver.resultPathFor path) k)
    (hext : extension? path.toList = some "sol".toList) : k = l := by
  obtain ⟨base, name, hname, rfl, rfl⟩ := hl.beside hk
  rw [hname] at hext
  rw [replaced_eq_self_iff.mpr hext]

/-- If links lead to directories only then nothing else makes the two places one. -/
theorem Accepts.extension_of_eq (hlinks : s.LinksLead) (hl : s.Accepts path l)
    (hk : s.Accepts (ExternalSolver.resultPathFor path) k) (heq : k = l) :
    extension? path.toList = some "sol".toList := by
  have hlnode := hl.not_directory
  have hknode := hk.not_directory
  obtain ⟨base, name, hname, rfl, rfl⟩ := hl.beside hk
  rw [hlinks.redirect_eq hlnode, hlinks.redirect_eq hknode] at heq
  have hnames : replaced name "sol".toList = name := by
    injection heq with heq
    exact (List.cons.inj (List.append_cancel_left heq)).1
  rw [hname]
  exact replaced_eq_self_iff.mp hnames

end Storage

/-! ## Calls with two files -/

namespace ExternalSolver

/-- The process of a command, if it can be started, finds the given files and reads its instance at
a location, where the given bytes are, if the path leads there from the directory it starts in. Its
output is kept at another location. -/
structure RanOn (m : Machine) (cmd : Command) (path : String) (files : Storage) (l : Location)
    (bs : Bytes) (k : Location) (c : Call) : Prop where
  started : c.started = (m.launch? cmd).map fun (_, dir) => ⟨cmd, dir, files, .named path⟩
  found : files.node? l = some (.file bs)
  read : ∀ i, c.started = some i → (m.storage.seenFrom i.directory).locateNew path = .ok l →
    i.input = bs
  captured : c.storage.node? k = some (.file
    (((m.launch? cmd).map fun (p, dir) => (p ⟨cmd, dir, files, .named path⟩).stdout).getD []))

theorem RanOn.of_launch {m : Machine} {cmd : Command} {path : String} {files : Storage}
    {l k : Location} {bs : Bytes} {c : Call} (h : RanOn m cmd path files l bs k c) {p : Program}
    {dir : Location} (hp : m.launch? cmd = some (p, dir)) :
    c.started = some ⟨cmd, dir, files, .named path⟩ ∧
      c.storage.node? k = some (.file (p ⟨cmd, dir, files, .named path⟩).stdout) := by
  have hcaptured := h.captured
  rw [hp] at hcaptured
  exact ⟨by rw [h.started, hp]; rfl, hcaptured⟩

variable {c : Command} {m : Machine} {path : String} {l k : Location}

/-- The command of a process that is given an instance at a path. -/
def fileCommand (c : Command) (path : String) : Command := c.sanitized.withInstance path .last

/-- The files before the process starts: the instance was written, then the output was opened. -/
def opened (s : Storage) (l k : Location) (bs : Bytes) : Storage :=
  ((s.put l []).put l bs).put k []

theorem deliver_withInstanceFile (hl : m.storage.Accepts path l) (bs : Bytes) :
    (withInstanceFile c path).deliver bs m =
      .ok ⟨(m.storage.put l []).put l bs, some ⟨path, .last, l⟩⟩ := by
  have hwrite : (m.storage.put l []).write l bs = .ok ((m.storage.put l []).put l bs) :=
    Storage.write_eq_put (by rw [Storage.node?_put]; nofun) (by rw [Storage.node?_put]; nofun) bs
  unfold deliver withInstanceFile
  simp only [hl.create_eq, hwrite]

/-- The output can still be opened when the instance has been written. -/
theorem accepts_written (hl : m.storage.Accepts path l)
    (hk : m.storage.Accepts (resultPathFor path) k) (bs : Bytes) :
    ((m.storage.put l []).put l bs).Accepts (resultPathFor path) k :=
  (hk.put hl.not_directory []).put (Storage.node?_put_ne nofun hl.not_directory) bs

theorem openOutput_withInstanceFile (hl : m.storage.Accepts path l)
    (hk : m.storage.Accepts (resultPathFor path) k) (bs : Bytes) :
    (withInstanceFile c path).openOutput ((m.storage.put l []).put l bs) =
      .ok ⟨opened m.storage l k bs, some k⟩ := by
  unfold openOutput withInstanceFile Outlet.toFile
  simp only [(accepts_written hl hk bs).create_eq]
  rfl

/-- The call starts the process when both files are there, and removes neither. -/
theorem call_withInstanceFile (hl : m.storage.Accepts path l)
    (hk : m.storage.Accepts (resultPathFor path) k) (bs : Bytes) :
    (withInstanceFile c path).call bs m =
      launching .run (fileCommand c path) (.named path) ⟨opened m.storage l k bs, some k⟩ m
        ((withInstanceFile c path).ending m) := by
  rw [call_eq_proceed (deliver_withInstanceFile hl bs), proceed, openOutput_withInstanceFile hl hk]
  rfl

/-- What the process writes is put in the file that was opened for it. -/
theorem after_opened (s : Storage) (l k : Location) (bs out : Bytes) :
    (Outlet.mk (opened s l k bs) (some k)).after out = (opened s l k bs).put k out := by
  have hnode : (opened s l k bs).node? k = some (.file []) := Storage.node?_put _ _ _
  have hwrite : (opened s l k bs).write k out = .ok ((opened s l k bs).put k out) :=
    Storage.write_eq_put (by rw [hnode]; nofun) (by rw [hnode]; nofun) out
  unfold Outlet.after
  simp only [hwrite]
  rfl

/-- The instance is found from elsewhere if its path leads to its place from there. -/
theorem holds_opened (hl : m.storage.Accepts path l)
    (hk : m.storage.Accepts (resultPathFor path) k) {bs found : Bytes} {dir : Location}
    (hfound : (opened m.storage l k bs).node? l = some (.file found))
    (hdir : (m.storage.seenFrom dir).locateNew path = .ok l) :
    ((opened m.storage l k bs).seenFrom dir).Holds path l := by
  have hnode : (m.storage.put l []).node? l ≠ some .directory :=
    Storage.node?_put_ne nofun hl.not_directory
  refine ⟨?_, ?_⟩
  · exact Storage.locateNew_seenFrom_put (accepts_written hl hk bs).not_directory []
      (Storage.locateNew_seenFrom_put hnode bs
        (Storage.locateNew_seenFrom_put hl.not_directory [] hdir))
  · show (opened m.storage l k bs).node? l ≠ none
    rw [hfound]
    nofun

/-- The process finds what is left of the instance when the output has been opened. -/
theorem call_ranOn (hl : m.storage.Accepts path l) (hk : m.storage.Accepts (resultPathFor path) k)
    {bs found : Bytes} (hfound : (opened m.storage l k bs).node? l = some (.file found)) :
    RanOn m (fileCommand c path) path (opened m.storage l k bs) l found k
      ((withInstanceFile c path).call bs m) := by
  rw [call_withInstanceFile hl hk]
  unfold launching
  cases hlaunch : m.launch? (fileCommand c path) with
  | none =>
    refine ⟨by rw [hlaunch]; rfl, hfound, nofun, ?_⟩
    rw [hlaunch]
    exact Storage.node?_put _ _ _
  | some launched =>
    obtain ⟨p, dir⟩ := launched
    refine ⟨by rw [hlaunch]; rfl, hfound, ?_, ?_⟩
    · rintro i ⟨⟩ hdir
      unfold Invocation.input
      dsimp only
      rw [(holds_opened hl hk hfound hdir).read_eq]
      show (opened m.storage l k bs).contentAt l = found
      rw [Storage.contentAt, hfound]
    · rw [hlaunch]
      dsimp only
      rw [after_opened]
      exact Storage.node?_put _ _ _

/-- No file but the one of the output changes after the start. -/
theorem node?_call_of_ne (hl : m.storage.Accepts path l)
    (hk : m.storage.Accepts (resultPathFor path) k) (bs : Bytes) {x : Location} (hx : x ≠ k) :
    ((withInstanceFile c path).call bs m).storage.node? x = (opened m.storage l k bs).node? x := by
  rw [call_withInstanceFile hl hk]
  unfold launching
  cases m.launch? (fileCommand c path) with
  | none => rfl
  | some launched =>
    dsimp only
    rw [after_opened]
    exact Storage.node?_put_of_ne _ _ hx

theorem solve_withInstanceFile (hl : m.storage.Accepts path l) (model : Model) :
    (withInstanceFile c path).solve model m = (instanceText model).map fun text =>
      (withInstanceFile c path).call (utf8Encode text) m := by
  have hfails (bs : Bytes) : (withInstanceFile c path).failsBy bs m = false := by
    unfold failsBy withInstanceFile
    simp only [hl.create_eq]
    simp [Storage.chokes, Storage.node?_put]
  unfold solve instanceText Dimacs.Draft.whole
  dsimp only
  cases (instanceDraft model).fault with
  | none => rfl
  | some v => exact if_neg (by simp [hfails])

/-- The paths of the instance and of the output lead to one place if the instance has the extension
of the output, and only then if links lead to directories. If the places are two, the process finds
the text of the model, and afterwards both files are there: the instance with this text and the
output. If they are one, the process finds an empty file, and the instance is lost. No other file
changes. -/
theorem withInstanceFile_keeps (c : Command) (model : Model) (hl : m.storage.Accepts path l)
    (hk : m.storage.Accepts (resultPathFor path) k) :
    (extension? path.toList = some "sol".toList → k = l) ∧
    (m.storage.LinksLead → k = l → extension? path.toList = some "sol".toList) ∧
    (Model.Reachable model → ∃ text, instanceText model = .ok text) ∧
    ∀ text, instanceText model = .ok text → ∃ call files,
      (withInstanceFile c path).solve model m = .ok call ∧
      (k ≠ l → RanOn m (fileCommand c path) path files l (utf8Encode text) k call ∧
        call.storage.node? l = some (.file (utf8Encode text))) ∧
      (k = l → RanOn m (fileCommand c path) path files l [] k call) ∧
      ∀ x, x ≠ l → x ≠ k →
        files.node? x = m.storage.node? x ∧ call.storage.node? x = m.storage.node? x := by
  refine ⟨hl.eq_of_extension hk, fun hlinks => hl.extension_of_eq hlinks hk, exists_instanceText,
    fun text htext => ?_⟩
  have hsolve : (withInstanceFile c path).solve model m =
      .ok ((withInstanceFile c path).call (utf8Encode text) m) := by
    rw [solve_withInstanceFile hl, htext]
    rfl
  refine ⟨_, opened m.storage l k (utf8Encode text), hsolve, fun hne => ?_, fun heq => ?_,
    fun x hxl hxk => ?_⟩
  · have hnode : (opened m.storage l k (utf8Encode text)).node? l =
        some (.file (utf8Encode text)) := by
      rw [opened, Storage.node?_put_of_ne _ _ (Ne.symm hne), Storage.node?_put]
    exact ⟨call_ranOn hl hk hnode, by rw [node?_call_of_ne hl hk _ (Ne.symm hne), hnode]⟩
  · subst heq
    exact call_ranOn hl hk (Storage.node?_put _ _ _)
  · have hopened : (opened m.storage l k (utf8Encode text)).node? x = m.storage.node? x := by
      rw [opened, Storage.node?_put_of_ne _ _ hxk, Storage.node?_put_of_ne _ _ hxl,
        Storage.node?_put_of_ne _ _ hxl]
    exact ⟨hopened, (node?_call_of_ne hl hk _ hxk).trans hopened⟩

/-- An instance beside its output, and one in the place of its output. -/
theorem withInstanceFile_keeps_cnf :
    let out := utf8Encode "v 1 0\n".toList
    let m := soleProgram ⟨out, .code 10⟩
    ∃ g text kept lost i j, (Model.Action.op (.addUnit (Var.pos ⟨0⟩))).call Model.empty = .ok g ∧
      instanceText g.model = .ok text ∧
      (withInstanceFile soleCommand "/model.cnf").solve g.model m = .ok kept ∧
      kept.started = some i ∧ i.input = utf8Encode text ∧
      kept.storage.node? (.ofText "/model.cnf") = some (.file (utf8Encode text)) ∧
      kept.storage.node? (.ofText "/model.sol") = some (.file out) ∧
      (withInstanceFile soleCommand "/model.sol").solve g.model m = .ok lost ∧
      lost.started = some j ∧ j.input = [] := by
  intro out m
  obtain ⟨g, hg⟩ : ∃ g,
      (Model.Action.op (.addUnit (Var.pos ⟨0⟩))).call Model.empty = .ok g := ⟨_, rfl⟩
  have hcnf : m.storage.Accepts "/model.cnf" (.ofText "/model.cnf") :=
    ⟨by decide +kernel, by decide +kernel, by decide +kernel⟩
  have hsol : m.storage.Accepts "/model.sol" (.ofText "/model.sol") :=
    ⟨by decide +kernel, by decide +kernel, by decide +kernel⟩
  have hbeside : m.storage.Accepts (resultPathFor "/model.cnf") (.ofText "/model.sol") := by
    rwa [show resultPathFor "/model.cnf" = "/model.sol" by decide +kernel]
  have hsame : m.storage.Accepts (resultPathFor "/model.sol") (.ofText "/model.sol") := by
    rwa [show resultPathFor "/model.sol" = "/model.sol" by decide +kernel]
  have hlinks : m.storage.LinksLead := nofun
  have hlaunch (path : String) (hr : (fileCommand soleCommand path).isReady = true) :
      m.launch? (fileCommand soleCommand path) = some (fun _ => ⟨out, .code 10⟩, .root) :=
    launch?_soleProgram _ hr rfl rfl
  obtain ⟨-, hext, htext, hcalls⟩ := withInstanceFile_keeps soleCommand g.model hcnf hbeside
  obtain ⟨text, htext⟩ := htext (.call (.named "") hg)
  obtain ⟨kept, files, hkept, happart, -⟩ := hcalls text htext
  obtain ⟨hran, hnode⟩ := happart fun heq => absurd (hext hlinks heq) (by decide)
  obtain ⟨hstarted, hout⟩ := hran.of_launch (hlaunch "/model.cnf" (by decide +kernel))
  obtain ⟨hone, -, -, hcalls⟩ := withInstanceFile_keeps soleCommand g.model hsol hsame
  obtain ⟨lost, emptied, hlost, -, hover, -⟩ := hcalls text htext
  have hover := hover (hone rfl)
  have hempty := hover.of_launch (hlaunch "/model.sol" (by decide +kernel))
  exact ⟨g, text, kept, lost, _, _, hg, htext, hkept, hstarted, hran.read _ hstarted hcnf.located,
    hnode, hout, hlost, hempty.1, hover.read _ hempty.1 hsol.located⟩

/-- An instance with the extension of its output is lost. -/
theorem instance_overwritten :
    let out := utf8Encode "v 1 0\n".toList
    let s := withInstanceFile soleCommand "/model.sol"
    ∃ text c i, instanceText Model.empty = .ok text ∧ text ≠ [] ∧
      s.solve Model.empty (soleProgram ⟨out, .code 10⟩) = .ok c ∧
      c.started = some i ∧ i.files.node? (.ofText "/model.sol") = some (.file []) ∧
      i.input = [] ∧ c.storage.node? (.ofText "/model.sol") = some (.file out) := by
  intro out s
  have hsol : soleStorage.Accepts "/model.sol" (.ofText "/model.sol") :=
    ⟨by decide +kernel, by decide +kernel, by decide +kernel⟩
  have hsame : soleStorage.Accepts (resultPathFor "/model.sol") (.ofText "/model.sol") := by
    rwa [show resultPathFor "/model.sol" = "/model.sol" by decide +kernel]
  obtain ⟨text, htext, hne⟩ : ∃ text, instanceText Model.empty = .ok text ∧ text ≠ [] :=
    ⟨_, rfl, nofun⟩
  have hempty : (opened soleStorage (.ofText "/model.sol") (.ofText "/model.sol")
      (utf8Encode text)).node? (.ofText "/model.sol") = some (.file []) := Storage.node?_put _ _ _
  have hran := call_ranOn (c := soleCommand) (m := soleProgram ⟨out, .code 10⟩) hsol hsame hempty
  obtain ⟨hstarted, hout⟩ := hran.of_launch (launch?_soleProgram _ (by decide +kernel) rfl rfl)
  exact ⟨text, _, _, htext, hne, by rw [solve_withInstanceFile hsol, htext]; rfl, hstarted,
    hran.found, hran.read _ hstarted hsol.located, hout⟩

end ExternalSolver

end Clausal
