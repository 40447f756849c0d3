import Clausal.Proofs.DecidingLines
import Clausal.Proofs.WrittenLines

/-!
# What a reply does not depend on

Lines that say nothing of the answer can be put into solver output or taken out of it at any place.
The scan then gives the same result, but a value line at fault has another number (`Renumbered`). It
stops at the first line that decides or is at fault, so nothing behind that line counts
(`read_ignores_noise`).
-/

namespace Clausal

namespace Reply

variable {n m : Nat} {sofar : Option Assignment} {l : RawLine} {ks ks' ls ms : List RawLine}
  {r r' : Except ReplyError Reply}

/-! ## Noise -/

/-- A line of text that says nothing of the answer. -/
def Noise (l : RawLine) : Prop := ∃ cs, l.text = some cs ∧ Ignored cs

theorem noise_iff : Noise l ↔ l.text.map lineKind = some .noise := by
  rw [Option.map_eq_some_iff]
  exact exists_congr fun _ => and_congr_right fun _ => lineKind_eq_noise_iff.symm

instance : DecidablePred Noise := fun _ => decidable_of_iff _ noise_iff.symm

/-- The same lines in the same order, noise aside. -/
inductive SameButNoise : List RawLine → List RawLine → Prop
  | nil : SameButNoise [] []
  | line (l : RawLine) {ls ms : List RawLine} (h : SameButNoise ls ms) :
    SameButNoise (l :: ls) (l :: ms)
  | left {l : RawLine} {ls ms : List RawLine} (hl : Noise l) (h : SameButNoise ls ms) :
    SameButNoise (l :: ls) ms
  | right {l : RawLine} {ls ms : List RawLine} (hl : Noise l) (h : SameButNoise ls ms) :
    SameButNoise ls (l :: ms)

theorem SameButNoise.refl (ls : List RawLine) : SameButNoise ls ls := by
  induction ls with
  | nil => exact .nil
  | cons l ls ih => exact .line l ih

theorem SameButNoise.append (hks : SameButNoise ks ks') (hls : SameButNoise ls ms) :
    SameButNoise (ks ++ ls) (ks' ++ ms) := by
  induction hks with
  | nil => exact hls
  | line l _ ih => exact .line l ih
  | left hl _ ih => exact .left hl ih
  | right hl _ ih => exact .right hl ih

theorem sameButNoise_noise (h : ∀ l ∈ ls, Noise l) : SameButNoise [] ls := by
  induction ls with
  | nil => exact .nil
  | cons l ls ih =>
    obtain ⟨hl, hls⟩ := List.forall_mem_cons.mp h
    exact .right hl (ih hls)

/-- Whole lines of noise can be put in between whole lines. -/
theorem sameButNoise_insert {pre mid : Bytes} (hpre : EndsLine pre) (hmid : EndsLine mid)
    (hnoise : ∀ l ∈ rawLines mid, Noise l) (post : Bytes) :
    SameButNoise (rawLines (pre ++ post)) (rawLines (pre ++ (mid ++ post))) := by
  rw [rawLines_append hpre, rawLines_append hpre, rawLines_append hmid]
  exact (SameButNoise.refl _).append ((sameButNoise_noise hnoise).append (.refl _))

/-- Results of a scan from line `n` on and of a scan from line `m` on. They are the same, but a value
line at fault has its number in either text. -/
inductive Renumbered (n : Nat) (ls : List RawLine) (m : Nat) (ms : List RawLine) :
    Except ReplyError Reply → Except ReplyError Reply → Prop
  | same {r : Except ReplyError Reply} (h : ∀ k e, r ≠ .error (.badValueLine k e)) :
    Renumbered n ls m ms r r
  | badValueLine {pre pre' post post' : List RawLine} {l : RawLine} (hls : ls = pre ++ l :: post)
    (hms : ms = pre' ++ l :: post') (hpre : SameButNoise pre pre')
    (hpost : SameButNoise post post') (e : ValueLineError) :
    Renumbered n ls m ms (.error (.badValueLine (n + pre.length) e))
      (.error (.badValueLine (m + pre'.length) e))

theorem Renumbered.append_left (hks : SameButNoise ks ks')
    (h : Renumbered (n + ks.length) ls (m + ks'.length) ms r r') :
    Renumbered n (ks ++ ls) m (ks' ++ ms) r r' := by
  cases h with
  | same h => exact .same h
  | @badValueLine pre pre' post post' l hls hms hpre hpost e =>
    have hleft : ks ++ ls = (ks ++ pre) ++ l :: post := by rw [hls, List.append_assoc]
    have hright : ks' ++ ms = (ks' ++ pre') ++ l :: post' := by rw [hms, List.append_assoc]
    rw [Nat.add_assoc, Nat.add_assoc, ← List.length_append, ← List.length_append]
    exact .badValueLine hleft hright (hks.append hpre) hpost e

/-- Lines that are the same but for noise are scanned alike. -/
theorem SameButNoise.readLines (h : SameButNoise ls ms) (n m : Nat) (sofar : Option Assignment) :
    Renumbered n ls m ms (readLines n sofar ls) (readLines m sofar ms) := by
  induction h generalizing n m sofar with
  | nil =>
    cases sofar with
    | none => exact .same nofun
    | some a => exact .same nofun
  | @line l ls ms h ih =>
    cases hcs : l.text with
    | none =>
      rw [readLines_of_not_text hcs, readLines_of_not_text hcs]
      exact .same nofun
    | some cs =>
      rcases line_cases sofar cs with ⟨r, hd⟩ | ⟨next, hp⟩ | ⟨e, hf⟩
      · rw [readLines_of_decides hcs n ls hd, readLines_of_decides hcs m ms hd]
        exact .same nofun
      · -- both scans go on with the same values
        rw [readLines_of_passes hcs n ls hp, readLines_of_passes hcs m ms hp]
        exact (ih (n + 1) (m + 1) next).append_left (.line l .nil)
      · rw [readLines_of_faults hcs n ls hf, readLines_of_faults hcs m ms hf]
        have hfirst : Renumbered n ([] ++ l :: ls) m ([] ++ l :: ms) _ _ :=
          .badValueLine rfl rfl .nil h e
        exact hfirst
  | @left l ls ms hl h ih =>
    obtain ⟨cs, hcs, hi⟩ := hl
    rw [readLines_of_passes hcs n ls (.ignored hi)]
    exact (ih (n + 1) m sofar).append_left (.left ⟨cs, hcs, hi⟩ .nil)
  | @right l ls ms hl h ih =>
    obtain ⟨cs, hcs, hi⟩ := hl
    rw [readLines_of_passes hcs m ms (.ignored hi)]
    exact (ih n (m + 1) sofar).append_left (.right ⟨cs, hcs, hi⟩ .nil)

/-! ## The line that ends a scan -/

/-- The result of a scan that stopped at a line of text. -/
inductive Final : Except ReplyError Reply → Prop
  | unsat : Final (.ok .unsat)
  | unknown : Final (.ok .unknown)
  | badValueLine (n : Nat) (e : ValueLineError) : Final (.error (.badValueLine n e))

theorem not_final_end (n : Nat) (sofar : Option Assignment) : ¬ Final (readLines n sofar []) := by
  cases sofar with
  | none => exact nofun
  | some a => exact nofun

/-- A scan with a final result stops at some line, and it does so whatever follows this line. -/
theorem exists_final_line (h : Final (readLines n sofar ls)) :
    ∃ pre l post, ls = pre ++ l :: post ∧ ¬ Final (readLines n sofar pre) ∧
      ∀ ms, readLines n sofar (pre ++ l :: ms) = readLines n sofar ls := by
  induction ls generalizing n sofar with
  | nil => exact absurd h (not_final_end n sofar)
  | cons l ls ih =>
    cases hcs : l.text with
    | none =>
      rw [readLines_of_not_text hcs] at h
      cases h
    | some cs =>
      rcases line_cases sofar cs with ⟨r, hd⟩ | ⟨next, hp⟩ | ⟨e, hf⟩
      · refine ⟨[], l, ls, rfl, not_final_end n sofar, fun ms => ?_⟩
        rw [List.nil_append, readLines_of_decides hcs n ms hd, readLines_of_decides hcs n ls hd]
      · rw [readLines_of_passes hcs n ls hp] at h ⊢
        obtain ⟨pre, m, post, rfl, hpre, hrest⟩ := ih h
        refine ⟨l :: pre, m, post, rfl, ?_, fun ms => ?_⟩
        · rwa [readLines_of_passes hcs n pre hp]
        · rw [List.cons_append, readLines_of_passes hcs n _ hp, hrest]
      · refine ⟨[], l, ls, rfl, not_final_end n sofar, fun ms => ?_⟩
        rw [List.nil_append, readLines_of_faults hcs n ms hf, readLines_of_faults hcs n ls hf]

/-- Nothing counts that follows a final result. -/
theorem Final.readLines_append (h : Final (readLines n sofar ls)) (ms : List RawLine) :
    readLines n sofar (ls ++ ms) = readLines n sofar ls := by
  obtain ⟨pre, l, post, rfl, -, hrest⟩ := exists_final_line h
  rw [List.append_assoc, List.cons_append, hrest]

/-! ## Output -/

/-- Output that is the same but for noise is read alike, and only the number of a value line at fault
moves with its line. Output that has a final result has a first line that brings it about, and if
that line is whole then the result stays, whatever bytes follow. -/
theorem read_ignores_noise :
    (∀ bs cs, SameButNoise (rawLines bs) (rawLines cs) →
      Renumbered 1 (rawLines bs) 1 (rawLines cs) (read bs) (read cs)) ∧
    (∀ pre mid post, EndsLine pre → EndsLine mid → (∀ l ∈ rawLines mid, Noise l) →
      SameButNoise (rawLines (pre ++ post)) (rawLines (pre ++ (mid ++ post)))) ∧
    (∀ bs, Final (read bs) → ∃ pre l post, rawLines bs = pre ++ l :: post ∧
      ¬ Final (read (pre.flatMap RawLine.whole)) ∧
      read ((pre ++ [l]).flatMap RawLine.whole) = read bs) ∧
    ∀ head tail, EndsLine head → Final (read head) → read (head ++ tail) = read head := by
  refine ⟨fun bs cs h => h.readLines 1 1 none, fun pre mid post hpre hmid hnoise =>
    sameButNoise_insert hpre hmid hnoise post, fun bs h => ?_, fun head tail hhead h => ?_⟩
  · obtain ⟨pre, l, post, hbs, hpre, hrest⟩ := exists_final_line h
    have hsplit := split_rawLines bs
    rw [hbs] at hsplit
    have hlast : Split (pre ++ [l]) := by
      rw [← List.singleton_append, ← List.append_assoc] at hsplit
      exact hsplit.of_append
    refine ⟨pre, l, post, hbs, ?_, ?_⟩
    · unfold read
      rwa [hsplit.of_append.rawLines_flatMap]
    · unfold read
      rw [hlast.rawLines_flatMap, hrest]
  · unfold read
    rw [rawLines_append hhead]
    exact h.readLines_append (rawLines tail)

/-- A comment and a blank line move a value line at fault by two lines, and bytes that are no text
may follow it. -/
theorem read_ignores_noise_clash :
    Renumbered 1 (rawLines (utf8Encode "v 1\nv -1\n".toList))
      1 (rawLines (utf8Encode "v 1\nc -1\n\nv -1\n".toList))
      (.error (.badValueLine 2 (.conflict ⟨0⟩))) (.error (.badValueLine 4 (.conflict ⟨0⟩))) ∧
    read (utf8Encode "v 1\nc -1\n\nv -1\n".toList ++ [255]) =
      .error (.badValueLine 4 (.conflict ⟨0⟩)) := by
  obtain ⟨hsame, hinsert, -, hstays⟩ := read_ignores_noise
  have hread : read (utf8Encode "v 1\nv -1\n".toList) =
      .error (.badValueLine 2 (.conflict ⟨0⟩)) := by decide +kernel
  have hmoved : read (utf8Encode "v 1\nc -1\n\nv -1\n".toList) =
      .error (.badValueLine 4 (.conflict ⟨0⟩)) := by decide +kernel
  have hnoise := hinsert (utf8Encode "v 1\n".toList) (utf8Encode "c -1\n\n".toList)
    (utf8Encode "v -1\n".toList) (by decide) (by decide) (by decide +kernel)
  rw [← hread, ← hmoved]
  refine ⟨hsame _ _ hnoise, hstays _ [255] (by decide) ?_⟩
  rw [hmoved]
  exact .badValueLine 4 _

end Reply

end Clausal
