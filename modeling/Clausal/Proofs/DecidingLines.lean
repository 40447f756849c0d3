import Clausal.Proofs.SolverReplies

/-!
# Which line decides a reply

A scan of solver output passes lines until one decides the answer. The lines that it passes report
literals: the numbers of their value lines up to the first zero of each, no two of which clash. The
reply is an assignment if and only if the scan passes all lines, one of them a value line, and then
the assignment records the literals; it is unsatisfiable if and only if the scan passes the lines in
front of one that says so (`read_decided`). A report of literals without a clash is such output, in
whatever order they come and however they are split over value lines (`read_reports`).
-/

namespace Clausal

namespace Reply

open Assignment (Denote beforeZero)

/-! ## Lines that a scan passes -/

/-- The tokens of a value line in front of its first zero. -/
def valueTokens (cs : List Char) : List (List Char) :=
  match tokens cs with
  | ['v'] :: ts => beforeZero ts
  | _ => []

/-- A scan with the values so far passes a line. -/
inductive Passes : Option Assignment → List Char → Option Assignment → Prop
  | ignored {sofar : Option Assignment} {cs : List Char} (h : Ignored cs) : Passes sofar cs sofar
  | values {sofar : Option Assignment} {cs : List Char} {a : Assignment}
    (hu : ¬ "UNSATISFIABLE".toList <:+: cs) (ht : Tagged cs)
    (hadd : (sofar.getD .empty).addValueLine cs = (a, .ok ())) : Passes sofar cs (some a)

/-- A line decides the reply. -/
inductive Decides : List Char → Reply → Prop
  | unsat {cs : List Char} (h : "UNSATISFIABLE".toList <:+: cs) : Decides cs .unsat
  | unknown {cs : List Char} (hu : ¬ "UNSATISFIABLE".toList <:+: cs) (h : Undecided cs) :
    Decides cs .unknown

/-- A scan with the values so far stops at a value line that is at fault. -/
structure Faults (sofar : Option Assignment) (cs : List Char) (e : ValueLineError) : Prop where
  notUnsat : ¬ "UNSATISFIABLE".toList <:+: cs
  tagged : Tagged cs
  addValueLine : ((sofar.getD .empty).addValueLine cs).2 = .error e

variable {cs : List Char} {sofar next : Option Assignment} {a : Assignment} {ks ls : List Lit}
  {r : Reply}

/-- Each line of text decides the reply, is passed or is at fault. -/
theorem line_cases (sofar : Option Assignment) (cs : List Char) :
    (∃ r, Decides cs r) ∨ (∃ next, Passes sofar cs next) ∨ ∃ e, Faults sofar cs e := by
  rcases lineKind_cases cs with ⟨hu, -⟩ | ⟨hu, ⟨ho, -⟩ | ⟨ht, -⟩ | ⟨⟨ho, ht⟩, -⟩⟩
  · exact .inl ⟨_, .unsat hu⟩
  · exact .inl ⟨_, .unknown hu ho⟩
  · rcases hadd : (sofar.getD .empty).addValueLine cs with ⟨a, e | ⟨⟩⟩
    · exact .inr (.inr ⟨e, hu, ht, congrArg Prod.snd hadd⟩)
    · exact .inr (.inl ⟨some a, .values hu ht hadd⟩)
  · exact .inr (.inl ⟨sofar, .ignored ⟨hu, ho, ht⟩⟩)

section Line

variable {l : RawLine} (hcs : l.text = some cs) (n : Nat) (raw : List RawLine)

include hcs

theorem readLines_of_decides (hd : Decides cs r) : readLines n sofar (l :: raw) = .ok r := by
  rw [readLines, hcs]
  dsimp only
  cases hd with
  | unsat hu => rw [lineKind_eq_unsat_iff.mpr hu]
  | unknown hu ho => rw [lineKind_eq_unknown_iff.mpr ⟨hu, ho⟩]

theorem readLines_of_passes (hp : Passes sofar cs next) :
    readLines n sofar (l :: raw) = readLines (n + 1) next raw := by
  rw [readLines, hcs]
  dsimp only
  cases hp with
  | ignored hi => rw [lineKind_eq_noise_iff.mpr hi]
  | values hu ht hadd =>
    rw [lineKind_eq_values_iff.mpr ⟨hu, ht⟩]
    dsimp only
    rw [hadd]

theorem readLines_of_faults {e : ValueLineError} (hf : Faults sofar cs e) :
    readLines n sofar (l :: raw) = .error (.badValueLine n e) := by
  obtain ⟨hu, ht, he⟩ := hf
  rw [readLines, hcs]
  dsimp only
  rw [lineKind_eq_values_iff.mpr ⟨hu, ht⟩]
  dsimp only
  split
  · next hadd =>
    rw [hadd] at he
    cases he
  · next hadd =>
    rw [hadd] at he
    injection he with he
    rw [he]

end Line

theorem readLines_of_not_text {l : RawLine} (hl : l.text = none) (n : Nat) (raw : List RawLine) :
    readLines n sofar (l :: raw) = .error (.file .notUtf8) := by
  rw [readLines, hl]

theorem readLines_cons_eq_ok_iff {n : Nat} {l : RawLine} {raw : List RawLine} :
    readLines n sofar (l :: raw) = .ok r ↔ ∃ cs, l.text = some cs ∧
      (Decides cs r ∨ ∃ next, Passes sofar cs next ∧ readLines (n + 1) next raw = .ok r) := by
  constructor
  · intro h
    cases hcs : l.text with
    | none =>
      rw [readLines_of_not_text hcs] at h
      cases h
    | some cs =>
      refine ⟨cs, rfl, ?_⟩
      rcases line_cases sofar cs with ⟨r', hd⟩ | ⟨next, hp⟩ | ⟨e, hf⟩
      · rw [readLines_of_decides hcs n raw hd] at h
        injection h with h
        exact .inl (h ▸ hd)
      · rw [readLines_of_passes hcs n raw hp] at h
        exact .inr ⟨next, hp, h⟩
      · rw [readLines_of_faults hcs n raw hf] at h
        cases h
  · rintro ⟨cs, hcs, hd | ⟨next, hp, h⟩⟩
    · exact readLines_of_decides hcs n raw hd
    · rwa [readLines_of_passes hcs n raw hp]

/-! ## What a passed line reports -/

theorem exists_tokens (h : Tagged cs) : ∃ ts, tokens cs = ['v'] :: ts :=
  List.head?_eq_some_iff.mp h

theorem valueTokens_of_tokens {ts : List (List Char)} (hcs : tokens cs = ['v'] :: ts) :
    valueTokens cs = beforeZero ts := by
  unfold valueTokens
  rw [hcs]
  rfl

theorem valueTokens_of_not_tagged (h : ¬ Tagged cs) : valueTokens cs = [] := by
  unfold valueTokens
  split
  · next hcs => exact absurd (tagged_of_tokens hcs) h
  · rfl

/-- A value line succeeds if and only if the tokens in front of its first zero are literals that are
admitted, and then these are added. -/
theorem addValueLine_eq_ok_iff {b : Assignment} (ht : Tagged cs) :
    a.addValueLine cs = (b, .ok ()) ↔ ∃ ls, Denote (valueTokens cs) ls ∧ a.Adds ls b := by
  obtain ⟨ts, hts⟩ := exists_tokens ht
  rw [Assignment.addValueLine_of_tokens hts, valueTokens_of_tokens hts]
  exact Assignment.addTokens_eq_ok_iff

theorem Passes.isSome_iff (hp : Passes sofar cs next) :
    next.isSome = true ↔ sofar.isSome = true ∨ Tagged cs := by
  cases hp with
  | ignored hi => simp [hi.notTagged]
  | values _ ht => simp [ht]

theorem Passes.notUnsat (hp : Passes sofar cs next) : ¬ "UNSATISFIABLE".toList <:+: cs := by
  cases hp with
  | ignored hi => exact hi.notUnsat
  | values hu => exact hu

theorem Passes.notUndecided (hp : Passes sofar cs next) : ¬ Undecided cs := by
  cases hp with
  | ignored hi => exact hi.notUndecided
  | values _ ht => exact not_undecided_of_tagged ht

/-- Passing a line records its literals. -/
theorem Passes.records (hp : Passes sofar cs next) (h : (sofar.getD .empty).Records ks) :
    ∃ ls, Denote (valueTokens cs) ls ∧ (next.getD .empty).Records (ks ++ ls) := by
  cases hp with
  | ignored hi =>
    rw [valueTokens_of_not_tagged hi.notTagged]
    exact ⟨[], rfl, by rwa [List.append_nil]⟩
  | values hu ht hadd =>
    obtain ⟨ls, hls, hb⟩ := (addValueLine_eq_ok_iff ht).mp hadd
    exact ⟨ls, hls, h.adds_iff.mp hb⟩

/-- A line that does not decide is passed if its literals clash with nothing. -/
theorem exists_passes (hu : ¬ "UNSATISFIABLE".toList <:+: cs) (ho : ¬ Undecided cs)
    (hls : Denote (valueTokens cs) ls) (h : (sofar.getD .empty).Records ks)
    (hc : Consistent (ks ++ ls)) :
    ∃ next, Passes sofar cs next ∧ (next.getD .empty).Records (ks ++ ls) := by
  by_cases ht : Tagged cs
  · obtain ⟨a, ha⟩ := Assignment.exists_records hc
    have hadd := (addValueLine_eq_ok_iff ht).mpr ⟨ls, hls, h.adds_iff.mpr ha⟩
    exact ⟨some a, .values hu ht hadd, ha⟩
  · refine ⟨sofar, .ignored ⟨hu, ho, ht⟩, ?_⟩
    rw [valueTokens_of_not_tagged ht] at hls
    obtain rfl : ls = [] := List.map_eq_nil_iff.mp hls.symm
    rwa [List.append_nil]

/-! ## Collected literals -/

/-- After the first literals, lines of which none leaves the answer open and none is a value line at
fault; the last literals are those of their value lines. -/
structure Collects (ks : List Lit) (lines : List (List Char)) (ls : List Lit) : Prop where
  notUndecided : ∀ cs ∈ lines, ¬ Undecided cs
  denote : Denote (lines.flatMap valueTokens) ls
  consistent : Consistent (ks ++ ls)

theorem collects_nil (h : Consistent ks) : Collects ks [] [] where
  notUndecided := nofun
  denote := rfl
  consistent := by rwa [List.append_nil]

/-- What follows a line that is passed is collected with the literals of the line. -/
theorem Passes.collects (hp : Passes sofar cs next) (h : (sofar.getD .empty).Records ks) :
    ∃ ms, (next.getD .empty).Records (ks ++ ms) ∧
      ∀ {lines ls}, Collects (ks ++ ms) lines ls → Collects ks (cs :: lines) (ms ++ ls) := by
  obtain ⟨ms, hms, hrec⟩ := hp.records h
  refine ⟨ms, hrec, fun hcol => ⟨?_, hms.append hcol.denote, ?_⟩⟩
  · exact List.forall_mem_cons.mpr ⟨hp.notUndecided, hcol.notUndecided⟩
  · rw [← List.append_assoc]
    exact hcol.consistent

/-- The first of the lines is passed unless it decides the reply. -/
theorem Collects.passes {lines : List (List Char)} (hcol : Collects ks (cs :: lines) ls)
    (hu : ¬ "UNSATISFIABLE".toList <:+: cs) (h : (sofar.getD .empty).Records ks) :
    ∃ next ms ns, ls = ms ++ ns ∧ Passes sofar cs next ∧ (next.getD .empty).Records (ks ++ ms) ∧
      Collects (ks ++ ms) lines ns := by
  obtain ⟨ho, hos⟩ := List.forall_mem_cons.mp hcol.notUndecided
  obtain ⟨ms, ns, rfl, hms, hns⟩ := Denote.of_append hcol.denote
  have hc := hcol.consistent
  rw [← List.append_assoc] at hc
  have hfirst : Consistent (ks ++ ms) := by
    intro l hl hneg
    exact hc l (List.mem_append_left _ hl) (List.mem_append_left _ hneg)
  obtain ⟨next, hp, hrec⟩ := exists_passes hu ho hms h hfirst
  exact ⟨next, ms, ns, rfl, hp, hrec, hos, hns, hc⟩

/-! ## Scans -/

/-- A scan ends with an assignment if and only if it passes all lines. -/
theorem readLines_eq_sat_iff {n : Nat} {raw : List RawLine} (h : (sofar.getD .empty).Records ks) :
    readLines n sofar raw = .ok (.sat a) ↔ ∃ (lines : List (List Char)) (ls : List Lit),
      raw.map RawLine.text = lines.map some ∧ (∀ cs ∈ lines, ¬ "UNSATISFIABLE".toList <:+: cs) ∧
      Collects ks lines ls ∧ (sofar.isSome = true ∨ ∃ cs ∈ lines, Tagged cs) ∧
      a.Records (ks ++ ls) := by
  induction raw generalizing n sofar ks with
  | nil =>
    constructor
    · intro hr
      cases sofar with
      | none => cases hr
      | some b =>
        injection hr with hr
        injection hr with hr
        subst hr
        exact ⟨[], [], rfl, nofun, collects_nil h.consistent, .inl rfl, by rwa [List.append_nil]⟩
    · rintro ⟨lines, ls, hlines, -, hcol, hv, ha⟩
      obtain rfl : lines = [] := List.map_eq_nil_iff.mp hlines.symm
      obtain rfl : ls = [] := List.map_eq_nil_iff.mp hcol.denote.symm
      cases sofar with
      | none => simp at hv
      | some b =>
        rw [List.append_nil] at ha
        rw [ha.unique h]
        rfl
  | cons l raw ih =>
    rw [readLines_cons_eq_ok_iff]
    constructor
    · rintro ⟨cs, hcs, hd | ⟨next, hp, hr⟩⟩
      · cases hd
      obtain ⟨ms, hrec, hcons⟩ := hp.collects h
      obtain ⟨lines, ls, hlines, hu, hcol, hv, ha⟩ := (ih hrec).mp hr
      rw [List.append_assoc] at ha
      rw [hp.isSome_iff, or_assoc, ← List.exists_mem_cons_iff] at hv
      refine ⟨cs :: lines, ms ++ ls, ?_, List.forall_mem_cons.mpr ⟨hp.notUnsat, hu⟩, hcons hcol,
        hv, ha⟩
      rw [List.map_cons, List.map_cons, hcs, hlines]
    · rintro ⟨lines, ls, hlines, hu, hcol, hv, ha⟩
      cases lines with
      | nil => cases hlines
      | cons cs lines =>
        injection hlines with hcs hlines
        obtain ⟨hu, hus⟩ := List.forall_mem_cons.mp hu
        obtain ⟨next, ms, ns, rfl, hp, hrec, hcol⟩ := hcol.passes hu h
        rw [← List.append_assoc] at ha
        rw [List.exists_mem_cons_iff, ← or_assoc, ← hp.isSome_iff] at hv
        exact ⟨cs, hcs, .inr ⟨next, hp, (ih hrec).mpr ⟨lines, ns, hlines, hus, hcol, hv, ha⟩⟩⟩

/-- A scan ends in unsatisfiability if and only if some line says so and none of those in front of
it leaves the answer open or is at fault. -/
theorem readLines_eq_unsat_iff {n : Nat} {raw : List RawLine}
    (h : (sofar.getD .empty).Records ks) : readLines n sofar raw = .ok .unsat ↔
      ∃ (pre : List RawLine) (l : RawLine) (post : List RawLine) (lines : List (List Char))
        (ls : List Lit) (cs : List Char), raw = pre ++ l :: post ∧
        pre.map RawLine.text = lines.map some ∧ Collects ks lines ls ∧
        l.text = some cs ∧ "UNSATISFIABLE".toList <:+: cs := by
  induction raw generalizing n sofar ks with
  | nil =>
    constructor
    · intro hr
      cases sofar with
      | none => cases hr
      | some b => cases hr
    · rintro ⟨pre, l, post, _, _, _, heq, -⟩
      exact absurd heq.symm (List.append_ne_nil_of_right_ne_nil _ (List.cons_ne_nil _ _))
  | cons l raw ih =>
    rw [readLines_cons_eq_ok_iff]
    constructor
    · rintro ⟨cs, hcs, hd | ⟨next, hp, hr⟩⟩
      · cases hd with
        | unsat hu => exact ⟨[], l, raw, [], [], cs, rfl, rfl, collects_nil h.consistent, hcs, hu⟩
      · obtain ⟨ms, hrec, hcons⟩ := hp.collects h
        obtain ⟨pre, m, post, lines, ls, ds, rfl, hlines, hcol, hds, hu⟩ := (ih hrec).mp hr
        refine ⟨l :: pre, m, post, cs :: lines, ms ++ ls, ds, rfl, ?_, hcons hcol, hds, hu⟩
        rw [List.map_cons, List.map_cons, hcs, hlines]
    · rintro ⟨pre, m, post, lines, ls, ds, heq, hlines, hcol, hds, hu⟩
      cases pre with
      | nil =>
        injection heq with hl
        exact ⟨ds, hl ▸ hds, .inl (.unsat hu)⟩
      | cons p pre =>
        injection heq with hl hraw
        subst hl hraw
        cases lines with
        | nil => cases hlines
        | cons cs lines =>
          injection hlines with hcs hlines
          refine ⟨cs, hcs, ?_⟩
          -- a line in front may say so itself, and then it decides
          by_cases hfirst : "UNSATISFIABLE".toList <:+: cs
          · exact .inl (.unsat hfirst)
          · obtain ⟨next, ms, ns, rfl, hp, hrec, hcol⟩ := hcol.passes hfirst h
            exact .inr ⟨next, hp, (ih hrec).mpr
              ⟨pre, m, post, lines, ns, ds, rfl, hlines, hcol, hds, hu⟩⟩

/-- Output is read as an assignment if and only if it is text, no line decides the reply, and there
are value lines, none of them at fault. -/
theorem read_eq_sat_iff {bs : Bytes} :
    read bs = .ok (.sat a) ↔ ∃ (lines : List (List Char)) (ls : List Lit),
      (rawLines bs).map RawLine.text = lines.map some ∧
      (∀ cs ∈ lines, ¬ "UNSATISFIABLE".toList <:+: cs) ∧ Collects [] lines ls ∧
      (∃ cs ∈ lines, Tagged cs) ∧ a.Records ls := by
  have hrun : readLines 1 none (rawLines bs) = .ok (.sat a) ↔ _ :=
    readLines_eq_sat_iff Assignment.records_empty
  simp only [List.nil_append, Option.isSome_none, Bool.false_eq_true, false_or] at hrun
  exact hrun

theorem Collects.exists_records {lines : List (List Char)} (h : Collects [] lines ls) :
    ∃ a : Assignment, a.Records ls := Assignment.exists_records h.consistent

/-- When output is read as an assignment, which one, and when it is read as unsatisfiable. -/
theorem read_decided (bs : Bytes) :
    (∀ a, read bs = .ok (.sat a) ↔ ∃ (lines : List (List Char)) (ls : List Lit),
      (rawLines bs).map RawLine.text = lines.map some ∧
      (∀ cs ∈ lines, ¬ "UNSATISFIABLE".toList <:+: cs) ∧ Collects [] lines ls ∧
      (∃ cs ∈ lines, Tagged cs) ∧ a.Records ls) ∧
    ((∃ a, read bs = .ok (.sat a)) ↔ ∃ (lines : List (List Char)) (ls : List Lit),
      (rawLines bs).map RawLine.text = lines.map some ∧
      (∀ cs ∈ lines, ¬ "UNSATISFIABLE".toList <:+: cs) ∧ Collects [] lines ls ∧
      ∃ cs ∈ lines, Tagged cs) ∧
    (read bs = .ok .unsat ↔ ∃ (pre : List RawLine) (l : RawLine) (post : List RawLine)
      (lines : List (List Char)) (ls : List Lit) (cs : List Char), rawLines bs = pre ++ l :: post ∧
      pre.map RawLine.text = lines.map some ∧ Collects [] lines ls ∧
      l.text = some cs ∧ "UNSATISFIABLE".toList <:+: cs) := by
  refine ⟨fun a => read_eq_sat_iff, ?_, readLines_eq_unsat_iff Assignment.records_empty⟩
  constructor
  · rintro ⟨a, hr⟩
    obtain ⟨lines, ls, hlines, hu, hcol, hv, -⟩ := read_eq_sat_iff.mp hr
    exact ⟨lines, ls, hlines, hu, hcol, hv⟩
  · rintro ⟨lines, ls, hlines, hu, hcol, hv⟩
    obtain ⟨a, ha⟩ := hcol.exists_records
    exact ⟨a, read_eq_sat_iff.mpr ⟨lines, ls, hlines, hu, hcol, hv, ha⟩⟩

/-- A line that is no text decides nothing, even if its bytes hold the word. -/
theorem read_word_in_undecodable_line :
    ∃ l, rawLines (255 :: utf8Encode "UNSATISFIABLE\n".toList) = [l] ∧
      utf8Encode "UNSATISFIABLE".toList <:+: l.bytes ∧
      read (255 :: utf8Encode "UNSATISFIABLE\n".toList) = .error (.file .notUtf8) :=
  ⟨⟨255 :: utf8Encode "UNSATISFIABLE".toList, true⟩, by decide +kernel,
    (List.suffix_cons _ _).isInfix, by decide +kernel⟩

/-! ## Reports -/

theorem Reports.notUnsat {lines : List (List Char)} (h : Reports lines ls) :
    ∀ cs ∈ lines, ¬ "UNSATISFIABLE".toList <:+: cs := by
  induction h with
  | nil => exact nofun
  | ignored hcs _ ih => exact List.forall_mem_cons.mpr ⟨hcs.notUnsat, ih⟩
  | values hcs hts _ ih => exact List.forall_mem_cons.mpr ⟨notUnsat_of_spells hcs hts, ih⟩

theorem Reports.notUndecided {lines : List (List Char)} (h : Reports lines ls) :
    ∀ cs ∈ lines, ¬ Undecided cs := by
  induction h with
  | nil => exact nofun
  | ignored hcs _ ih => exact List.forall_mem_cons.mpr ⟨hcs.notUndecided, ih⟩
  | values hcs _ _ ih =>
    refine List.forall_mem_cons.mpr ⟨?_, ih⟩
    exact not_undecided_of_tagged (tagged_of_tokens hcs)

theorem Reports.denote {lines : List (List Char)} (h : Reports lines ls) :
    Denote (lines.flatMap valueTokens) ls := by
  induction h with
  | nil => rfl
  | ignored hcs _ ih =>
    rw [List.flatMap_cons, valueTokens_of_not_tagged hcs.notTagged]
    exact ih
  | values hcs hts _ ih =>
    rw [List.flatMap_cons, valueTokens_of_tokens hcs]
    exact (Assignment.Spells.denote hts).append ih

end Reply

end Clausal
