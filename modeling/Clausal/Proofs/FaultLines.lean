import Clausal.Proofs.LineEnds

/-!
# Lines at fault

Where the reader names a line, this is the first line at fault, counted from 1 over all lines of the
file: cut off in front of it, the file has no header yet if the fault is in the header, and is read
with the clauses of all lines in front if the fault is in the body (`read_fault_iff`).
-/

namespace Clausal

/-! ## Lines of a text -/

/-- What may follow a line: a line feed, a carriage return with a line feed, or the end of the
text, in front of which no line is empty. -/
inductive LineEnd (line : List Char) : List Char → Prop
  | feed (rest : List Char) (h : line.getLast? ≠ some '\r') : LineEnd line ('\n' :: rest)
  | returned (rest : List Char) : LineEnd line ('\r' :: '\n' :: rest)
  | last (hne : line ≠ []) : LineEnd line []

/-- The `n`-th line of a text without its end, and the lines in front of it, which may still have
their carriage returns. -/
structure LineAt (cs : List Char) (n : Nat) (front : List (List Char)) (line : List Char) :
    Prop where
  number : front.length + 1 = n
  front_no_feed : ∀ l ∈ front, '\n' ∉ l
  no_feed : '\n' ∉ line
  split : ∃ behind, cs = linesText front ++ (line ++ behind) ∧ LineEnd line behind

/-- The text of a line, with blanks only in its end. -/
structure RawLine.HasText (l : RawLine) (line : List Char) : Prop where
  text_eq : l.text = some line
  fullText_eq : ∃ e, Blanks e ∧ l.fullText = some (line ++ e)

theorem RawLine.hasText_ofText {cs : List Char} (h : cs.getLast? ≠ some '\r') :
    (RawLine.ofText cs).HasText cs :=
  ⟨text_ofText h, ['\n'], blanks_of_all rfl, fullText_ofText cs⟩

theorem RawLine.hasText_ofText_return (cs : List Char) :
    (RawLine.ofText (cs ++ ['\r'])).HasText cs := by
  constructor
  · rw [RawLine.text, RawLine.ofText, utf8Decode_utf8Encode]
    show some (dropReturn (cs ++ ['\r'])) = some cs
    rw [dropReturn, List.getLast?_concat, if_pos rfl, List.dropLast_concat]
  · refine ⟨['\r', '\n'], blanks_of_all rfl, ?_⟩
    rw [fullText_ofText, List.append_assoc]
    rfl

theorem RawLine.hasText_last (cs : List Char) : HasText ⟨utf8Encode cs, false⟩ cs := by
  refine ⟨?_, [], nofun, ?_⟩
  · rw [RawLine.text, utf8Decode_utf8Encode]
    rfl
  · rw [List.append_nil]
    exact utf8Decode_utf8Encode cs

theorem utf8Encode_ne_nil {cs : List Char} (h : cs ≠ []) : utf8Encode cs ≠ [] := by
  intro hnil
  have hcs := utf8Decode_utf8Encode cs
  rw [hnil] at hcs
  injection hcs with hcs
  exact h hcs.symm

/-- The reader splits a text at the end of each line. -/
theorem LineEnd.exists_rawLines {line behind : List Char} (h : LineEnd line behind)
    (hline : '\n' ∉ line) :
    ∃ l post, rawLines (utf8Encode (line ++ behind)) = l :: post ∧ l.HasText line := by
  cases h with
  | feed rest hr => exact ⟨_, _, rawLines_line hline rest, RawLine.hasText_ofText hr⟩
  | returned rest =>
    have hfeed : '\n' ∉ line ++ ['\r'] := by
      rw [List.mem_append, not_or]
      exact ⟨hline, by decide⟩
    have hlines := rawLines_line hfeed rest
    rw [List.append_assoc] at hlines
    exact ⟨_, _, hlines, RawLine.hasText_ofText_return line⟩
  | last hne =>
    refine ⟨_, [], ?_, RawLine.hasText_last line⟩
    rw [List.append_nil]
    exact rawLines_of_not_mem (newline_not_mem_utf8Encode hline) (utf8Encode_ne_nil hne)

/-- The first line that the reader splits off is ended by a line feed, or is the whole text. -/
theorem rawLines_cons_cases {cs : List Char} {l : RawLine} {post : List RawLine}
    (h : rawLines (utf8Encode cs) = l :: post) :
    (∃ as bs, '\n' ∉ as ∧ cs = as ++ '\n' :: bs ∧ .ofText as = l ∧
      rawLines (utf8Encode bs) = post) ∨
    '\n' ∉ cs ∧ cs ≠ [] ∧ ⟨utf8Encode cs, false⟩ = l ∧ [] = post := by
  by_cases hfeed : '\n' ∈ cs
  · obtain ⟨as, bs, rfl, has⟩ := List.eq_append_cons_of_mem hfeed
    rw [rawLines_line has] at h
    injection h with hl hpost
    exact .inl ⟨as, bs, has, rfl, hl, hpost⟩
  · have hne : cs ≠ [] := by
      rintro rfl
      cases h
    rw [rawLines_of_not_mem (newline_not_mem_utf8Encode hfeed) (utf8Encode_ne_nil hne)] at h
    injection h with hl hpost
    exact .inr ⟨hfeed, hne, hl, hpost⟩

/-- A line feed ends a line, together with a carriage return in front of it. -/
theorem exists_lineEnd {as : List Char} (has : '\n' ∉ as) (bs : List Char) : ∃ line behind,
    as ++ '\n' :: bs = line ++ behind ∧ LineEnd line behind ∧ '\n' ∉ line ∧
      (RawLine.ofText as).HasText line := by
  by_cases hr : as.getLast? = some '\r'
  · obtain ⟨line, rfl⟩ : ∃ line, as = line ++ ['\r'] :=
      ⟨as.dropLast, (List.dropLast_append_getLast? _ hr).symm⟩
    exact ⟨line, '\r' :: '\n' :: bs, List.append_assoc line _ _, .returned bs,
      fun hmem => has (List.mem_append_left _ hmem), RawLine.hasText_ofText_return line⟩
  · exact ⟨as, '\n' :: bs, rfl, .feed bs hr, has, RawLine.hasText_ofText hr⟩

namespace LineAt

variable {cs : List Char} {n : Nat} {front : List (List Char)} {line : List Char}

theorem cons (h : LineAt cs n front line) {as : List Char} (has : '\n' ∉ as) :
    LineAt (as ++ '\n' :: cs) (n + 1) (as :: front) line := by
  obtain ⟨behind, rfl, hend⟩ := h.split
  refine ⟨congrArg (· + 1) h.number, List.forall_mem_cons.mpr ⟨has, h.front_no_feed⟩, h.no_feed,
    behind, ?_, hend⟩
  rw [linesText_cons, List.append_assoc, List.cons_append]

/-- A line of the text is a line that the reader splits off, behind those of the lines in front. -/
theorem exists_rawLines (h : LineAt cs n front line) : ∃ l post,
    rawLines (utf8Encode cs) = front.map .ofText ++ l :: post ∧ l.HasText line := by
  obtain ⟨behind, rfl, hend⟩ := h.split
  obtain ⟨l, post, hlines, hl⟩ := hend.exists_rawLines h.no_feed
  exact ⟨l, post, by rw [rawLines_linesText_append h.front_no_feed, hlines], hl⟩

theorem length_rawLines (h : LineAt cs n front line) :
    1 + (rawLines (utf8Encode (linesText front))).length = n := by
  rw [rawLines_linesText h.front_no_feed, List.length_map, Nat.add_comm]
  exact h.number

end LineAt

/-- Each line that the reader splits off is a line of the text. -/
theorem exists_lineAt {cs : List Char} {pre : List RawLine} {l : RawLine} {post : List RawLine}
    (h : rawLines (utf8Encode cs) = pre ++ l :: post) : ∃ front line,
      front.map .ofText = pre ∧ LineAt cs (pre.length + 1) front line ∧ l.HasText line := by
  induction pre generalizing cs with
  | nil =>
    rcases rawLines_cons_cases h with ⟨as, bs, has, rfl, rfl, -⟩ | ⟨hfeed, hne, rfl, -⟩
    · obtain ⟨line, behind, hsplit, hend, hline, hl⟩ := exists_lineEnd has bs
      exact ⟨[], line, rfl, ⟨rfl, nofun, hline, behind, hsplit, hend⟩, hl⟩
    · exact ⟨[], cs, rfl, ⟨rfl, nofun, hfeed, [], (List.append_nil cs).symm, .last hne⟩,
        RawLine.hasText_last cs⟩
  | cons k pre ih =>
    rcases rawLines_cons_cases h with ⟨as, bs, has, rfl, rfl, hpost⟩ | ⟨-, -, -, hpost⟩
    · obtain ⟨front, line, rfl, hat, hl⟩ := ih hpost
      exact ⟨as :: front, line, rfl, hat.cons has, hl⟩
    · exact absurd hpost (by simp)

namespace Dimacs

/-- The line that an error names. -/
def Error.line? : Error → Option Nat
  | badHeader n _ | badClause n _ | tooManyVars n _ | heavySoftClause n _ => some n
  | _ => none

/-! ## Faults of a header -/

variable {n : Nat} {line : List Char} {l : RawLine} {e : Error}

namespace Header

/-- What is reported of a line that should be a header. -/
inductive FaultOn (n : Nat) (line : List Char) : Error → Prop
  /-- The line is neither blank nor a comment nor a header. -/
  | badHeader (hkept : isSkipped (trimStart line) = false)
    (hnone : ofWords (words (trimStart line)) = none) : FaultOn n line (.badHeader n (trimEnd line))
  /-- The line is a header that announces too many variables. -/
  | tooManyVars {h : Header} (hheader : ofWords (words (trimStart line)) = some h)
    (hvars : Var.maxIndex < h.vars) : FaultOn n line (.tooManyVars n h.vars)

theorem FaultOn.line_eq (h : FaultOn n line e) : e.line? = some n := by
  cases h <;> rfl

theorem FaultOn.kept (h : FaultOn n line e) : isSkipped (trimStart line) = false := by
  cases h with
  | badHeader hkept => exact hkept
  | tooManyVars hheader =>
    refine eq_false_of_ne_true fun hskip => ?_
    rw [ofWords_of_skipped (skipped_of_isSkipped hskip)] at hheader
    cases hheader

theorem skippedLine_iff (hl : l.HasText line) :
    SkippedLine l ↔ isSkipped (trimStart line) = true := by
  obtain ⟨e, he, hfull⟩ := hl.fullText_eq
  unfold SkippedLine
  rw [hfull, ← isSkipped_trimStart_append_blanks he]
  simp

theorem find_kept_eq_error_iff (hl : l.HasText line) (hkept : ¬ SkippedLine l)
    (post : List RawLine) : find n (l :: post) = .error e ↔ FaultOn n line e := by
  obtain ⟨d, hd, hfull⟩ := hl.fullText_eq
  rw [skippedLine_iff hl] at hkept
  rw [find_cons_of_blanks hd hfull, if_neg hkept]
  constructor
  · intro hf
    split at hf
    · next hnone =>
      injection hf with hf
      subst hf
      exact .badHeader (eq_false_of_ne_true hkept) hnone
    · next h hh =>
      split at hf
      · cases hf
      · next hvars =>
        injection hf with hf
        subst hf
        exact .tooManyVars hh (Nat.not_le.mp hvars)
  · intro hf
    cases hf with
    | badHeader _ hnone => rw [hnone]
    | tooManyVars hh hvars =>
      rw [hh]
      exact if_neg (Nat.not_le.mpr hvars)

end Header

/-! ## Faults of a body -/

theorem readClauseLine_eq_fault_iff :
    readClauseLine line = .fault ↔ ¬ Skipped line ∧ ¬ ∃ c t, ClauseLine line c t := by
  rw [LineContent.eq_fault_iff, Ne, readClauseLine_eq_nothing_iff, not_exists]
  simp only [Ne, readClauseLine_eq_entry_iff]

theorem readWeightedLine_eq_entry_iff_clauseLine {w : Nat} {c : Clause} :
    readWeightedLine line = .entry (w, c) ↔
      ∃ body t, WeightPart line w body ∧ ClauseLine body c t := by
  simp only [readWeightedLine_eq_entry_iff, readClauseLine_eq_entry_iff, exists_and_left]

theorem readWeightedLine_eq_fault_iff : readWeightedLine line = .fault ↔
    ¬ Skipped line ∧ ¬ ∃ w body c t, WeightPart line w body ∧ ClauseLine body c t := by
  rw [LineContent.eq_fault_iff, Ne, readWeightedLine_eq_nothing_iff]
  refine and_congr_right fun _ => ?_
  constructor
  · rintro h ⟨w, body, c, t, hw, hc⟩
    exact h (w, c) (readWeightedLine_eq_entry_iff_clauseLine.mpr ⟨body, t, hw, hc⟩)
  · rintro h ⟨w, c⟩ hl
    obtain ⟨body, t, hw, hc⟩ := readWeightedLine_eq_entry_iff_clauseLine.mp hl
    exact h ⟨w, body, c, t, hw, hc⟩

namespace Header

/-- What is reported of a line under a header. -/
inductive BodyFault (n : Nat) (line : List Char) : Header → Error → Prop
  /-- The line is neither blank nor a comment nor a clause. -/
  | clause {v k : Nat} (hkept : ¬ Skipped line) (hnone : ¬ ∃ c t, ClauseLine line c t) :
    BodyFault n line (.cnf v k) (.badClause n line)
  /-- The line is neither blank nor a comment nor a clause with its weight. -/
  | weightedClause {v k top : Nat} (hkept : ¬ Skipped line)
    (hnone : ¬ ∃ w body c t, WeightPart line w body ∧ ClauseLine body c t) :
    BodyFault n line (.wcnf v k top) (.badClause n line)
  /-- The line is a soft clause of another weight than one. -/
  | weight {v k top w : Nat} {body t : List Char} {c : Clause} (hw : WeightPart line w body)
    (hc : ClauseLine body c t) (htop : w < top) (hone : w ≠ 1) :
    BodyFault n line (.wcnf v k top) (.heavySoftClause n w)

theorem BodyFault.line_eq {h : Header} (hf : BodyFault n line h e) : e.line? = some n := by
  cases hf <;> rfl

theorem readLine_eq_error_iff {h : Header} :
    h.readLine n line = .error e ↔ BodyFault n line h e := by
  cases h with
  | cnf v k =>
    constructor
    · intro hr
      unfold readLine at hr
      dsimp only at hr
      split at hr
      · cases hr
      · cases hr
      · next hfault =>
        injection hr with hr
        subst hr
        obtain ⟨hkept, hnone⟩ := readClauseLine_eq_fault_iff.mp hfault
        exact .clause hkept hnone
    · intro hf
      cases hf with
      | clause hkept hnone =>
        unfold readLine
        simp only [readClauseLine_eq_fault_iff.mpr ⟨hkept, hnone⟩]
  | wcnf v k top =>
    constructor
    · intro hr
      rcases hl : readWeightedLine line with _ | ⟨w, c⟩ | _
      · simp [readLine, hl] at hr
      · obtain ⟨body, t, hw, hc⟩ := readWeightedLine_eq_entry_iff_clauseLine.mp hl
        rw [readLine_wcnf_eq hl] at hr
        split at hr
        · cases hr
        · next htop =>
          split at hr
          · cases hr
          · next hone =>
            injection hr with hr
            subst hr
            exact .weight hw hc (Nat.not_le.mp htop) hone
      · obtain ⟨hkept, hnone⟩ := readWeightedLine_eq_fault_iff.mp hl
        simp only [readLine, hl] at hr
        injection hr with hr
        subst hr
        exact .weightedClause hkept hnone
    · intro hf
      cases hf with
      | weightedClause hkept hnone =>
        unfold readLine
        simp only [readWeightedLine_eq_fault_iff.mpr ⟨hkept, hnone⟩]
      | weight hw hc htop hone =>
        rw [readLine_wcnf_eq (readWeightedLine_eq_entry_iff_clauseLine.mpr ⟨_, _, hw, hc⟩),
          if_neg (Nat.not_le.mpr htop), if_neg hone]

theorem readBody_singleton (h : Header) {cs : List Char} (hl : l.text = some cs) :
    h.readBody n [l] = .error e ↔ h.readLine n cs = .error e := by
  cases hr : h.readLine n cs <;> simp [readBody, hl, hr, Except.map]

/-- A body is at fault where a line is, behind lines that are read. -/
theorem readBody_eq_error_iff {h : Header} {ls : List RawLine} :
    h.readBody n ls = .error e ↔ ∃ pre l post es, ls = pre ++ l :: post ∧
      h.readBody n pre = .ok es ∧ h.readBody (n + pre.length) [l] = .error e := by
  constructor
  · intro hr
    induction ls generalizing n with
    | nil => cases hr
    | cons l ls ih =>
      rw [← List.singleton_append, readBody_append] at hr
      rcases bind_error_iff.mp hr with hl | ⟨es, hl, hr⟩
      · exact ⟨[], l, ls, [], rfl, rfl, hl⟩
      · rcases bind_error_iff.mp hr with hls | ⟨fs, -, hfs⟩
        · obtain ⟨pre, m, post, fs, rfl, hpre, hm⟩ := ih hls
          have hnext : n + (l :: pre).length = n + 1 + pre.length :=
            Nat.add_right_comm n pre.length 1
          refine ⟨l :: pre, m, post, es ++ fs, rfl, ?_, hnext ▸ hm⟩
          rw [← List.singleton_append, readBody_append]
          exact bind_ok_iff.mpr ⟨es, hl, bind_ok_iff.mpr ⟨fs, hpre, rfl⟩⟩
        · cases hfs
  · rintro ⟨pre, l, post, es, rfl, hpre, hl⟩
    rw [readBody_append, hpre, ← List.singleton_append, readBody_append, hl]
    rfl

end Header

/-! ## Faults of a file -/

/-- The clauses of the instance are those of the lines behind its header. -/
def Instance.Keeps (i : Instance) (lines : List (List Char)) : Prop :=
  ∃ found, List.Forall₂ i.header.Holds ((lines.drop i.headerLine).map dropReturn) found ∧
    i.hard.clauses = found.reduceOption.filterMap Entry.hard? ∧
    i.soft = found.reduceOption.filterMap Entry.soft?

/-- A fault in line `n` of a file, behind the lines in front of it. -/
inductive FaultOn (format : Format) (front : List (List Char)) (n : Nat) (line : List Char) :
    Error → Prop
  /-- There is no header in front of the line, and the line is at fault as a header. -/
  | header {e : Error}
    (hfront : Instance.read format (utf8Encode (linesText front)) = .error .noHeader)
    (hline : Header.FaultOn n line e) : FaultOn format front n line e
  /-- The lines in front are read as their clauses, and the line is at fault under their header. -/
  | body {i : Instance} {e : Error}
    (hfront : Instance.read format (utf8Encode (linesText front)) = .ok i)
    (hkeeps : i.Keeps front) (hline : Header.BodyFault n line i.header e) :
    FaultOn format front n line e

/-- An error is found in the search for the header, in the header as a whole, or in the body. -/
theorem Instance.read_eq_error_iff {format : Format} {bs : Bytes} :
    Instance.read format bs = .error e ↔ Header.find 1 (rawLines bs) = .error e ∨
      ∃ h k body, Header.find 1 (rawLines bs) = .ok (h, k, body) ∧
        (¬ h.Accepted format ∧ e = h.refusal format ∨
          h.Accepted format ∧ h.readBody (k + 1) body = .error e) := by
  cases hf : Header.find 1 (rawLines bs) with
  | error e' =>
    rw [Instance.read_of_find_error hf]
    simp
  | ok found =>
    obtain ⟨h, k, body⟩ := found
    by_cases ha : h.Accepted format
    · rw [Instance.read_of_find hf ha]
      cases hb : h.readBody (k + 1) body with
      | error e' => simp [Except.map, ha, hb]
      | ok es => simp [Except.map, ha, hb]
    · rw [Instance.read_of_not_accepted hf ha]
      simp [ha, eq_comm]

/-- The clauses of an instance are those of the lines that it is read from. -/
theorem Instance.keeps_of_read {format : Format} {i : Instance} {lines : List (List Char)}
    (hfeed : ∀ l ∈ lines, '\n' ∉ l)
    (hread : Instance.read format (utf8Encode (linesText lines)) = .ok i) : i.Keeps lines := by
  obtain ⟨body, entries, hf, -, -, hbody, hhard, hsoft⟩ := Instance.read_ok_iff.mp hread
  obtain ⟨-, hrest⟩ := Header.find_rest hf
  obtain ⟨texts, found, htexts, hall, rfl⟩ := Header.readBody_eq_ok_iff.mp hbody
  rw [Nat.add_sub_cancel, rawLines_linesText hfeed, ← List.map_drop] at hrest
  subst hrest
  have htext : RawLine.text ∘ RawLine.ofText = some ∘ dropReturn := by
    funext l
    show (utf8Decode (utf8Encode l)).map _ = _
    rw [utf8Decode_utf8Encode]
    rfl
  rw [List.map_map, htext, ← List.map_map] at htexts
  rw [← (List.map_inj_right fun _ _ => Option.some.inj).mp htexts] at hall
  exact ⟨found, hall, by rw [hhard], hsoft⟩

theorem Header.readBody_ne_noHeader (h : Header) (n : Nat) (ls : List RawLine) :
    h.readBody n ls ≠ .error .noHeader := by
  intro hr
  obtain ⟨pre, l, post, es, -, -, hl⟩ := Header.readBody_eq_error_iff.mp hr
  cases htext : l.text with
  | none =>
    rw [readBody, htext] at hl
    cases hl
  | some cs =>
    rw [readBody_singleton h htext, readLine_eq_error_iff] at hl
    cases hl

/-- The header of a file is missing if all lines are blank or comments. -/
theorem Instance.read_eq_noHeader_iff {format : Format} {bs : Bytes} :
    Instance.read format bs = .error .noHeader ↔ ∀ l ∈ rawLines bs, Header.SkippedLine l := by
  rw [read_eq_error_iff, ← Header.find_eq_noHeader_iff]
  refine or_iff_left ?_
  rintro ⟨h, k, body, -, ⟨-, he⟩ | ⟨-, hb⟩⟩
  · unfold Header.refusal at he
    split at he <;> cases he
  · exact h.readBody_ne_noHeader _ _ hb

variable {format : Format} {cs : List Char} {front : List (List Char)}

theorem exists_header_fault (hf : Header.find 1 (rawLines (utf8Encode cs)) = .error e)
    (hline : e.line? = some n) :
    ∃ front line, LineAt cs n front line ∧ FaultOn format front n line e := by
  rcases Header.skipped_or_first_kept (rawLines (utf8Encode cs)) with
    hall | ⟨pre, l, post, hlines, hpre, hkept⟩
  · rw [Header.find_eq_noHeader_iff.mpr hall] at hf
    injection hf with hf
    subst hf
    cases hline
  · obtain ⟨front, line, rfl, hat, hl⟩ := exists_lineAt hlines
    rw [hlines, Header.find_skipped hpre, Header.find_kept_eq_error_iff hl hkept,
      Nat.add_comm] at hf
    obtain rfl := Option.some.inj (hf.line_eq.symm.trans hline)
    refine ⟨front, line, hat, .header (Instance.read_eq_noHeader_iff.mpr ?_) hf⟩
    rw [rawLines_linesText hat.front_no_feed]
    exact hpre

theorem exists_body_fault {h : Header} {k : Nat} {body : List RawLine}
    (hf : Header.find 1 (rawLines (utf8Encode cs)) = .ok (h, k, body)) (ha : h.Accepted format)
    (hb : h.readBody (k + 1) body = .error e) (hline : e.line? = some n) :
    ∃ front line, LineAt cs n front line ∧ FaultOn format front n line e := by
  obtain ⟨pre, m, hlines, hpre, hm, hvars, hk⟩ := Header.find_eq_ok_iff.mp hf
  obtain ⟨done, l, post, es, rfl, hdone, hl⟩ := Header.readBody_eq_error_iff.mp hb
  rw [← List.cons_append, ← List.append_assoc] at hlines
  obtain ⟨front, line, hfront, hat, htext⟩ := exists_lineAt hlines
  rw [Header.readBody_singleton h htext.text_eq, Header.readLine_eq_error_iff] at hl
  have hfound : Header.find 1 (pre ++ m :: done) = .ok (h, k, done) :=
    Header.find_eq_ok_iff.mpr ⟨pre, m, rfl, hpre, hm, hvars, hk⟩
  have hnumber : k + 1 + done.length = (pre ++ m :: done).length + 1 := by
    rw [← Header.length_of_find hfound, Nat.add_comm]
  rw [hnumber] at hl
  obtain rfl := Option.some.inj (hl.line_eq.symm.trans hline)
  rw [← hfront, ← rawLines_linesText hat.front_no_feed] at hfound
  have hok := Instance.read_of_find hfound ha
  rw [hdone] at hok
  exact ⟨front, line, hat, .body hok (Instance.keeps_of_read hat.front_no_feed hok) hl⟩

/-- The reader reports an error with the number of a line if and only if this line is at fault and
the text in front of it is not: the header is then still missing, or all lines in front have been
read as their clauses. -/
theorem read_fault_iff (format : Format) (cs : List Char) (n : Nat) (e : Error) :
    Instance.read format (utf8Encode cs) = .error e ∧ e.line? = some n ↔
      ∃ front line, LineAt cs n front line ∧ FaultOn format front n line e := by
  constructor
  · rintro ⟨hr, hline⟩
    rcases Instance.read_eq_error_iff.mp hr with hf | ⟨h, k, body, hf, ⟨-, rfl⟩ | ⟨ha, hb⟩⟩
    · exact exists_header_fault hf hline
    · unfold Header.refusal at hline
      split at hline <;> cases hline
    · exact exists_body_fault hf ha hb hline
  · rintro ⟨front, line, hat, hfault⟩
    obtain ⟨l, post, hlines, hl⟩ := hat.exists_rawLines
    rw [← rawLines_linesText hat.front_no_feed] at hlines
    cases hfault with
    | header hfront hline =>
      refine ⟨Instance.read_eq_error_iff.mpr (.inl ?_), hline.line_eq⟩
      have hkept : ¬ Header.SkippedLine l := by
        rw [Header.skippedLine_iff hl, hline.kept]
        exact Bool.false_ne_true
      rw [hlines, Header.find_skipped (Instance.read_eq_noHeader_iff.mp hfront),
        hat.length_rawLines, Header.find_kept_eq_error_iff hl hkept]
      exact hline
    | body hfront _ hline =>
      refine ⟨Instance.read_eq_error_iff.mpr (.inr ?_), hline.line_eq⟩
      obtain ⟨body, es, hf, hformat, hfits, hb, -⟩ := Instance.read_ok_iff.mp hfront
      have hfound := Header.find_append hf (l :: post)
      rw [← hlines] at hfound
      refine ⟨_, _, _, hfound, .inr ⟨⟨Header.find_usable hf, hformat, hfits⟩, ?_⟩⟩
      refine Header.readBody_eq_error_iff.mpr ⟨body, l, post, es, rfl, hb, ?_⟩
      rw [← Header.length_of_find hf, hat.length_rawLines, Header.readBody_singleton _ hl.text_eq,
        Header.readLine_eq_error_iff]
      exact hline

/-- A comment, a blank line and a line end with a carriage return stand in front of the fault, and
another line at fault behind it. -/
theorem read_fault_iff_weight : ∃ front line,
    LineAt "c top\n\np wcnf 2 2 5\r\nc\n5 1 0\n 2 -1 \r\n1 x".toList 6 front line ∧
      FaultOn .wcnf front 6 line (.heavySoftClause 6 2) :=
  (read_fault_iff .wcnf _ 6 _).mp ⟨by decide +kernel, rfl⟩

end Dimacs

end Clausal
