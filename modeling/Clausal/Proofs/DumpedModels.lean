import Clausal.Proofs.FaultLines
import Clausal.Proofs.RoundTrip

/-!
# Dumps in front of files

A dump shows a model in comments, and the name as it is. So a name without a line feed gives a dump
of comments, but each line feed in a name starts a line that may be no comment. A file behind a dump
is read as it is without one if the reader skips these lines, and else it is not read
(`dump_in_front`).
-/

namespace Clausal

/-! ## Pieces of a text -/

/-- A line of text that starts with `c`. -/
def RawLine.IsComment (l : RawLine) : Prop := l.fullText.bind List.head? = some 'c'

instance (l : RawLine) : Decidable l.IsComment :=
  inferInstanceAs (Decidable (l.fullText.bind List.head? = some 'c'))

theorem RawLine.isComment_ofText {cs : List Char} :
    (RawLine.ofText cs).IsComment ↔ cs.head? = some 'c' := by
  rw [IsComment, fullText_ofText, Option.bind_some]
  cases cs <;> simp

theorem newline_not_mem_of_mem_splitOn {cs l : List Char} (h : l ∈ cs.splitOn '\n') :
    '\n' ∉ l := by
  induction cs generalizing l with
  | nil =>
    obtain rfl := List.mem_singleton.mp h
    exact List.not_mem_nil
  | cons c cs ih =>
    rw [List.splitOn_cons_eq_if_modifyHead] at h
    split at h
    · rcases List.mem_cons.mp h with rfl | h
      · exact List.not_mem_nil
      · exact ih h
    · next hc =>
      obtain ⟨p, ps, hps⟩ := List.exists_cons_of_ne_nil (List.splitOn_ne_nil '\n' cs)
      rw [hps] at h ih
      rcases List.mem_cons.mp h with rfl | h
      · have hc : c ≠ '\n' := fun heq => hc (beq_iff_eq.mpr heq)
        exact List.not_mem_cons_of_ne_of_not_mem hc.symm (ih List.mem_cons_self)
      · exact ih (List.mem_cons_of_mem p h)

/-- The pieces between the line feeds of a text are its lines. -/
theorem linesText_splitOn (cs : List Char) : linesText (cs.splitOn '\n') = cs ++ ['\n'] := by
  induction cs with
  | nil => rfl
  | cons c cs ih =>
    rw [List.splitOn_cons_eq_if_modifyHead]
    split
    · next hc =>
      rw [linesText_cons, ih, beq_iff_eq.mp hc]
      rfl
    · obtain ⟨p, ps, hps⟩ := List.exists_cons_of_ne_nil (List.splitOn_ne_nil '\n' cs)
      rw [hps, linesText_cons] at ih
      rw [hps, List.modifyHead_cons, linesText_cons, List.cons_append, ih]
      rfl

theorem endsLine_linesText (ls : List (List Char)) : EndsLine (utf8Encode (linesText ls)) := by
  rcases List.eq_nil_or_concat ls with rfl | ⟨ls, l, rfl⟩
  · exact .inl rfl
  · have hlast : linesText (ls.concat l) = linesText ls ++ l ++ ['\n'] := by
      simp [linesText]
    rw [hlast, utf8Encode_append]
    exact .inr (List.suffix_append _ _)

/-- Text without a line feed in front of another text stands in front of its first piece. -/
theorem splitOn_append {front : List Char} (h : '\n' ∉ front) (cs : List Char) :
    (front ++ cs).splitOn '\n' = (cs.splitOn '\n').modifyHead (front ++ ·) := by
  induction front with
  | nil => exact (congrFun List.modifyHead_id _).symm
  | cons c front ih =>
    rw [List.mem_cons, not_or] at h
    have hc : ¬ (c == '\n') = true := fun heq => h.1 (beq_iff_eq.mp heq).symm
    rw [List.cons_append, List.splitOn_cons_eq_if_modifyHead, if_neg hc, ih h.2,
      List.modifyHead_modifyHead]
    rfl

/-! ## Texts that are put in front of a file -/

namespace Dimacs

theorem Header.skippedLine_ofText {cs : List Char} :
    SkippedLine (.ofText cs) ↔ isSkipped (trimStart cs) = true := by
  have hfeed : Blanks ['\n'] := blanks_of_all rfl
  rw [← isSkipped_trimStart_append_blanks hfeed cs]
  unfold SkippedLine
  rw [RawLine.fullText_ofText]
  simp

variable {format : Format} {bs cs : Bytes} {i : Instance}

/-- Blank lines and comments in front of a file only move its lines. -/
theorem Instance.read_behind_skipped (hbs : EndsLine bs)
    (hskip : ∀ l ∈ rawLines bs, Header.SkippedLine l) (hread : Instance.read format cs = .ok i) :
    Instance.read format (bs ++ cs) =
      .ok { i with headerLine := i.headerLine + (rawLines bs).length } := by
  obtain ⟨body, entries, hf, hformat, hfits, hbody, hhard, hsoft⟩ := Instance.read_ok_iff.mp hread
  obtain ⟨pre, l, hlines, hpre, hl, hvars, hline⟩ := Header.find_eq_ok_iff.mp hf
  refine Instance.read_ok_iff.mpr ⟨body, entries, ?_, hformat, hfits, ?_, hhard, hsoft⟩
  · refine Header.find_eq_ok_iff.mpr ⟨rawLines bs ++ pre, l, ?_, ?_, hl, hvars, ?_⟩
    · rw [rawLines_append hbs, hlines, List.append_assoc]
    · exact List.forall_mem_append.mpr ⟨hskip, hpre⟩
    · rw [List.length_append, ← Nat.add_assoc, Nat.add_right_comm, ← hline]
  · have hnext : i.headerLine + (rawLines bs).length + 1 =
        i.headerLine + 1 + (rawLines bs).length := Nat.add_right_comm _ _ 1
    show i.header.readBody (i.headerLine + (rawLines bs).length + 1) body = .ok entries
    rw [hnext, Header.readBody_shift, hbody]
    rfl

/-- The line of a header is no line of a body. -/
theorem Header.readLine_line (h g : Header) (n : Nat) : ∃ e, h.readLine n g.line = .error e := by
  have hwords : ∃ ws, words g.line = ['p'] :: ws := by
    have hfeed : Blanks ['\n'] := blanks_of_all rfl
    rw [← words_append_blanks hfeed, line, words_intercalate isWord_of_mem_parts]
    cases g with
    | cnf => exact ⟨_, rfl⟩
    | wcnf => exact ⟨_, rfl⟩
  obtain ⟨ws, hws⟩ := hwords
  have hlit (vs : List (List Char)) : litsOfWords (['p'] :: vs) = none := rfl
  have hweight : weightOfWord ['p'] = none := rfl
  cases h with
  | cnf v k =>
    have hfault : readClauseLine g.line = .fault := by
      simp [readClauseLine, hws, isComment, hlit]
    exact ⟨_, by rw [readLine, hfault]⟩
  | wcnf v k top =>
    have hfault : readWeightedLine g.line = .fault := by
      cases ws <;> simp [readWeightedLine, hws, isComment, hweight]
    exact ⟨_, by rw [readLine, hfault]⟩

/-- The line of a header ends in a number. -/
theorem Header.getLast?_line (h : Header) : h.line.getLast? ≠ some '\r' := by
  intro hlast
  obtain ⟨front, k, hline⟩ : ∃ front k, h.line = front ++ Decimal.write k := by
    cases h with
    | cnf v k => exact ⟨"p cnf ".toList ++ Decimal.write v ++ [' '], k, by simp [line, parts]⟩
    | wcnf v k t =>
      exact ⟨"p wcnf ".toList ++ Decimal.write v ++ ' ' :: Decimal.write k ++ [' '], t,
        by simp [line, parts]⟩
  rw [hline, List.getLast?_append_of_ne_nil _ (Decimal.write_ne_nil k)] at hlast
  exact absurd (Decimal.isDigit_of_mem_write (List.mem_of_getLast? hlast)) (by decide)

/-- A body with the line of a header is not read. -/
theorem Header.readBody_ne_ok_of_mem {h g : Header} {n : Nat} {ls : List RawLine}
    (hmem : RawLine.ofText g.line ∈ ls) (es : List Entry) : h.readBody n ls ≠ .ok es := by
  obtain ⟨pre, post, rfl⟩ := List.append_of_mem hmem
  obtain ⟨e, he⟩ := h.readLine_line g (n + pre.length)
  rw [readBody_append, readBody, RawLine.text_ofText g.getLast?_line]
  dsimp only
  rw [he]
  intro hread
  obtain ⟨_, -, hrest⟩ := bind_ok_iff.mp hread
  cases hrest

/-- A line in front of a file that is neither blank nor a comment is taken for its header, and then
the file is not read. -/
theorem Instance.read_behind_kept {g : Header} (hbs : EndsLine bs)
    (hkept : ¬ ∀ l ∈ rawLines bs, Header.SkippedLine l)
    (hline : RawLine.ofText g.line ∈ rawLines cs) (i : Instance) :
    Instance.read format (bs ++ cs) ≠ .ok i := by
  intro hread
  obtain ⟨body, entries, hf, -, -, hbody, -⟩ := Instance.read_ok_iff.mp hread
  obtain ⟨pre, l, hlines, hpre, -⟩ := Header.find_eq_ok_iff.mp hf
  rw [rawLines_append hbs] at hlines
  refine Header.readBody_ne_ok_of_mem (g := g) ?_ entries hbody
  rcases List.append_eq_append_iff.mp hlines with ⟨mid, rfl, -⟩ | ⟨mid, hmid, hrest⟩
  · exact absurd (fun k hk => hpre k (List.mem_append_left mid hk)) hkept
  cases mid with
  | nil =>
    rw [hmid, List.append_nil] at hkept
    exact absurd hpre hkept
  | cons m mid =>
    injection hrest with _ hrest
    rw [hrest]
    exact List.mem_append_right mid hline

end Dimacs

/-! ## The lines of a dump -/

namespace Model

variable {m : Model}

/-- The lines that the line feeds in a name start. -/
def furtherNameLines (m : Model) : List (List Char) := (m.name.toList.splitOn '\n').tail

/-- The lines of a dump that show the name. -/
def nameLines (m : Model) : List (List Char) :=
  ("c model name: ".toList ++ m.name.toList).splitOn '\n'

/-- The line of a dump that shows a clause. -/
def shownClause (c : Clause) : List Char := "c   ".toList ++ c.text

/-- The lines of a dump behind the name. -/
def factLines (m : Model) : List (List Char) :=
  ("c number of variables: ".toList ++ Decimal.write m.varCount) :: "c hard clauses:".toList ::
    (m.hard.clauses.map shownClause ++
      if m.isWeighted then "c soft clauses:".toList :: m.soft.map shownClause else [])

theorem furtherNameLines_eq_nil (h : '\n' ∉ m.name.toList) : m.furtherNameLines = [] := by
  rw [furtherNameLines, List.splitOn_eq_singleton h]
  rfl

theorem exists_nameLines_eq (m : Model) :
    ∃ p, m.nameLines = ("c model name: ".toList ++ p) :: m.furtherNameLines := by
  have hfront : '\n' ∉ "c model name: ".toList := by decide
  rw [nameLines, splitOn_append hfront, furtherNameLines]
  obtain ⟨p, ps, hps⟩ := List.exists_cons_of_ne_nil (List.splitOn_ne_nil '\n' m.name.toList)
  rw [hps]
  exact ⟨p, rfl⟩

theorem clauseLines_eq (cs : List Clause) : clauseLines cs = linesText (cs.map shownClause) := by
  rw [linesText, List.flatMap_map]
  rfl

theorem text_eq (m : Model) : m.text = linesText (m.nameLines ++ m.factLines) := by
  have hcount : "\nc number of variables: ".toList =
      ['\n'] ++ "c number of variables: ".toList := rfl
  have hhard : "\nc hard clauses:\n".toList =
      ['\n'] ++ ("c hard clauses:".toList ++ ['\n']) := rfl
  have hsoft : "c soft clauses:\n".toList = "c soft clauses:".toList ++ ['\n'] := rfl
  unfold text nameLines factLines
  simp only [hcount, hhard, hsoft, clauseLines_eq]
  rw [linesText_append, linesText_splitOn, linesText_cons, linesText_cons, linesText_append]
  simp only [List.append_assoc, List.cons_append, List.nil_append]
  split
  · rw [linesText_cons]
  · rfl

theorem newline_not_mem_litText (l : Lit) : '\n' ∉ l.text := by
  have hvar : '\n' ∉ l.var.text :=
    List.not_mem_cons_of_ne_of_not_mem (by decide) (Decimal.isWord_write _).newline_not_mem
  unfold Lit.text
  split
  · exact List.not_mem_cons_of_ne_of_not_mem (by decide) hvar
  · exact hvar

theorem newline_not_mem_clauseText (c : Clause) : '\n' ∉ c.text := by
  have hlits : '\n' ∉ ['|'].intercalate (c.lits.map Lit.text) :=
    not_mem_intercalate (by decide) (List.forall_mem_map.mpr fun l _ => newline_not_mem_litText l)
  refine List.not_mem_cons_of_ne_of_not_mem (by decide) ?_
  rw [List.mem_append, not_or]
  exact ⟨hlits, by decide⟩

/-- A comment on a line of its own. -/
def CommentText (l : List Char) : Prop := l.head? = some 'c' ∧ '\n' ∉ l

theorem commentText_shownClause (c : Clause) : CommentText (shownClause c) := by
  refine ⟨rfl, ?_⟩
  rw [shownClause, List.mem_append, not_or]
  exact ⟨by decide, newline_not_mem_clauseText c⟩

theorem commentText_of_mem_factLines : ∀ l ∈ m.factLines, CommentText l := by
  have hcount : CommentText ("c number of variables: ".toList ++ Decimal.write m.varCount) := by
    refine ⟨rfl, ?_⟩
    rw [List.mem_append, not_or]
    exact ⟨by decide, (Decimal.isWord_write _).newline_not_mem⟩
  have hclauses (cs : List Clause) : ∀ l ∈ cs.map shownClause, CommentText l :=
    List.forall_mem_map.mpr fun c _ => commentText_shownClause c
  have hhard : CommentText "c hard clauses:".toList := ⟨rfl, by decide⟩
  have hsoft : CommentText "c soft clauses:".toList := ⟨rfl, by decide⟩
  refine List.forall_mem_cons.mpr ⟨hcount, List.forall_mem_cons.mpr ⟨hhard, ?_⟩⟩
  refine List.forall_mem_append.mpr ⟨hclauses _, ?_⟩
  split
  · exact List.forall_mem_cons.mpr ⟨hsoft, hclauses _⟩
  · nofun

theorem rawLines_text (m : Model) :
    rawLines (utf8Encode m.text) = (m.nameLines ++ m.factLines).map RawLine.ofText := by
  rw [text_eq, rawLines_linesText]
  refine List.forall_mem_append.mpr ⟨fun l hl => newline_not_mem_of_mem_splitOn hl, ?_⟩
  exact fun l hl => (commentText_of_mem_factLines l hl).2

/-- What holds of all comments holds of a dump if it holds of the lines that a name starts. -/
theorem forall_rawLines_text_iff {P : RawLine → Prop}
    (hP : ∀ l : List Char, l.head? = some 'c' → P (.ofText l)) :
    (∀ l ∈ rawLines (utf8Encode m.text), P l) ↔ ∀ l ∈ m.furtherNameLines, P (.ofText l) := by
  obtain ⟨p, hname⟩ := m.exists_nameLines_eq
  have hfirst : P (.ofText ("c model name: ".toList ++ p)) := hP _ rfl
  have hfacts : ∀ l ∈ m.factLines, P (.ofText l) :=
    fun l hl => hP l (commentText_of_mem_factLines l hl).1
  rw [rawLines_text, List.forall_mem_map, hname, List.forall_mem_append, List.forall_mem_cons]
  exact ⟨fun h => h.1.2, fun h => ⟨⟨hfirst, h⟩, hfacts⟩⟩

/-! ## Written models -/

/-- The text of a model in a format. -/
def write (m : Model) : Dimacs.Format → Except Violation (List Char)
  | .cnf => m.writeCnf
  | .wcnf => m.writeWcnf

/-- A reachable model is written, its text is read, and the text has the line of a header. -/
theorem Reachable.exists_written (h : Reachable m) (format : Dimacs.Format) :
    ∃ text i, ∃ g : Dimacs.Header, m.write format = .ok text ∧
      Dimacs.Instance.read format (utf8Encode text) = .ok i ∧
      RawLine.ofText g.line ∈ rawLines (utf8Encode text) := by
  have hwf := reachable_wellFormed h
  obtain ⟨hh, hs⟩ := inMemory_iff.mp (reachable_inMemory h)
  have hfeed (g : Dimacs.Header) (es : List Dimacs.Entry) : ∀ l ∈ es.map g.lineOf, '\n' ∉ l :=
    List.forall_mem_map.mpr fun e _ => Dimacs.newline_not_mem_lineOf g e
  cases format with
  | cnf =>
    refine ⟨_, _, .cnf m.varCount m.hard.size, hwf.writeCnf_eq,
      Dimacs.read_cnfText hwf.writable.1 hwf.usable hh, ?_⟩
    rw [Dimacs.cnfText_eq, Dimacs.rawLines_headed Dimacs.cnfComments_skipped (hfeed _ _)]
    exact List.mem_append_right _ List.mem_cons_self
  | wcnf =>
    refine ⟨_, _, .wcnf m.varCount (m.hard.size + m.soft.length) (Dimacs.topWeight m.soft),
      hwf.writeWcnf_eq, Dimacs.read_wcnfText hwf.writable.1 hwf.writable.2 hwf.usable hh hs, ?_⟩
    rw [Dimacs.wcnfText_eq,
      Dimacs.rawLines_headed (Dimacs.wcnfComments_skipped m.hard m.soft) (hfeed _ _)]
    exact List.mem_append_right _ List.mem_cons_self

/-- A dump is made of comments if and only if each line that a line feed in the name starts is one;
a name without a line feed starts none. In front of the file of a reachable model, in either format,
a dump changes nothing but the number of lines if all those lines are blank or comments, and else
the file is not read. -/
theorem dump_in_front (m : Model) :
    ('\n' ∉ m.name.toList → m.furtherNameLines = []) ∧
    ((∀ l ∈ rawLines (utf8Encode m.text), l.IsComment) ↔
      ∀ l ∈ m.furtherNameLines, l.head? = some 'c') ∧
    (Reachable m → ∀ format, ∃ text i, m.write format = .ok text ∧
      Dimacs.Instance.read format (utf8Encode text) = .ok i ∧
      ((∀ l ∈ m.furtherNameLines, Dimacs.Header.isSkipped (trimStart l) = true) →
        Dimacs.Instance.read format (utf8Encode (m.text ++ text)) =
          .ok { i with headerLine := i.headerLine + (rawLines (utf8Encode m.text)).length }) ∧
      ((∃ l ∈ m.furtherNameLines, Dimacs.Header.isSkipped (trimStart l) = false) →
        ∃ e, Dimacs.Instance.read format (utf8Encode (m.text ++ text)) = .error e)) := by
  refine ⟨furtherNameLines_eq_nil, ?_, ?_⟩
  · rw [forall_rawLines_text_iff fun l => RawLine.isComment_ofText.mpr]
    simp only [RawLine.isComment_ofText]
  · intro h format
    obtain ⟨text, i, g, hwrite, hread, hline⟩ := h.exists_written format
    have hends : EndsLine (utf8Encode m.text) := by
      rw [text_eq]
      exact endsLine_linesText _
    have hskipped : (∀ l ∈ rawLines (utf8Encode m.text), Dimacs.Header.SkippedLine l) ↔
        ∀ l ∈ m.furtherNameLines, Dimacs.Header.isSkipped (trimStart l) = true := by
      rw [forall_rawLines_text_iff fun l => Dimacs.skippedLine_comment]
      simp only [Dimacs.Header.skippedLine_ofText]
    refine ⟨text, i, hwrite, hread, fun hskip => ?_, fun hkept => ?_⟩
    · rw [utf8Encode_append]
      exact Dimacs.Instance.read_behind_skipped hends (hskipped.mpr hskip) hread
    · obtain ⟨l, hl, hkept⟩ := hkept
      have hkept : ¬ ∀ l ∈ rawLines (utf8Encode m.text), Dimacs.Header.SkippedLine l := by
        intro hall
        rw [hskipped.mp hall l hl] at hkept
        cases hkept
      rw [utf8Encode_append]
      cases hr : Dimacs.Instance.read format (utf8Encode m.text ++ utf8Encode text) with
      | error e => exact ⟨e, rfl⟩
      | ok j => exact absurd hr (Dimacs.Instance.read_behind_kept hends hkept hline j)

/-- A name on one line, one whose second line is skipped although it starts with a blank, and one
whose second line is taken for a header. -/
theorem dump_in_front_three_names : '\n' ∉ (named "rota").name.toList ∧
    (named "rota").furtherNameLines = [] ∧
    Reachable (named "rota\n cadence") ∧
    ¬ (∀ l ∈ rawLines (utf8Encode (named "rota\n cadence").text), l.IsComment) ∧
    (∃ text, ∃ i : Dimacs.Instance, (named "rota\n cadence").write .wcnf = .ok text ∧
      Dimacs.Instance.read .wcnf (utf8Encode ((named "rota\n cadence").text ++ text)) =
        .ok { i with headerLine := i.headerLine + 4 }) ∧
    ∃ text e, (named "rota\nboard").write .wcnf = .ok text ∧
      Dimacs.Instance.read .wcnf (utf8Encode ((named "rota\nboard").text ++ text)) = .error e := by
  have hskipped : (named "rota\n cadence").furtherNameLines = [" cadence".toList] := by decide
  have hkept : (named "rota\nboard").furtherNameLines = ["board".toList] := by decide
  obtain ⟨-, hcomments, hread⟩ := dump_in_front (named "rota\n cadence")
  refine ⟨by decide, (dump_in_front (named "rota")).1 (by decide), .named _, ?_, ?_, ?_⟩
  · rw [hcomments, hskipped, List.forall_mem_singleton]
    decide
  · obtain ⟨text, i, hwrite, -, hskip, -⟩ := hread (.named _) .wcnf
    have hlength : (rawLines (utf8Encode (named "rota\n cadence").text)).length = 4 := by
      decide +kernel
    refine ⟨text, i, hwrite, ?_⟩
    rw [← hlength]
    refine hskip ?_
    rw [hskipped, List.forall_mem_singleton]
    decide
  · obtain ⟨text, i, hwrite, -, -, herror⟩ :=
      (dump_in_front (named "rota\nboard")).2.2 (.named _) .wcnf
    obtain ⟨e, he⟩ := herror ⟨"board".toList, by rw [hkept]; decide, by decide⟩
    exact ⟨text, e, hwrite, he⟩

/-- The name of this model gives its dump a line that is no comment, and a reader takes the line for
a header. -/
theorem dump_not_comments : ∃ m text, Reachable m ∧ m.write .cnf = .ok text ∧
    (∃ l ∈ rawLines (utf8Encode m.text), ¬ l.IsComment) ∧
    Dimacs.Instance.read .cnf (utf8Encode text) = .ok ⟨.cnf 0 0, 2, .empty, []⟩ ∧
    Dimacs.Instance.read .cnf (utf8Encode (m.text ++ text)) = .error (.badHeader 2 ['b']) := by
  refine ⟨named "a\nb", "c CNF file written by satenc\np cnf 0 0\n".toList, .named _,
    ?_, ?_, ?_, ?_⟩
  · decide +kernel
  · exact ⟨.ofText ['b'], by decide +kernel, by decide +kernel⟩
  · decide +kernel
  · decide +kernel

end Model

end Clausal
