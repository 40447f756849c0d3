import Clausal.Proofs.HeaderText

/-!
# Reading written instances

The text of a written instance is the lines of its comments, its header and its entries. Comments
are skipped and the header gives back its numbers, so the instance is read back (`read_cnfText`,
`read_wcnfText`), whether or not the header covers the variables of the clauses.
-/

namespace Clausal.Dimacs

/-! ## Headers -/

/-- The words of a header. -/
def Header.parts : Header → List (List Char)
  | .cnf v k => [['p'], ['c', 'n', 'f'], Decimal.write v, Decimal.write k]
  | .wcnf v k t =>
    [['p'], ['w', 'c', 'n', 'f'], Decimal.write v, Decimal.write k, Decimal.write t]

/-- The line of a header without its line feed. -/
def Header.line (h : Header) : List Char := [' '].intercalate h.parts

/-- The numbers of the header have 64 bits. -/
def Header.Readable : Header → Prop
  | .cnf v k => v ≤ Decimal.maxNat ∧ k ≤ Decimal.maxNat
  | .wcnf v k t => v ≤ Decimal.maxNat ∧ k ≤ Decimal.maxNat ∧ t ≤ Decimal.maxNat

/-- A number of clauses that memory holds has far fewer than 64 bits. -/
theorem length_le_of_fitsMemory {n : Nat} (h : fitsMemory n clauseSize = true) :
    2 * n + 1 ≤ Decimal.maxNat := by
  have h : n * clauseSize < 9223372036854775808 := of_decide_eq_true h
  rw [clauseSize] at h
  rw [Decimal.maxNat]
  omega

theorem readable_cnf {hard : Cnf} {vars : Nat} (hv : vars < 4294967296)
    (hh : fitsMemory hard.size clauseSize = true) : (Header.cnf vars hard.size).Readable := by
  have := length_le_of_fitsMemory hh
  refine ⟨?_, by omega⟩
  rw [Decimal.maxNat]
  omega

theorem readable_wcnf {hard : Cnf} {soft : List Clause} {vars : Nat} (hv : vars < 4294967296)
    (hh : fitsMemory hard.size clauseSize = true)
    (hs : fitsMemory soft.length clauseSize = true) :
    (Header.wcnf vars (hard.size + soft.length) (topWeight soft)).Readable := by
  have := length_le_of_fitsMemory hh
  have := length_le_of_fitsMemory hs
  refine ⟨?_, by omega, by rw [topWeight]; omega⟩
  rw [Decimal.maxNat]
  omega

theorem lt_of_usable {vars : Nat} (h : vars ≤ Var.maxIndex) : vars < 4294967296 := by
  rw [Var.maxIndex] at h
  omega

theorem leadingCount_write {n : Nat} (hn : n ≤ Decimal.maxNat) :
    Header.leadingCount (Decimal.write n) = some n := by
  rw [Header.leadingCount, Decimal.readCount_write hn]
  rfl

theorem isWord_of_mem_parts {h : Header} : ∀ w ∈ h.parts, IsWord w := by
  cases h with
  | cnf v k =>
    simp only [Header.parts, List.forall_mem_cons]
    exact ⟨isWord_of_check rfl, isWord_of_check rfl, Decimal.isWord_write v,
      Decimal.isWord_write k, by simp⟩
  | wcnf v k t =>
    simp only [Header.parts, List.forall_mem_cons]
    exact ⟨isWord_of_check rfl, isWord_of_check rfl, Decimal.isWord_write v,
      Decimal.isWord_write k, Decimal.isWord_write t, by simp⟩

theorem ofWords_parts {h : Header} (hr : h.Readable) : Header.ofWords h.parts = some h := by
  cases h with
  | cnf v k =>
    simp [Header.parts, Header.ofWords, Decimal.parseCount_write hr.1, leadingCount_write hr.2]
  | wcnf v k t =>
    obtain ⟨hv, hk, ht⟩ := hr
    simp [Header.parts, Header.ofWords, Decimal.parseCount_write hv, Decimal.parseCount_write hk,
      leadingCount_write ht]

theorem trimStart_cons {c : Char} (h : isSpace c = false) (cs : List Char) :
    trimStart (c :: cs) = c :: cs := List.dropWhile_cons_of_neg (by simp [h])

/-- Comment lines in front of the header are skipped. -/
theorem skippedLine_comment {l : List Char} (hl : l.head? = some 'c') :
    Header.SkippedLine (.ofText l) := by
  obtain ⟨cs, rfl⟩ := List.head?_eq_some_iff.mp hl
  refine ⟨_, RawLine.fullText_ofText _, ?_⟩
  rw [List.cons_append, trimStart_cons (by decide)]
  rfl

theorem Header.Readable.onLine {h : Header} (hr : h.Readable) : h.OnLine (.ofText h.line) := by
  obtain ⟨cs, hcs⟩ : ∃ cs, h.line ++ ['\n'] = 'p' :: cs := by
    cases h with
    | cnf => exact ⟨_, rfl⟩
    | wcnf => exact ⟨_, rfl⟩
  have hw := words_intercalate (isWord_of_mem_parts (h := h))
  rw [← Header.line, hcs] at hw
  refine ⟨_, RawLine.fullText_ofText _, ?_⟩
  rw [hcs, trimStart_cons (by decide), hw, ofWords_parts hr]

/-- The lines of comments, a header and entries. -/
theorem rawLines_headed {comments lines : List (List Char)} {h : Header}
    (hc : ∀ l ∈ comments, l.head? = some 'c' ∧ '\n' ∉ l) (hl : ∀ l ∈ lines, '\n' ∉ l) :
    rawLines (utf8Encode (linesText (comments ++ h.line :: lines))) =
      comments.map RawLine.ofText ++ RawLine.ofText h.line :: lines.map RawLine.ofText := by
  rw [rawLines_linesText, List.map_append, List.map_cons]
  intro l hmem
  rcases List.mem_append.mp hmem with hmem | hmem
  · exact (hc l hmem).2
  rcases List.mem_cons.mp hmem with rfl | hmem
  · exact newline_not_mem_intercalate isWord_of_mem_parts
  · exact hl l hmem

/-- The header behind comments is found, whatever lines follow. -/
theorem find_linesText {comments lines : List (List Char)} {h : Header}
    (hc : ∀ l ∈ comments, l.head? = some 'c' ∧ '\n' ∉ l) (hr : h.Readable)
    (hl : ∀ l ∈ lines, '\n' ∉ l) :
    Header.find 1 (rawLines (utf8Encode (linesText (comments ++ h.line :: lines)))) =
      if h.vars ≤ Var.maxIndex then .ok (h, 1 + comments.length, lines.map RawLine.ofText)
      else .error (.tooManyVars (1 + comments.length) h.vars) := by
  have hskip : ∀ l ∈ comments.map RawLine.ofText, Header.SkippedLine l :=
    List.forall_mem_map.mpr fun l hmem => skippedLine_comment (hc l hmem).1
  rw [rawLines_headed hc hl, Header.find_skipped hskip, Header.find_onLine hr.onLine,
    List.length_map]

/-! ## Instances -/

/-- Comments, a header and lines of entries are read as an instance. -/
theorem read_lines {comments : List (List Char)} {h : Header} {es : List Entry}
    (hc : ∀ l ∈ comments, l.head? = some 'c' ∧ '\n' ∉ l) (hr : h.Readable)
    (hv : h.vars ≤ Var.maxIndex) (hfits : h.fits = true)
    (hes : ∀ e ∈ es, ∀ n, h.readLine n (h.lineOf e) = .ok (some e)) :
    Instance.read h.format (utf8Encode (linesText (comments ++ h.line :: es.map h.lineOf))) =
      .ok ⟨h, 1 + comments.length, ⟨es.filterMap Entry.hard?⟩, es.filterMap Entry.soft?⟩ := by
  have hl : ∀ l ∈ es.map h.lineOf, '\n' ∉ l :=
    List.forall_mem_map.mpr fun e _ => newline_not_mem_lineOf h e
  refine Instance.read_ok_iff.mpr ⟨_, es, ?_, rfl, hfits, readBody_lineOf hes _, rfl, rfl⟩
  rw [find_linesText hc hr hl, if_pos hv]

/-- The entries of an instance in the order of its lines. -/
def entriesOf (hard : Cnf) (soft : List Clause) : List Entry :=
  hard.clauses.map .hard ++ soft.map .soft

theorem filterMap_hard_entriesOf (hard : Cnf) (soft : List Clause) :
    (entriesOf hard soft).filterMap Entry.hard? = hard.clauses := by
  have hh : ∀ cs : List Clause, (cs.map Entry.hard).filterMap Entry.hard? = cs := by
    intro cs
    rw [List.filterMap_map]
    exact List.filterMap_some
  have hs : (soft.map Entry.soft).filterMap Entry.hard? = [] := by simp [Entry.hard?]
  rw [entriesOf, List.filterMap_append, hh, hs, List.append_nil]

theorem filterMap_soft_entriesOf (hard : Cnf) (soft : List Clause) :
    (entriesOf hard soft).filterMap Entry.soft? = soft := by
  have hh : (hard.clauses.map Entry.hard).filterMap Entry.soft? = [] := by simp [Entry.soft?]
  have hs : ∀ cs : List Clause, (cs.map Entry.soft).filterMap Entry.soft? = cs := by
    intro cs
    rw [List.filterMap_map]
    exact List.filterMap_some
  rw [entriesOf, List.filterMap_append, hh, hs, List.nil_append]

theorem flatMap_clauseText (cs : List Clause) :
    cs.flatMap clauseText = linesText (cs.map clauseLine) := by
  rw [linesText, List.flatMap_map]
  exact congrArg (cs.flatMap ·) (funext clauseText_eq)

theorem flatMap_weightedText (w : Nat) (cs : List Clause) :
    cs.flatMap (weightedText w) = linesText (cs.map (weightedLine w)) := by
  rw [linesText, List.flatMap_map]
  exact congrArg (cs.flatMap ·) (funext (weightedText_eq w))

/-- The comments in front of the header of an unweighted instance. -/
def cnfComments : List (List Char) := ["c CNF file written by satenc".toList]

/-- The comments in front of the header of a weighted instance. -/
def wcnfComments (hard : Cnf) (soft : List Clause) : List (List Char) :=
  ["c WCNF file written by satenc".toList,
    "c ".toList ++ Decimal.write hard.size ++ " hard clauses".toList,
    "c ".toList ++ Decimal.write soft.length ++ " soft clauses".toList]

theorem cnfComments_skipped : ∀ l ∈ cnfComments, l.head? = some 'c' ∧ '\n' ∉ l := by decide

theorem wcnfComments_skipped (hard : Cnf) (soft : List Clause) :
    ∀ l ∈ wcnfComments hard soft, l.head? = some 'c' ∧ '\n' ∉ l := by
  have hd : ∀ n, '\n' ∉ Decimal.write n := fun n => (Decimal.isWord_write n).newline_not_mem
  simp [wcnfComments, hd]

theorem cnfHead_eq (hard : Cnf) (vars : Nat) : cnfHead hard vars =
    linesText (cnfComments ++ [(Header.cnf vars hard.size).line]) := by
  have hlead : "c CNF file written by satenc\np cnf ".toList =
      "c CNF file written by satenc".toList ++
        (['\n'] ++ (['p'] ++ ([' '] ++ (['c', 'n', 'f'] ++ [' '])))) := rfl
  unfold cnfHead cnfComments linesText Header.line Header.parts
  rw [hlead, List.intercalate_cons_cons, List.intercalate_cons_cons, List.intercalate_cons_cons,
    List.intercalate_singleton]
  simp only [List.flatMap_cons, List.flatMap_nil, List.append_assoc, List.cons_append,
    List.nil_append]

theorem wcnfHead_eq (hard : Cnf) (soft : List Clause) (vars : Nat) : wcnfHead hard soft vars =
    linesText (wcnfComments hard soft ++
      [(Header.wcnf vars (hard.size + soft.length) (topWeight soft)).line]) := by
  have hfirst : "c WCNF file written by satenc\nc ".toList =
      "c WCNF file written by satenc".toList ++ (['\n'] ++ "c ".toList) := rfl
  have hsecond : " hard clauses\nc ".toList =
      " hard clauses".toList ++ (['\n'] ++ "c ".toList) := rfl
  have hlead : " soft clauses\np wcnf ".toList = " soft clauses".toList ++
      (['\n'] ++ (['p'] ++ ([' '] ++ (['w', 'c', 'n', 'f'] ++ [' '])))) := rfl
  unfold wcnfHead wcnfComments linesText Header.line Header.parts
  rw [hfirst, hsecond, hlead, List.intercalate_cons_cons, List.intercalate_cons_cons,
    List.intercalate_cons_cons, List.intercalate_cons_cons, List.intercalate_singleton]
  simp only [List.flatMap_cons, List.flatMap_nil, List.append_assoc, List.cons_append,
    List.nil_append]

theorem cnfText_eq (hard : Cnf) (vars : Nat) : cnfText hard vars =
    linesText (cnfComments ++ (Header.cnf vars hard.size).line ::
      (entriesOf hard []).map (Header.cnf vars hard.size).lineOf) := by
  have hlines : (entriesOf hard []).map (Header.cnf vars hard.size).lineOf =
      hard.clauses.map clauseLine := by
    rw [entriesOf, List.map_append, List.map_map]
    exact List.append_nil _
  rw [cnfText, cnfHead_eq, flatMap_clauseText, hlines, ← linesText_append, List.append_assoc]
  rfl

theorem wcnfText_eq (hard : Cnf) (soft : List Clause) (vars : Nat) : wcnfText hard soft vars =
    linesText (wcnfComments hard soft ++
      (Header.wcnf vars (hard.size + soft.length) (topWeight soft)).line ::
      (entriesOf hard soft).map
        (Header.wcnf vars (hard.size + soft.length) (topWeight soft)).lineOf) := by
  have hlines : (entriesOf hard soft).map
      (Header.wcnf vars (hard.size + soft.length) (topWeight soft)).lineOf =
      hard.clauses.map (weightedLine (topWeight soft)) ++ soft.map (weightedLine 1) := by
    rw [entriesOf, List.map_append, List.map_map, List.map_map]
    rfl
  rw [wcnfText, wcnfHead_eq, flatMap_weightedText, flatMap_weightedText, hlines,
    ← linesText_append, ← linesText_append, List.append_assoc, List.append_assoc]
  rfl

theorem mem_writable {cs : List Clause} (h : writable cs = true) :
    ∀ c ∈ cs, c.lits.all hasNumber = true := List.all_eq_true.mp h

/-- An unweighted instance is read back, if memory can hold its clauses. -/
theorem read_cnfText {hard : Cnf} {vars : Nat} (hw : writable hard.clauses = true)
    (hv : vars ≤ Var.maxIndex) (hmem : fitsMemory hard.size clauseSize = true) :
    Instance.read .cnf (utf8Encode (cnfText hard vars)) =
      .ok ⟨.cnf vars hard.size, 2, hard, []⟩ := by
  have hr := readable_cnf (lt_of_usable hv) hmem
  have hes : ∀ e ∈ entriesOf hard [], ∀ n, (Header.cnf vars hard.size).readLine n
      ((Header.cnf vars hard.size).lineOf e) = .ok (some e) := by
    intro e he n
    simp only [entriesOf, List.map_nil, List.append_nil, List.mem_map] at he
    obtain ⟨c, hc, rfl⟩ := he
    exact readLine_cnf_hard (mem_writable hw c hc)
  have h := read_lines cnfComments_skipped hr hv hmem hes
  rw [← cnfText_eq, filterMap_hard_entriesOf, filterMap_soft_entriesOf] at h
  exact h

/-- A weighted instance is read back, each clause on its side. -/
theorem read_wcnfText {hard : Cnf} {soft : List Clause} {vars : Nat}
    (hw : writable hard.clauses = true) (hws : writable soft = true) (hv : vars ≤ Var.maxIndex)
    (hh : fitsMemory hard.size clauseSize = true)
    (hs : fitsMemory soft.length clauseSize = true) :
    Instance.read .wcnf (utf8Encode (wcnfText hard soft vars)) =
      .ok ⟨.wcnf vars (hard.size + soft.length) (topWeight soft), 4, hard, soft⟩ := by
  have hr := readable_wcnf (lt_of_usable hv) hh hs
  have hes : ∀ e ∈ entriesOf hard soft, ∀ n,
      (Header.wcnf vars (hard.size + soft.length) (topWeight soft)).readLine n
        ((Header.wcnf vars (hard.size + soft.length) (topWeight soft)).lineOf e) =
          .ok (some e) := by
    intro e he n
    rcases List.mem_append.mp he with he | he
    · obtain ⟨c, hc, rfl⟩ := List.mem_map.mp he
      exact readLine_wcnf_hard (Nat.succ_pos _) hr.2.2 (mem_writable hw c hc)
    · obtain ⟨c, hc, rfl⟩ := List.mem_map.mp he
      have hpos : 0 < soft.length := List.length_pos_of_mem hc
      exact readLine_wcnf_soft (Nat.succ_lt_succ hpos) (mem_writable hws c hc)
  have h := read_lines (wcnfComments_skipped hard soft) hr hv rfl hes
  rw [← wcnfText_eq, filterMap_hard_entriesOf, filterMap_soft_entriesOf] at h
  exact h

end Clausal.Dimacs
