import Clausal.Proofs.HeaderText
import Mathlib.Data.List.ReduceOption

/-!
# What a read instance keeps of its text

Every line behind the header that is neither blank nor a comment gives one clause, with all numbers
in front of its zero. The words behind the zero are given up without an error, so a file loses text
if and only if one of its lines has such words (`read_keeps_text`).
-/

namespace Clausal

theorem words_eq_nil_iff {cs : List Char} : words cs = [] ↔ Blanks cs := by
  refine ⟨fun h => ?_, words_blanks⟩
  rw [← words_dropBlanks] at h
  rcases hs : dropBlanks cs with _ | ⟨c, s⟩
  · exact List.dropWhile_eq_nil_iff.mp hs
  · obtain ⟨w, rest, hw, heq, hr⟩ := exists_first_word (not_isBlank_of_dropBlanks hs) s
    rw [hs, heq, words_append_stopped hw hr] at h
    cases h

namespace Dimacs

/-! ## Words behind the zero of a line -/

/-- The words behind the first word `0`. -/
def behindZero (ws : List (List Char)) : List (List Char) := (ws.dropWhile (· != ['0'])).tail

theorem behindZero_append {ws : List (List Char)} (h : ['0'] ∉ ws) (rest : List (List Char)) :
    behindZero (ws ++ rest) = behindZero rest := by
  have hne : ∀ w ∈ ws, (w != ['0']) = true := by
    intro w hw
    rw [bne_iff_ne]
    rintro rfl
    exact h hw
  unfold behindZero
  rw [List.dropWhile_append_of_pos hne]

theorem zero_not_mem {ws : List (List Char)} {zs : List Int}
    (h : List.Forall₂ LitNumeral ws zs) : ['0'] ∉ ws := by
  induction h with
  | nil => exact List.not_mem_nil
  | @cons w z ws zs hw _ ih =>
    refine List.not_mem_cons_of_ne_of_not_mem ?_ ih
    rintro rfl
    exact not_litNumeral_zero z hw

theorem ClauseText.behindZero_eq {s t : List Char} {zs : List Int} (h : ClauseText s zs t) :
    behindZero (words s) = words t := by
  obtain ⟨ws, hws, hwords⟩ := h.words_eq
  have h0 := zero_not_mem hws
  rcases hwords with ⟨hs, rfl⟩ | hs
  · rw [hs, ← List.append_nil ws, behindZero_append h0, words_nil]
    rfl
  · rw [hs, behindZero_append h0]
    rfl

theorem WeightPart.behindZero_eq {cs body : List Char} {n : Nat} (h : WeightPart cs n body) :
    behindZero (words cs) = behindZero (words body) := by
  obtain ⟨w, hw, hwords⟩ := h.words_eq
  have h0 : ['0'] ∉ [w] := by
    intro hmem
    obtain rfl := List.mem_singleton.mp hmem
    cases hw
  rw [hwords]
  exact behindZero_append h0 (words body)

/-! ## Lines under a header -/

/-- A line under a header that holds an entry, and the text that follows its zero and a blank. -/
def Header.EntryLine (h : Header) (cs : List Char) (e : Entry) (t : List Char) : Prop :=
  match h with
  | .cnf .. => ∃ c, e = .hard c ∧ ClauseLine cs c t
  | .wcnf _ _ top => ∃ n body c, WeightPart cs n body ∧ ClauseLine body c t ∧
    (top ≤ n ∧ e = .hard c ∨ n < top ∧ n = 1 ∧ e = .soft c)

/-- What a line under a header holds, text behind its zero aside. -/
def Header.Holds (h : Header) (cs : List Char) : Option Entry → Prop
  | none => Skipped cs
  | some e => ∃ t, h.EntryLine cs e t

/-- What a line holds that has nothing but blanks behind its zero. -/
def Header.HoldsWhole (h : Header) (cs : List Char) : Option Entry → Prop
  | none => Skipped cs
  | some e => ∃ t, h.EntryLine cs e t ∧ Blanks t

variable {h : Header} {n : Nat} {cs t : List Char} {e : Entry}

theorem Header.EntryLine.not_skipped (he : h.EntryLine cs e t) : ¬ Skipped cs := by
  cases h with
  | cnf =>
    obtain ⟨c, -, hs, -⟩ := he
    exact hs
  | wcnf =>
    obtain ⟨n, body, c, hw, -⟩ := he
    exact hw.not_skipped

theorem Header.EntryLine.behindZero_eq (he : h.EntryLine cs e t) :
    behindZero (words cs) = words t := by
  cases h with
  | cnf =>
    obtain ⟨c, -, -, ht⟩ := he
    rw [← words_dropBlanks, ht.behindZero_eq]
  | wcnf =>
    obtain ⟨n, body, c, hw, ⟨-, ht⟩, -⟩ := he
    rw [hw.behindZero_eq, ← words_dropBlanks body, ht.behindZero_eq]

theorem Header.HoldsWhole.holds {r : Option Entry} (hr : h.HoldsWhole cs r) : h.Holds cs r := by
  cases r with
  | none => exact hr
  | some e =>
    obtain ⟨t, he, -⟩ := hr
    exact ⟨t, he⟩

/-- A line is kept whole unless it has words behind its zero. -/
theorem Header.holdsWhole_iff {r : Option Entry} (hr : h.Holds cs r) :
    h.HoldsWhole cs r ↔ Skipped cs ∨ behindZero (words cs) = [] := by
  cases r with
  | none => exact ⟨.inl, fun _ => hr⟩
  | some e =>
    constructor
    · rintro ⟨t, he, hb⟩
      right
      rw [he.behindZero_eq, words_eq_nil_iff.mpr hb]
    · intro hend
      obtain ⟨t, he⟩ := hr
      rcases hend with hs | hend
      · exact absurd hs he.not_skipped
      · rw [he.behindZero_eq] at hend
        exact ⟨t, he, words_eq_nil_iff.mp hend⟩

/-- Which entry a weighted clause gives. -/
theorem Header.readLine_wcnf_eq {v k top w : Nat} {c : Clause}
    (hl : readWeightedLine cs = .entry (w, c)) : (Header.wcnf v k top).readLine n cs =
      if w ≥ top then .ok (some (.hard c)) else if w = 1 then .ok (some (.soft c))
      else .error (.heavySoftClause n w) := by
  unfold readLine
  simp only [hl]

theorem Header.readLine_eq_none_iff : h.readLine n cs = .ok none ↔ Skipped cs := by
  cases h with
  | cnf v k =>
    rw [← readClauseLine_eq_nothing_iff]
    unfold readLine
    cases readClauseLine cs <;> simp
  | wcnf v k top =>
    rw [← readWeightedLine_eq_nothing_iff]
    rcases hl : readWeightedLine cs with _ | ⟨w, c⟩ | _
    · simp [readLine, hl]
    · rw [readLine_wcnf_eq hl]
      split
      · simp
      · split <;> simp
    · simp [readLine, hl]

theorem Header.readLine_eq_some_iff :
    h.readLine n cs = .ok (some e) ↔ ∃ t, h.EntryLine cs e t := by
  cases h with
  | cnf v k =>
    constructor
    · intro hr
      unfold readLine at hr
      dsimp only at hr
      split at hr
      · cases hr
      · next c hc =>
        injection hr with hr
        injection hr with hr
        obtain ⟨t, ht⟩ := readClauseLine_eq_entry_iff.mp hc
        exact ⟨t, c, hr.symm, ht⟩
      · cases hr
    · rintro ⟨t, c, rfl, ht⟩
      unfold readLine
      simp only [readClauseLine_eq_entry_iff.mpr ⟨t, ht⟩]
  | wcnf v k top =>
    constructor
    · intro hr
      rcases hl : readWeightedLine cs with _ | ⟨w, c⟩ | _
      · simp [readLine, hl] at hr
      · obtain ⟨body, hw, hc⟩ := readWeightedLine_eq_entry_iff.mp hl
        obtain ⟨t, ht⟩ := readClauseLine_eq_entry_iff.mp hc
        rw [readLine_wcnf_eq hl] at hr
        refine ⟨t, w, body, c, hw, ht, ?_⟩
        split at hr
        · next htop =>
          injection hr with hr
          injection hr with hr
          exact .inl ⟨htop, hr.symm⟩
        · next htop =>
          split at hr
          · next hone =>
            injection hr with hr
            injection hr with hr
            exact .inr ⟨Nat.not_le.mp htop, hone, hr.symm⟩
          · cases hr
      · simp [readLine, hl] at hr
    · rintro ⟨t, w, body, c, hw, ht, he⟩
      have hl := readWeightedLine_eq_entry_iff.mpr
        ⟨body, hw, readClauseLine_eq_entry_iff.mpr ⟨t, ht⟩⟩
      rw [readLine_wcnf_eq hl]
      rcases he with ⟨htop, rfl⟩ | ⟨htop, hone, rfl⟩
      · exact if_pos htop
      · rw [if_neg (Nat.not_le.mpr htop), if_pos hone]

theorem Header.readLine_eq_ok_iff {r : Option Entry} :
    h.readLine n cs = .ok r ↔ h.Holds cs r := by
  cases r with
  | none => exact readLine_eq_none_iff
  | some e => exact readLine_eq_some_iff

/-! ## Bodies -/

/-- A body is read if and only if its lines are texts that hold something each, and then the
entries of the lines are read in order. -/
theorem Header.readBody_eq_ok_iff {ls : List RawLine} {es : List Entry} :
    h.readBody n ls = .ok es ↔ ∃ lines found, ls.map RawLine.text = lines.map some ∧
      List.Forall₂ h.Holds lines found ∧ es = found.reduceOption := by
  induction ls generalizing n es with
  | nil =>
    constructor
    · intro hr
      injection hr with hr
      exact ⟨[], [], rfl, .nil, hr.symm⟩
    · rintro ⟨lines, found, hlines, hall, rfl⟩
      obtain rfl := List.map_eq_nil_iff.mp hlines.symm
      cases hall
      rfl
  | cons l ls ih =>
    constructor
    · intro hr
      unfold readBody at hr
      split at hr
      · cases hr
      · next cs hcs =>
        split at hr
        · cases hr
        · next r hline =>
          obtain ⟨rest, hrest, rfl⟩ := map_ok_iff.mp hr
          obtain ⟨lines, found, hlines, hall, rfl⟩ := ih.mp hrest
          refine ⟨cs :: lines, r :: found, ?_, .cons (readLine_eq_ok_iff.mp hline) hall, ?_⟩
          · rw [List.map_cons, List.map_cons, hcs, hlines]
          · cases r <;> rfl
    · rintro ⟨lines, found, hlines, hall, rfl⟩
      cases hall with
      | nil => cases hlines
      | @cons cs r lines found hline hall =>
        injection hlines with hcs hlines
        unfold readBody
        rw [hcs]
        dsimp only
        rw [readLine_eq_ok_iff.mpr hline, ih.mpr ⟨lines, found, hlines, hall, rfl⟩]
        cases r <;> rfl

theorem Header.forall₂_holdsWhole_iff {lines : List (List Char)} {found : List (Option Entry)}
    (hall : List.Forall₂ h.Holds lines found) : List.Forall₂ h.HoldsWhole lines found ↔
      ∀ cs ∈ lines, Skipped cs ∨ behindZero (words cs) = [] := by
  induction hall with
  | nil => simp
  | cons hline _ ih => rw [List.forall₂_cons, List.forall_mem_cons, ih, holdsWhole_iff hline]

/-- The lines behind a header are the lines from its line on. -/
theorem Header.find_rest {k : Nat} {ls rest : List RawLine} (hf : find n ls = .ok (h, k, rest)) :
    n ≤ k ∧ rest = ls.drop (k + 1 - n) := by
  obtain ⟨pre, l, rfl, -, -, -, rfl⟩ := find_eq_ok_iff.mp hf
  have hsub : n + pre.length + 1 - n = (pre ++ [l]).length := by
    rw [List.length_append, List.length_singleton]
    omega
  refine ⟨Nat.le_add_right n pre.length, ?_⟩
  rw [hsub, List.append_cons pre l rest, List.drop_left]

/-! ## Files -/

/-- Whenever a file is read, each line behind its header is blank or a comment, or gives one clause
with all numbers in front of its zero. Nothing of the lines is lost if and only if none of them has
words behind its zero. -/
theorem read_keeps_text {format : Format} {bs : Bytes} {i : Instance}
    (hread : Instance.read format bs = .ok i) : ∃ lines found,
      ((rawLines bs).drop i.headerLine).map RawLine.text = lines.map some ∧
      List.Forall₂ i.header.Holds lines found ∧
      i.hard.clauses = found.reduceOption.filterMap Entry.hard? ∧
      i.soft = found.reduceOption.filterMap Entry.soft? ∧
      (List.Forall₂ i.header.HoldsWhole lines found ↔
        ∀ cs ∈ lines, Skipped cs ∨ behindZero (words cs) = []) := by
  obtain ⟨body, entries, hf, -, -, hbody, hhard, hsoft⟩ := Instance.read_ok_iff.mp hread
  obtain ⟨-, hrest⟩ := Header.find_rest hf
  obtain ⟨lines, found, hlines, hall, rfl⟩ := Header.readBody_eq_ok_iff.mp hbody
  rw [Nat.add_sub_cancel] at hrest
  subst hrest
  exact ⟨lines, found, hlines, hall, by rw [hhard], hsoft, Header.forall₂_holdsWhole_iff hall⟩

/-- A comment, a hard clause with blanks behind its zero, and a soft clause without a zero are kept
whole. -/
theorem read_keeps_text_unclosed : ∃ i found,
    Instance.read .wcnf (utf8Encode "p wcnf 2 2 3\nc 1 0 2\n3 1 -2 0 \n1 2\n".toList) = .ok i ∧
      List.Forall₂ i.header.HoldsWhole ["c 1 0 2".toList, "3 1 -2 0 ".toList, "1 2".toList] found ∧
      i.hard.clauses = found.reduceOption.filterMap Entry.hard? ∧
      i.soft = found.reduceOption.filterMap Entry.soft? := by
  have hread : Instance.read .wcnf
      (utf8Encode "p wcnf 2 2 3\nc 1 0 2\n3 1 -2 0 \n1 2\n".toList) = .ok
        ⟨.wcnf 2 2 3, 1, ⟨[⟨[Var.pos ⟨0⟩, Var.neg ⟨1⟩]⟩]⟩, [⟨[Var.pos ⟨1⟩]⟩]⟩ := by
    decide +kernel
  obtain ⟨lines, found, hlines, -, hhard, hsoft, hwhole⟩ := read_keeps_text hread
  obtain rfl : lines = ["c 1 0 2".toList, "3 1 -2 0 ".toList, "1 2".toList] := by
    refine (List.map_inj_right fun _ _ => Option.some.inj).mp (hlines.symm.trans ?_)
    decide +kernel
  refine ⟨_, found, hread, hwhole.mpr ?_, hhard, hsoft⟩
  simp only [skipped_iff]
  decide

/-- The second clause of a line is lost, and its number is in no clause. -/
theorem read_second_clause_lost : ∃ i,
    Instance.read .cnf (utf8Encode "p cnf 2 2\n1 0 2 0\n".toList) = .ok i ∧
      (¬ ∃ r, i.header.HoldsWhole "1 0 2 0".toList r) ∧
      ∀ c ∈ i.hard.clauses ++ i.soft, Var.pos ⟨1⟩ ∉ c.lits := by
  refine ⟨⟨.cnf 2 2, 1, ⟨[⟨[Var.pos ⟨0⟩]⟩]⟩, []⟩, by decide +kernel, ?_, by decide⟩
  rintro ⟨r, hr⟩
  have hend := (Header.holdsWhole_iff hr.holds).mp hr
  rw [skipped_iff] at hend
  exact absurd hend (by decide)

end Dimacs

end Clausal
