import Clausal.Dimacs.Instance
import Clausal.Dimacs.Written
import Clausal.Proofs.Numerals
import Clausal.Proofs.WrittenLines

/-!
# Reading written clauses

The line of a written clause is read as that clause, and the lines of a body as their entries: a
weighted clause comes back on the side of the top weight on which it was written.
-/

namespace Clausal.Dimacs

/-! ## Literals -/

theorem fitsInt_signed {l : Lit} (h : l.index < Var.maxIndex) : Decimal.fitsInt l.signed = true := by
  rw [Var.maxIndex] at h
  unfold Decimal.fitsInt Lit.signed
  simp only [Bool.and_eq_true, decide_eq_true_eq]
  split <;> omega

theorem litOfWord_writeInt {l : Lit} (h : l.index < Var.maxIndex) :
    litOfWord (Decimal.writeInt l.signed) = some l := by
  unfold litOfWord
  rw [Decimal.parseInt_writeInt (fitsInt_signed h)]
  show (Lit.ofInt l.signed).toOption = some l
  rw [Lit.ofInt_signed]
  rfl

theorem litsOfWords_written {ls : List Lit} (h : ls.all hasNumber = true) :
    litsOfWords (ls.map (fun l => Decimal.writeInt l.signed) ++ [['0']]) = some ls := by
  induction ls with
  | nil => rfl
  | cons l ls ih =>
    rw [List.all_cons, Bool.and_eq_true] at h
    rw [List.map_cons, List.cons_append, litsOfWords, litOfWord_writeInt (of_decide_eq_true h.1),
      ih h.2]
    rfl

/-! ## Clause lines -/

/-- The line of a clause without its line feed. -/
def clauseLine (c : Clause) : List Char := c.lits.flatMap litText ++ ['0']

/-- The line of a weighted clause without its line feed. -/
def weightedLine (weight : Nat) (c : Clause) : List Char :=
  Decimal.write weight ++ ' ' :: clauseLine c

theorem clauseText_eq (c : Clause) : clauseText c = clauseLine c ++ ['\n'] := by
  simp [clauseText, clauseLine]

theorem weightedText_eq (w : Nat) (c : Clause) : weightedText w c = weightedLine w c ++ ['\n'] := by
  simp [weightedText, weightedLine, clauseText_eq]

theorem words_clauseLine (c : Clause) : words (clauseLine c) =
    c.lits.map (fun l => Decimal.writeInt l.signed) ++ [['0']] := by
  unfold clauseLine
  induction c.lits with
  | nil => exact words_of_isWord (isWord_of_check rfl)
  | cons l ls ih =>
    rw [List.flatMap_cons, litText, List.append_assoc, List.append_assoc, List.singleton_append,
      words_append_blank (Decimal.isWord_writeInt _) isBlank_space, ih]
    rfl

theorem words_weightedLine (w : Nat) (c : Clause) :
    words (weightedLine w c) = Decimal.write w :: words (clauseLine c) :=
  words_append_blank (Decimal.isWord_write w) isBlank_space _

/-- A clause line starts with a number, if only with the zero at its end. -/
theorem exists_words_clauseLine (c : Clause) :
    ∃ z ws, words (clauseLine c) = Decimal.writeInt z :: ws := by
  rw [words_clauseLine]
  cases c.lits with
  | nil => exact ⟨0, [], rfl⟩
  | cons l ls => exact ⟨l.signed, _, rfl⟩

theorem isComment_writeInt (z : Int) (ws : List (List Char)) :
    isComment (Decimal.writeInt z :: ws) = false := by
  have hc : 'c' ∉ Decimal.writeInt z := by
    cases z with
    | ofNat n => exact fun h => absurd (Decimal.isDigit_of_mem_write h) (by decide)
    | negSucc n =>
      refine List.not_mem_cons_of_ne_of_not_mem (by decide) fun h => ?_
      exact absurd (Decimal.isDigit_of_mem_write h) (by decide)
  unfold isComment
  split
  · next heq =>
    injection heq with heq
    rw [heq] at hc
    exact absurd List.mem_cons_self hc
  · rfl

theorem readClauseLine_clauseLine {c : Clause} (h : c.lits.all hasNumber = true) :
    readClauseLine (clauseLine c) = .entry c := by
  have hlits : litsOfWords (words (clauseLine c)) = some c.lits := by
    rw [words_clauseLine, litsOfWords_written h]
  obtain ⟨z, ws, hws⟩ := exists_words_clauseLine c
  rw [hws] at hlits
  unfold readClauseLine
  rw [hws]
  simp only [isComment_writeInt, List.isEmpty_cons, Bool.or_self, Bool.false_eq_true, if_false]
  rw [hlits]

theorem weightOfWord_write {n : Nat} (h0 : 0 < n) (hn : n ≤ Decimal.maxNat) :
    weightOfWord (Decimal.write n) = some n := by
  unfold weightOfWord
  rw [Decimal.parseCount_write hn]
  split
  · next heq =>
    injection heq with heq
    omega
  · rfl

theorem readWeightedLine_weightedLine {w : Nat} {c : Clause} (h0 : 0 < w)
    (hw : w ≤ Decimal.maxNat) (h : c.lits.all hasNumber = true) :
    readWeightedLine (weightedLine w c) = .entry (w, c) := by
  have hlits : litsOfWords (words (clauseLine c)) = some c.lits := by
    rw [words_clauseLine, litsOfWords_written h]
  obtain ⟨z, ws, hws⟩ := exists_words_clauseLine c
  have hcomment : isComment (Decimal.write w :: words (clauseLine c)) = false :=
    isComment_writeInt (Int.ofNat w) _
  rw [hws] at hlits hcomment
  unfold readWeightedLine
  rw [words_weightedLine, hws]
  simp only [hcomment, List.isEmpty_cons, Bool.or_self, Bool.false_eq_true, if_false]
  rw [weightOfWord_write h0 hw, hlits]

/-! ## Characters of a line -/

theorem newline_not_mem_clauseLine (c : Clause) : '\n' ∉ clauseLine c := by
  unfold clauseLine litText
  simp only [List.mem_append, List.mem_flatMap, List.mem_singleton, not_or, not_exists, not_and]
  exact ⟨fun l _ => ⟨(Decimal.isWord_writeInt _).newline_not_mem, by decide⟩, by decide⟩

theorem newline_not_mem_weightedLine (w : Nat) (c : Clause) : '\n' ∉ weightedLine w c := by
  unfold weightedLine
  rw [List.mem_append, List.mem_cons, not_or, not_or]
  exact ⟨(Decimal.isWord_write w).newline_not_mem, by decide,
    newline_not_mem_clauseLine c⟩

theorem getLast?_clauseLine (c : Clause) : (clauseLine c).getLast? = some '0' :=
  List.getLast?_concat

theorem getLast?_weightedLine (w : Nat) (c : Clause) :
    (weightedLine w c).getLast? = some '0' := by
  have h : weightedLine w c = (Decimal.write w ++ ' ' :: c.lits.flatMap litText) ++ ['0'] := by
    simp [weightedLine, clauseLine]
  rw [h, List.getLast?_concat]

/-! ## Bodies -/

/-- The line of an entry under a header. -/
def Header.lineOf (h : Header) : Entry → List Char
  | .hard c => match h with
    | .cnf .. => clauseLine c
    | .wcnf _ _ top => weightedLine top c
  | .soft c => weightedLine 1 c

theorem newline_not_mem_lineOf (h : Header) (e : Entry) : '\n' ∉ h.lineOf e := by
  cases e with
  | hard c =>
    cases h with
    | cnf => exact newline_not_mem_clauseLine c
    | wcnf => exact newline_not_mem_weightedLine _ c
  | soft c => exact newline_not_mem_weightedLine 1 c

theorem getLast?_lineOf (h : Header) (e : Entry) : (h.lineOf e).getLast? ≠ some '\r' := by
  have h0 : (h.lineOf e).getLast? = some '0' := by
    cases e with
    | hard c =>
      cases h with
      | cnf => exact getLast?_clauseLine c
      | wcnf => exact getLast?_weightedLine _ c
    | soft c => exact getLast?_weightedLine 1 c
  rw [h0]
  decide

theorem readLine_cnf_hard {v k n : Nat} {c : Clause} (h : c.lits.all hasNumber = true) :
    (Header.cnf v k).readLine n ((Header.cnf v k).lineOf (.hard c)) = .ok (some (.hard c)) := by
  unfold Header.readLine Header.lineOf
  simp only [readClauseLine_clauseLine h]

theorem readLine_wcnf_hard {v k t n : Nat} {c : Clause} (h0 : 0 < t) (ht : t ≤ Decimal.maxNat)
    (h : c.lits.all hasNumber = true) :
    (Header.wcnf v k t).readLine n ((Header.wcnf v k t).lineOf (.hard c)) =
      .ok (some (.hard c)) := by
  unfold Header.readLine Header.lineOf
  simp only [readWeightedLine_weightedLine h0 ht h]
  rw [if_pos (Nat.le_refl t)]

theorem readLine_wcnf_soft {v k t n : Nat} {c : Clause} (ht : 1 < t)
    (h : c.lits.all hasNumber = true) :
    (Header.wcnf v k t).readLine n ((Header.wcnf v k t).lineOf (.soft c)) =
      .ok (some (.soft c)) := by
  unfold Header.readLine Header.lineOf
  simp only [readWeightedLine_weightedLine Nat.one_pos (by decide) h]
  rw [if_neg (Nat.not_le.mpr ht), if_pos trivial]

/-- If each line under a header is read as its entry then the lines are read as the entries. -/
theorem readBody_lineOf {h : Header} {es : List Entry}
    (hes : ∀ e ∈ es, ∀ n, h.readLine n (h.lineOf e) = .ok (some e)) (n : Nat) :
    h.readBody n ((es.map h.lineOf).map RawLine.ofText) = .ok es := by
  induction es generalizing n with
  | nil => rfl
  | cons e es ih =>
    obtain ⟨he, hes⟩ := List.forall_mem_cons.mp hes
    rw [List.map_cons, List.map_cons, Header.readBody,
      RawLine.text_ofText (getLast?_lineOf h e)]
    simp only [he n, ih hes]
    rfl

end Clausal.Dimacs
