import Clausal.Text.Blank
import Clausal.Text.Decimal
import Clausal.Text.Lines
import Mathlib.Data.List.Basic

/-!
# Lines and words of a written text

A text that is put together from lines splits into those lines again, since no byte of another
character is a line feed. A text that is cut behind a line feed splits into the lines of both parts
(`rawLines_append`). A line that is put together from words splits into those words.
-/

namespace Clausal

/-! ## Small bytes -/

theorem or_ne_of_lt {b x y : UInt8} (h : b < y) : b ≠ x ||| y := by
  intro heq
  have hle : y.toNat ≤ (x ||| y).toNat := by
    rw [UInt8.toNat_or]
    exact Nat.right_le_or
  rw [← heq] at hle
  have hlt := UInt8.lt_iff_toNat_lt.mp h
  omega

/-- A character of more than one byte has no byte below 128, and one byte is the character. -/
theorem toNat_of_mem_utf8EncodeChar {c : Char} {b : UInt8} (hb : b < 128)
    (h : b ∈ String.utf8EncodeChar c) : c.toNat = b.toNat := by
  have hne : ∀ x y : UInt8, 128 ≤ y → b ≠ x ||| y :=
    fun x y hy => or_ne_of_lt (UInt8.lt_of_lt_of_le hb hy)
  match hs : c.utf8Size, c.utf8Size_pos, c.utf8Size_le_four with
  | 1, _, _ =>
    rw [String.utf8EncodeChar_eq_singleton hs, List.mem_singleton] at h
    have hle : c.val.toNat ≤ 127 := UInt32.le_iff_toNat_le.mp (Char.utf8Size_eq_one_iff.mp hs)
    have hval : b.toNat = c.val.toNat % 256 := congrArg UInt8.toNat h
    rw [hval, Nat.mod_eq_of_lt (by omega)]
    rfl
  | 2, _, _ =>
    simp [String.utf8EncodeChar_eq_cons_cons hs, hne] at h
  | 3, _, _ =>
    simp [String.utf8EncodeChar_eq_cons_cons_cons hs, hne] at h
  | 4, _, _ =>
    simp [String.utf8EncodeChar_eq_cons_cons_cons_cons hs, hne] at h

theorem newline_not_mem_utf8Encode {cs : List Char} (h : '\n' ∉ cs) : 10 ∉ utf8Encode cs := by
  intro hmem
  obtain ⟨c, hc, hmem⟩ := List.mem_flatMap.mp hmem
  obtain rfl : c = '\n' := Char.toNat_inj.mp (toNat_of_mem_utf8EncodeChar (by decide) hmem)
  exact h hc

/-! ## Lines -/

/-- The bytes of a line with its line feed behind it. -/
def RawLine.ofText (cs : List Char) : RawLine := ⟨utf8Encode cs, true⟩

/-- Each line with a line feed behind it. -/
def linesText (ls : List (List Char)) : List Char := ls.flatMap fun l => l ++ ['\n']

theorem linesText_cons (l : List Char) (ls : List (List Char)) :
    linesText (l :: ls) = l ++ '\n' :: linesText ls := by simp [linesText]

theorem linesText_append (ls ms : List (List Char)) :
    linesText (ls ++ ms) = linesText ls ++ linesText ms := List.flatMap_append

theorem rawLines_append_newline {bs : Bytes} (h : 10 ∉ bs) (rest : Bytes) :
    rawLines (bs ++ 10 :: rest) = ⟨bs, true⟩ :: rawLines rest := by
  induction bs with
  | nil => rfl
  | cons b bs ih =>
    rw [List.mem_cons, not_or] at h
    rw [List.cons_append, rawLines_cons, ih h.2, RawLine.cons, if_neg (Ne.symm h.1)]

/-- The text is empty or ends in a line feed. -/
def EndsLine (bs : Bytes) : Prop := bs = [] ∨ [10] <:+ bs

instance (bs : Bytes) : Decidable (EndsLine bs) :=
  inferInstanceAs (Decidable (bs = [] ∨ [10] <:+ bs))

theorem rawLines_ne_nil {bs : Bytes} (h : bs ≠ []) : rawLines bs ≠ [] := by
  intro hnil
  have hbs := flatMap_whole_rawLines bs
  rw [hnil] at hbs
  exact h hbs.symm

theorem RawLine.cons_append (b : UInt8) {ls : List RawLine} (h : ls ≠ []) (ms : List RawLine) :
    RawLine.cons b (ls ++ ms) = RawLine.cons b ls ++ ms := by
  obtain ⟨l, ls, rfl⟩ := List.exists_cons_of_ne_nil h
  unfold RawLine.cons
  split <;> rfl

/-- The lines of a text that ends in a line feed stay its lines in front of another text. -/
theorem rawLines_append {bs : Bytes} (h : EndsLine bs) (cs : Bytes) :
    rawLines (bs ++ cs) = rawLines bs ++ rawLines cs := by
  rcases h with rfl | ⟨ds, rfl⟩
  · rfl
  · induction ds with
    | nil => exact rawLines_append_newline List.not_mem_nil cs
    | cons d ds ih =>
      have hne : rawLines (ds ++ [10]) ≠ [] :=
        rawLines_ne_nil (List.append_ne_nil_of_right_ne_nil ds (List.cons_ne_nil 10 []))
      rw [List.cons_append, List.cons_append, rawLines_cons, ih, RawLine.cons_append d hne,
        rawLines_cons]

/-- Lines of a text: no line holds a line feed, and only the last one may lack it, unless it is
empty. -/
inductive Split : List RawLine → Prop
  | nil : Split []
  | last {bs : Bytes} (h : 10 ∉ bs) (hne : bs ≠ []) : Split [⟨bs, false⟩]
  | cons {bs : Bytes} {ls : List RawLine} (h : 10 ∉ bs) (hls : Split ls) : Split (⟨bs, true⟩ :: ls)

theorem split_rawLines (bs : Bytes) : Split (rawLines bs) := by
  induction bs with
  | nil => exact .nil
  | cons b bs ih =>
    rw [rawLines_cons]
    unfold RawLine.cons
    by_cases hb : b = 10
    · rw [if_pos hb]
      exact .cons List.not_mem_nil ih
    · rw [if_neg hb]
      generalize rawLines bs = ls at ih ⊢
      cases ih with
      | nil => exact .last (List.not_mem_cons_of_ne_of_not_mem (Ne.symm hb) List.not_mem_nil) nofun
      | last h => exact .last (List.not_mem_cons_of_ne_of_not_mem (Ne.symm hb) h) nofun
      | cons h hls => exact .cons (List.not_mem_cons_of_ne_of_not_mem (Ne.symm hb) h) hls

theorem Split.of_append {ls ms : List RawLine} (h : Split (ls ++ ms)) : Split ls := by
  induction ls with
  | nil => exact .nil
  | cons l ls ih =>
    rw [List.cons_append] at h
    generalize hrest : ls ++ ms = rest at h
    cases h with
    | last h hne =>
      obtain ⟨rfl, -⟩ := List.append_eq_nil_iff.mp hrest
      exact .last h hne
    | cons h hls => exact .cons h (ih (hrest ▸ hls))

theorem rawLines_of_not_mem {bs : Bytes} (h : 10 ∉ bs) (hne : bs ≠ []) :
    rawLines bs = [⟨bs, false⟩] := by
  induction bs with
  | nil => exact absurd rfl hne
  | cons b bs ih =>
    rw [List.mem_cons, not_or] at h
    rw [rawLines_cons]
    unfold RawLine.cons
    rw [if_neg (Ne.symm h.1)]
    cases bs with
    | nil => rfl
    | cons c bs => rw [ih h.2 (List.cons_ne_nil c bs)]

theorem Split.rawLines_flatMap {ls : List RawLine} (h : Split ls) :
    rawLines (ls.flatMap RawLine.whole) = ls := by
  induction h with
  | nil => rfl
  | last h hne =>
    rw [List.flatMap_singleton]
    exact rawLines_of_not_mem h hne
  | @cons bs ls h _ ih =>
    have hwhole : RawLine.whole ⟨bs, true⟩ = bs ++ [10] := rfl
    rw [List.flatMap_cons, hwhole, List.append_assoc, List.singleton_append,
      rawLines_append_newline h, ih]

theorem rawLines_line {cs : List Char} (h : '\n' ∉ cs) (ds : List Char) :
    rawLines (utf8Encode (cs ++ '\n' :: ds)) = .ofText cs :: rawLines (utf8Encode ds) := by
  have hnl : utf8Encode ('\n' :: ds) = 10 :: utf8Encode ds := rfl
  rw [utf8Encode_append, hnl, rawLines_append_newline (newline_not_mem_utf8Encode h)]
  rfl

theorem rawLines_linesText_append {ls : List (List Char)} (h : ∀ l ∈ ls, '\n' ∉ l)
    (cs : List Char) : rawLines (utf8Encode (linesText ls ++ cs)) =
      ls.map RawLine.ofText ++ rawLines (utf8Encode cs) := by
  induction ls with
  | nil => rfl
  | cons l ls ih =>
    obtain ⟨hl, hls⟩ := List.forall_mem_cons.mp h
    rw [linesText_cons, List.append_assoc, List.cons_append, rawLines_line hl, ih hls]
    rfl

theorem rawLines_linesText {ls : List (List Char)} (h : ∀ l ∈ ls, '\n' ∉ l) :
    rawLines (utf8Encode (linesText ls)) = ls.map RawLine.ofText := by
  have happend := rawLines_linesText_append h []
  rwa [List.append_nil, utf8Encode_nil, rawLines_nil, List.append_nil] at happend

theorem RawLine.fullText_ofText (cs : List Char) :
    (RawLine.ofText cs).fullText = some (cs ++ ['\n']) := by
  have h : (RawLine.ofText cs).whole = utf8Encode (cs ++ ['\n']) := by
    rw [utf8Encode_append]
    rfl
  rw [RawLine.fullText, h, utf8Decode_utf8Encode]

theorem RawLine.text_ofText {cs : List Char} (h : cs.getLast? ≠ some '\r') :
    (RawLine.ofText cs).text = some cs := by
  have hd : dropReturn cs = cs := if_neg h
  rw [RawLine.text, RawLine.ofText, utf8Decode_utf8Encode]
  exact congrArg some hd

/-! ## Words -/

/-- Text without blanks. -/
def IsWord (w : List Char) : Prop := w ≠ [] ∧ ∀ c ∈ w, isBlank c = false

/-- The check of a given word by evaluation. -/
theorem isWord_of_check {w : List Char} (h : (!w.isEmpty && w.all fun c => !isBlank c) = true) :
    IsWord w := by
  simpa [IsWord] using h

theorem IsWord.not_isEmpty {w : List Char} (h : IsWord w) : w.isEmpty = false :=
  List.isEmpty_eq_false_iff.mpr h.1

theorem IsWord.append {v w : List Char} (hv : IsWord v) (hw : IsWord w) : IsWord (v ++ w) :=
  ⟨List.append_ne_nil_of_left_ne_nil hv.1 w, List.forall_mem_append.mpr ⟨hv.2, hw.2⟩⟩

theorem isBlank_space : isBlank ' ' = true := rfl

theorem isBlank_newline : isBlank '\n' = true := rfl

@[simp] theorem words_nil : words [] = [] := by simp [words, runsOutside]

theorem words_append_blank {w : List Char} (hw : IsWord w) {b : Char} (hb : isBlank b = true)
    (cs : List Char) : words (w ++ b :: cs) = w :: words cs := by
  unfold words runsOutside
  rw [List.splitOnP_append_cons_of_forall_mem hw.2 b hb,
    List.filter_cons_of_pos (by simp [hw.not_isEmpty])]

theorem words_of_isWord {w : List Char} (hw : IsWord w) : words w = [w] := by
  unfold words runsOutside
  rw [List.splitOnP_eq_singleton hw.2]
  simp [hw.not_isEmpty]

theorem words_intercalate {ws : List (List Char)} (h : ∀ w ∈ ws, IsWord w) :
    words ([' '].intercalate ws ++ ['\n']) = ws := by
  induction ws with
  | nil => rfl
  | cons w ws ih =>
    obtain ⟨hw, hws⟩ := List.forall_mem_cons.mp h
    cases ws with
    | nil => rw [List.intercalate_singleton, words_append_blank hw isBlank_newline, words_nil]
    | cons v vs =>
      rw [List.intercalate_cons_cons, List.append_assoc, List.append_assoc, List.singleton_append,
        words_append_blank hw isBlank_space, ih hws]

theorem IsWord.newline_not_mem {w : List Char} (h : IsWord w) : '\n' ∉ w :=
  fun hmem => absurd (h.2 _ hmem) (by decide)

theorem not_mem_intercalate {c : Char} {sep : List Char} (hsep : c ∉ sep)
    {ws : List (List Char)} (h : ∀ w ∈ ws, c ∉ w) : c ∉ sep.intercalate ws := by
  induction ws with
  | nil => exact List.not_mem_nil
  | cons w ws ih =>
    obtain ⟨hw, hws⟩ := List.forall_mem_cons.mp h
    cases ws with
    | nil =>
      rw [List.intercalate_singleton]
      exact hw
    | cons v vs =>
      rw [List.intercalate_cons_cons, List.mem_append, List.mem_append, not_or, not_or]
      exact ⟨⟨hw, hsep⟩, ih hws⟩

theorem newline_not_mem_intercalate {ws : List (List Char)} (h : ∀ w ∈ ws, IsWord w) :
    '\n' ∉ [' '].intercalate ws :=
  not_mem_intercalate (by decide) fun w hw => (h w hw).newline_not_mem

/-! ## Numbers -/

namespace Decimal

theorem isBlank_of_isDigit {c : Char} (h : c.isDigit = true) : isBlank c = false := by
  unfold isBlank
  simp only [Bool.or_eq_false_iff, beq_eq_false_iff_ne]
  refine ⟨⟨⟨?_, ?_⟩, ?_⟩, ?_⟩ <;> rintro rfl <;> exact absurd h (by decide)

theorem isWord_write (n : Nat) : IsWord (write n) :=
  ⟨write_ne_nil n, fun _ hc => isBlank_of_isDigit (isDigit_of_mem_write hc)⟩

theorem isWord_writeInt (z : Int) : IsWord (writeInt z) := by
  cases z with
  | ofNat n => exact isWord_write n
  | negSucc n => exact IsWord.append (v := ['-']) (isWord_of_check rfl) (isWord_write (n + 1))

theorem readCount_write {n : Nat} (hn : n ≤ maxNat) : readCount (write n) = some (n, []) := by
  simp [readCount, readNat_write, hn]

end Decimal

end Clausal
