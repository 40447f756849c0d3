import Clausal.Proofs.JoinedBodies

/-!
# Line ends

A line ends at a line feed, at a carriage return with a line feed, or at the end of the file. Blanks
behind a line are no part of its words, and header lines are trimmed, so the reader gives the same
result for every choice of line ends: files without carriage returns may get one in front of each
line feed, and one more line feed at the end (`read_any_line_ends`).
-/

namespace Clausal

/-! ## Text in front of blanks -/

theorem utf8Encode_singleton {c : Char} (hc : c.toNat < 128) :
    utf8Encode [c] = [c.val.toUInt8] := by
  have hsize : c.utf8Size = 1 := Char.utf8Size_eq_one_iff.mpr
    (UInt32.le_iff_toNat_le.mpr (Nat.le_of_lt_succ hc))
  unfold utf8Encode
  rw [List.flatMap_singleton, String.utf8EncodeChar_eq_singleton hsize]

theorem utf8Decode_append_char {c : Char} (hc : c.toNat < 128) (bs : Bytes) :
    utf8Decode (bs ++ utf8Encode [c]) = (utf8Decode bs).map (· ++ [c]) := by
  ext ds
  rw [utf8Decode_eq_some_iff, Option.map_eq_some_iff]
  constructor
  · intro h
    rcases List.eq_nil_or_concat ds with rfl | ⟨es, d, rfl⟩
    · rw [utf8Encode_singleton hc] at h
      simp at h
    -- the last byte is the character, so it is the last character
    obtain rfl : c = d := by
      have hlast : (utf8Encode es ++ String.utf8EncodeChar d).getLast? = some c.val.toUInt8 := by
        have hd : utf8Encode [d] = String.utf8EncodeChar d := List.flatMap_singleton _ _
        rw [← hd, ← utf8Encode_append, ← List.concat_eq_append, h, utf8Encode_singleton hc]
        exact List.getLast?_concat
      have hne : String.utf8EncodeChar d ≠ [] := String.utf8EncodeChar_ne_nil
      rw [List.getLast?_append_of_ne_nil _ hne] at hlast
      have hnat : c.val.toUInt8.toNat = c.toNat :=
        Nat.mod_eq_of_lt (Nat.lt_trans hc (by decide))
      have hlt : c.val.toUInt8 < 128 := UInt8.lt_iff_toNat_lt.mpr (hnat ▸ hc)
      rw [← Char.toNat_inj, ← hnat]
      exact (toNat_of_mem_utf8EncodeChar hlt (List.mem_of_getLast? hlast)).symm
    rw [List.concat_eq_append, utf8Encode_append] at h
    exact ⟨es, utf8Decode_eq_some_iff.mpr (List.append_cancel_right h), List.concat_eq_append.symm⟩
  · rintro ⟨es, hes, rfl⟩
    rw [utf8Encode_append, utf8Decode_eq_some_iff.mp hes]

theorem toNat_lt_of_isBlank {c : Char} (h : isBlank c = true) : c.toNat < 128 := by
  simp only [isBlank, Bool.or_eq_true, beq_iff_eq] at h
  rcases h with ((rfl | rfl) | rfl) | rfl <;> decide

theorem utf8Decode_append_blanks {e : List Char} (he : Blanks e) (bs : Bytes) :
    utf8Decode (bs ++ utf8Encode e) = (utf8Decode bs).map (· ++ e) := by
  induction e generalizing bs with
  | nil => simp
  | cons c e ih =>
    obtain ⟨hc, he⟩ := List.forall_mem_cons.mp he
    have hsplit : utf8Encode (c :: e) = utf8Encode [c] ++ utf8Encode e := utf8Encode_append [c] e
    rw [hsplit, ← List.append_assoc, ih he, utf8Decode_append_char (toNat_lt_of_isBlank hc),
      Option.map_map]
    congr 1
    funext ds
    exact List.append_assoc ds [c] e

section Blanks

variable {e : List Char} (he : Blanks e) (cs : List Char)

include he

theorem words_append_blanks : words (cs ++ e) = words cs := by
  cases e with
  | nil => rw [List.append_nil]
  | cons c e =>
    obtain ⟨hc, he⟩ := List.forall_mem_cons.mp he
    rw [words_append_cons hc, words_blanks he, List.append_nil]

theorem trimEnd_append_blanks : trimEnd (cs ++ e) = trimEnd cs := by
  unfold trimEnd
  rw [List.reverse_append, List.dropWhile_append_of_pos]
  exact fun c hc => isSpace_of_isBlank (he c (List.mem_reverse.mp hc))

/-- Blanks behind a text stay behind it, unless it is white space only. -/
theorem trimStart_append_blanks : trimStart (cs ++ e) = [] ∧ trimStart cs = [] ∨
    trimStart (cs ++ e) = trimStart cs ++ e ∧ trimStart cs ≠ [] := by
  have hspace : e.dropWhile isSpace = [] :=
    List.dropWhile_eq_nil_iff.mpr fun c hc => isSpace_of_isBlank (he c hc)
  unfold trimStart
  rw [List.dropWhile_append, hspace]
  by_cases hnil : cs.dropWhile isSpace = []
  · exact .inl ⟨by rw [hnil]; rfl, hnil⟩
  · exact .inr ⟨if_neg (by simpa using hnil), hnil⟩

theorem words_trimStart_append_blanks : words (trimStart (cs ++ e)) = words (trimStart cs) := by
  rcases trimStart_append_blanks he cs with ⟨hl, hr⟩ | ⟨hl, -⟩
  · rw [hl, hr]
  · rw [hl, words_append_blanks he]

theorem isSkipped_trimStart_append_blanks :
    Dimacs.Header.isSkipped (trimStart (cs ++ e)) = Dimacs.Header.isSkipped (trimStart cs) := by
  rcases trimStart_append_blanks he cs with ⟨hl, hr⟩ | ⟨hl, hr⟩
  · rw [hl, hr]
  · rw [hl]
    obtain ⟨c, s, hs⟩ := List.exists_cons_of_ne_nil hr
    rw [hs]
    rfl

end Blanks

/-! ## Other ends of a line -/

/-- The end of a line, without the carriage return that may stand in it. -/
def RawLine.feed (l : RawLine) : List Char := if l.ended then ['\n'] else []

theorem RawLine.blanks_feed (l : RawLine) : Blanks l.feed := by
  unfold feed
  split <;> exact blanks_of_all rfl

theorem RawLine.fullText_eq (l : RawLine) :
    l.fullText = (utf8Decode l.bytes).map (· ++ l.feed) := by
  rw [← utf8Decode_append_blanks l.blanks_feed]
  unfold fullText whole feed
  split
  · rfl
  · rw [utf8Encode_nil, List.append_nil]

/-- The same line with the same end or with one more byte in its end. -/
inductive SameButEnd : RawLine → RawLine → Prop
  | refl (l : RawLine) : SameButEnd l l
  | ended {bs : Bytes} (h : 13 ∉ bs) : SameButEnd ⟨bs, false⟩ ⟨bs, true⟩
  | returned {bs : Bytes} (h : 13 ∉ bs) : SameButEnd ⟨bs, true⟩ ⟨bs ++ [13], true⟩

/-- The same lines up to their ends, and perhaps an empty line behind them. -/
inductive SameButEnds : List RawLine → List RawLine → Prop
  | nil : SameButEnds [] []
  | extra : SameButEnds [] [⟨[], true⟩]
  | cons {l m : RawLine} {ls ms : List RawLine} (h : SameButEnd l m) (hs : SameButEnds ls ms) :
    SameButEnds (l :: ls) (m :: ms)

theorem dropReturn_of_not_mem {bs : Bytes} {cs : List Char} (h : 13 ∉ bs)
    (hcs : utf8Decode bs = some cs) : dropReturn cs = cs := by
  refine if_neg fun hlast => h ?_
  rw [← utf8Decode_eq_some_iff.mp hcs]
  exact List.mem_flatMap.mpr ⟨'\r', List.mem_of_getLast? hlast, List.mem_singleton.mpr rfl⟩

namespace SameButEnd

variable {l m : RawLine}

theorem text_eq (h : SameButEnd l m) : m.text = l.text := by
  cases h with
  | refl => rfl
  | @ended bs h =>
    unfold RawLine.text
    cases hcs : utf8Decode bs with
    | none => rfl
    | some cs => exact congrArg some (dropReturn_of_not_mem h hcs)
  | @returned bs h =>
    have hdecode : utf8Decode (bs ++ [13]) = (utf8Decode bs).map (· ++ ['\r']) :=
      utf8Decode_append_char (c := '\r') (by decide) bs
    unfold RawLine.text
    simp only [hdecode, if_true]
    cases hcs : utf8Decode bs with
    | none => rfl
    | some cs =>
      show some (dropReturn (cs ++ ['\r'])) = some (dropReturn cs)
      rw [dropReturn_of_not_mem h hcs, dropReturn, List.getLast?_concat, if_pos rfl,
        List.dropLast_concat]

/-- With its end a line is the same text up to the blanks behind it. -/
theorem fullText_cases (h : SameButEnd l m) : l.fullText = none ∧ m.fullText = none ∨
    ∃ cs d e, Blanks d ∧ Blanks e ∧ l.fullText = some (cs ++ d) ∧ m.fullText = some (cs ++ e) := by
  obtain ⟨e, he, hbytes⟩ : ∃ e, Blanks e ∧ m.bytes = l.bytes ++ utf8Encode e := by
    cases h with
    | refl => exact ⟨[], nofun, by simp⟩
    | ended => exact ⟨[], nofun, by simp⟩
    | returned => exact ⟨['\r'], blanks_of_all rfl, rfl⟩
  rw [l.fullText_eq, m.fullText_eq, hbytes, utf8Decode_append_blanks he]
  cases utf8Decode l.bytes with
  | none => exact .inl ⟨rfl, rfl⟩
  | some cs =>
    refine .inr ⟨cs, l.feed, e ++ m.feed, l.blanks_feed, ?_, rfl, ?_⟩
    · exact List.forall_mem_append.mpr ⟨he, m.blanks_feed⟩
    · exact congrArg some (List.append_assoc cs e m.feed)

theorem cons (h : SameButEnd l m) {b : UInt8} (hb : b ≠ 13) :
    SameButEnd { l with bytes := b :: l.bytes } { m with bytes := b :: m.bytes } := by
  cases h with
  | refl => exact .refl _
  | ended h => exact .ended (List.not_mem_cons_of_ne_of_not_mem hb.symm h)
  | returned h => exact .returned (List.not_mem_cons_of_ne_of_not_mem hb.symm h)

end SameButEnd

namespace SameButEnds

variable {ls ms : List RawLine}

theorem refl (ls : List RawLine) : SameButEnds ls ls := by
  induction ls with
  | nil => exact .nil
  | cons l ls ih => exact .cons (.refl l) ih

theorem consByte (h : SameButEnds ls ms) {b : UInt8} (hb : b ≠ 13) :
    SameButEnds (RawLine.cons b ls) (RawLine.cons b ms) := by
  unfold RawLine.cons
  split
  · exact .cons (.refl _) h
  · cases h with
    | nil => exact refl _
    | extra =>
      refine .cons (.ended ?_) .nil
      rw [List.mem_singleton]
      exact hb.symm
    | cons h hs => exact .cons (h.cons hb) hs

end SameButEnds

/-! ## Files with other line ends -/

/-- The file with a carriage return in front of each line feed. -/
def withReturns (bs : Bytes) : Bytes := bs.flatMap fun b => if b = 10 then [13, 10] else [b]

theorem sameButEnds_withReturns {bs : Bytes} (h : 13 ∉ bs) :
    SameButEnds (rawLines bs) (rawLines (withReturns bs)) := by
  induction bs with
  | nil => exact .nil
  | cons b bs ih =>
    rw [List.mem_cons, not_or] at h
    obtain ⟨hb, hbs⟩ := h
    unfold withReturns at ih ⊢
    rw [List.flatMap_cons]
    split
    · next hfeed =>
      subst hfeed
      exact .cons (.returned List.not_mem_nil) (ih hbs)
    · exact (ih hbs).consByte (Ne.symm hb)

theorem sameButEnds_append_newline {bs : Bytes} (h : 13 ∉ bs) :
    SameButEnds (rawLines bs) (rawLines (bs ++ [10])) := by
  induction bs with
  | nil => exact .extra
  | cons b bs ih =>
    rw [List.mem_cons, not_or] at h
    exact (ih h.2).consByte (Ne.symm h.1)

namespace Dimacs

/-! ## Reading with other line ends -/

variable {n : Nat} {l : RawLine} {ls ms : List RawLine}

/-- In the search for a header the blanks behind a line do not count. -/
theorem Header.find_cons_of_blanks {cs e : List Char} (he : Blanks e)
    (hl : l.fullText = some (cs ++ e)) (n : Nat) (ls : List RawLine) :
    find n (l :: ls) = if isSkipped (trimStart cs) then find (n + 1) ls
      else match ofWords (words (trimStart cs)) with
        | none => .error (.badHeader n (trimEnd cs))
        | some h =>
          if h.vars ≤ Var.maxIndex then .ok (h, n, ls) else .error (.tooManyVars n h.vars) := by
  rw [find, hl]
  dsimp only
  refine if_congr (by rw [isSkipped_trimStart_append_blanks he]) rfl ?_
  rw [words_trimStart_append_blanks he]
  cases ofWords (words (trimStart cs)) with
  | none => rw [trimEnd_append_blanks he]
  | some h => rfl

/-- The same error, or the same header on the same line. -/
inductive SameHeader : Except Error (Header × Nat × List RawLine) →
    Except Error (Header × Nat × List RawLine) → Prop
  | error (e : Error) : SameHeader (.error e) (.error e)
  | ok (h : Header) (n : Nat) {ls ms : List RawLine} (hs : SameButEnds ls ms) :
    SameHeader (.ok (h, n, ls)) (.ok (h, n, ms))

theorem sameHeader_find (h : SameButEnds ls ms) (n : Nat) :
    SameHeader (Header.find n ls) (Header.find n ms) := by
  induction h generalizing n with
  | nil => exact .error .noHeader
  | extra =>
    have hskip : Header.find n [⟨[], true⟩] = .error .noHeader := Header.find_eq_noHeader_iff.mpr
      (List.forall_mem_singleton.mpr ⟨['\n'], by decide +kernel, rfl⟩)
    rw [hskip]
    exact .error .noHeader
  | @cons l m ls ms h hs ih =>
    rcases h.fullText_cases with ⟨hl, hm⟩ | ⟨cs, d, e, hd, he, hl, hm⟩
    · rw [Header.find, Header.find, hl, hm]
      exact .error _
    · rw [Header.find_cons_of_blanks hd hl, Header.find_cons_of_blanks he hm]
      split
      · exact ih (n + 1)
      · cases Header.ofWords (words (trimStart cs)) with
        | none => exact .error _
        | some h =>
          dsimp only
          split
          · exact .ok h n hs
          · exact .error _

theorem readBody_sameButEnds (h : Header) (hs : SameButEnds ls ms) (n : Nat) :
    h.readBody n ms = h.readBody n ls := by
  induction hs generalizing n with
  | nil => rfl
  | extra =>
    refine h.readBody_of_clauseless (List.forall_mem_singleton.mpr ⟨[], ?_, .inl rfl⟩) n
    decide +kernel
  | cons hl _ ih =>
    unfold Header.readBody
    rw [hl.text_eq]
    simp only [ih]

theorem read_sameButEnds {bs cs : Bytes} (h : SameButEnds (rawLines bs) (rawLines cs)) :
    Header.read cs = Header.read bs ∧
      ∀ format, Instance.read format cs = Instance.read format bs := by
  have hfind := sameHeader_find h 1
  unfold Header.read Instance.read
  generalize Header.find 1 (rawLines bs) = r at hfind ⊢
  generalize Header.find 1 (rawLines cs) = s at hfind ⊢
  cases hfind with
  | error e => exact ⟨rfl, fun _ => rfl⟩
  | ok h n hs =>
    refine ⟨rfl, fun format => ?_⟩
    simp only [bind, Except.bind, readBody_sameButEnds h hs]

/-- A file without carriage returns is read as it is with one in front of each line feed, and as it
is with one more line feed at the end: the same header, lines and clauses, or the same error. -/
theorem read_any_line_ends {bs : Bytes} (h : 13 ∉ bs) :
    (Header.read (withReturns bs) = Header.read bs ∧ Header.read (bs ++ [10]) = Header.read bs) ∧
    ∀ format, Instance.read format (withReturns bs) = Instance.read format bs ∧
      Instance.read format (bs ++ [10]) = Instance.read format bs := by
  obtain ⟨hheader, hinstance⟩ := read_sameButEnds (sameButEnds_withReturns h)
  obtain ⟨hheader', hinstance'⟩ := read_sameButEnds (sameButEnds_append_newline h)
  exact ⟨⟨hheader, hheader'⟩, fun format => ⟨hinstance format, hinstance' format⟩⟩

/-- A comment, a blank line, and a fault in the last line, which has no line feed. -/
theorem read_any_line_ends_fault :
    Header.read (withReturns (utf8Encode "c two\n\np cnf 2 2\n1 -2 0\n2 x".toList)) =
      .ok (.cnf 2 2) ∧
    Instance.read .cnf (withReturns (utf8Encode "c two\n\np cnf 2 2\n1 -2 0\n2 x".toList)) =
      .error (.badClause 5 "2 x".toList) ∧
    Instance.read .cnf (utf8Encode "c two\n\np cnf 2 2\n1 -2 0\n2 x".toList ++ [10]) =
      .error (.badClause 5 "2 x".toList) := by
  have hreturn : 13 ∉ utf8Encode "c two\n\np cnf 2 2\n1 -2 0\n2 x".toList := by decide +kernel
  obtain ⟨⟨hheader, -⟩, hinstance⟩ := read_any_line_ends hreturn
  obtain ⟨hreturns, hfeed⟩ := hinstance .cnf
  rw [hheader, hreturns, hfeed]
  refine ⟨?_, ?_, ?_⟩ <;> decide +kernel

end Dimacs

end Clausal
