import Clausal.Proofs.ClauseGrammar
import Clausal.Proofs.ReadInstance

/-!
# Texts that end in a header

A header is found behind lines that are blank or comments, whatever follows its own line
(`HeadText.find_append`).
-/

namespace Clausal.Dimacs

variable {h : Header} {head : Bytes} {cs : List Char} {l : RawLine} {pre : List RawLine}

namespace Header

/-- A line that is blank or a comment. -/
def SkippedLine (l : RawLine) : Prop := ∃ cs, l.fullText = some cs ∧ isSkipped (trimStart cs) = true

/-- A line that holds the header. -/
def OnLine (h : Header) (l : RawLine) : Prop :=
  ∃ cs, l.fullText = some cs ∧ ofWords (words (trimStart cs)) = some h

theorem skipped_of_isSkipped (h : isSkipped cs = true) : Skipped cs := by
  cases cs with
  | nil => exact .inl rfl
  | cons c cs =>
    obtain rfl : c = 'c' := beq_iff_eq.mp h
    exact .inr rfl

theorem ofWords_of_skipped (h : Skipped cs) : ofWords (words cs) = none := by
  rw [skipped_iff, Bool.or_eq_true] at h
  rcases h with hblank | hcomment
  · rw [List.isEmpty_iff.mp hblank]
    rfl
  · unfold isComment at hcomment
    split at hcomment
    · next hws =>
      rw [hws]
      rfl
    · cases hcomment

theorem find_skipped (hpre : ∀ m ∈ pre, SkippedLine m) (n : Nat) (rest : List RawLine) :
    find n (pre ++ rest) = find (n + pre.length) rest := by
  induction pre generalizing n with
  | nil => rfl
  | cons m pre ih =>
    obtain ⟨⟨cs, hcs, hskip⟩, hpre⟩ := List.forall_mem_cons.mp hpre
    rw [List.cons_append, find, hcs]
    dsimp only
    rw [if_pos hskip, ih hpre, List.length_cons, Nat.add_assoc, Nat.add_comm 1]

/-- The line of a header is found, and its number of variables is checked. -/
theorem find_onLine (hl : h.OnLine l) (n : Nat) (rest : List RawLine) :
    find n (l :: rest) =
      if h.vars ≤ Var.maxIndex then .ok (h, n, rest) else .error (.tooManyVars n h.vars) := by
  obtain ⟨cs, hcs, hwords⟩ := hl
  have hkept : ¬ isSkipped (trimStart cs) = true := by
    intro hskip
    rw [ofWords_of_skipped (skipped_of_isSkipped hskip)] at hwords
    cases hwords
  rw [find, hcs]
  dsimp only
  rw [if_neg hkept, hwords]

/-- In front of the first line that is neither blank nor a comment, all lines are. -/
theorem skipped_or_first_kept (ls : List RawLine) : (∀ l ∈ ls, SkippedLine l) ∨
    ∃ pre l post, ls = pre ++ l :: post ∧ (∀ m ∈ pre, SkippedLine m) ∧ ¬ SkippedLine l := by
  induction ls with
  | nil => exact .inl nofun
  | cons k ls ih =>
    by_cases hk : SkippedLine k
    · rcases ih with hall | ⟨pre, l, post, rfl, hpre, hl⟩
      · exact .inl (List.forall_mem_cons.mpr ⟨hk, hall⟩)
      · exact .inr ⟨k :: pre, l, post, rfl, List.forall_mem_cons.mpr ⟨hk, hpre⟩, hl⟩
    · exact .inr ⟨[], k, ls, rfl, nofun, hk⟩

theorem find_eq_noHeader_iff {n : Nat} {ls : List RawLine} :
    find n ls = .error .noHeader ↔ ∀ l ∈ ls, SkippedLine l := by
  constructor
  · intro hf
    rcases skipped_or_first_kept ls with hall | ⟨pre, l, post, rfl, hpre, hl⟩
    · exact hall
    · rw [find_skipped hpre, find] at hf
      split at hf
      · cases hf
      · next cs hcs =>
        rw [if_neg fun hskip => hl ⟨cs, hcs, hskip⟩] at hf
        split at hf
        · cases hf
        · split at hf <;> cases hf
  · intro hall
    rw [← List.append_nil ls, find_skipped hall, find]

/-- Which line gives the header that is found, and which lines are left. -/
theorem find_eq_ok_iff {n k : Nat} {ls rest : List RawLine} :
    find n ls = .ok (h, k, rest) ↔ ∃ pre l, ls = pre ++ l :: rest ∧ (∀ m ∈ pre, SkippedLine m) ∧
      h.OnLine l ∧ h.vars ≤ Var.maxIndex ∧ k = n + pre.length := by
  constructor
  · intro hf
    rcases skipped_or_first_kept ls with hall | ⟨pre, l, post, rfl, hpre, hl⟩
    · rw [find_eq_noHeader_iff.mpr hall] at hf
      cases hf
    · rw [find_skipped hpre, find] at hf
      split at hf
      · cases hf
      · next cs hcs =>
        rw [if_neg fun hskip => hl ⟨cs, hcs, hskip⟩] at hf
        split at hf
        · cases hf
        · next h' hh =>
          split at hf
          · next hle =>
            injection hf with hf
            injection hf with hheader hrest
            injection hrest with hline hrest
            subst hheader hline hrest
            exact ⟨pre, l, rfl, hpre, ⟨cs, hcs, hh⟩, hle, rfl⟩
          · cases hf
  · rintro ⟨pre, l, rfl, hpre, hl, hle, rfl⟩
    rw [find_skipped hpre, find_onLine hl, if_pos hle]

theorem find_append {n k : Nat} {ls rest : List RawLine} (hf : find n ls = .ok (h, k, rest))
    (ms : List RawLine) : find n (ls ++ ms) = .ok (h, k, rest ++ ms) := by
  obtain ⟨pre, l, rfl, hfound⟩ := find_eq_ok_iff.mp hf
  exact find_eq_ok_iff.mpr ⟨pre, l, by rw [List.append_assoc, List.cons_append], hfound⟩

theorem length_of_find {n k : Nat} {ls rest : List RawLine} (hf : find n ls = .ok (h, k, rest)) :
    n + ls.length = k + 1 + rest.length := by
  obtain ⟨pre, l, rfl, -, -, -, rfl⟩ := find_eq_ok_iff.mp hf
  rw [List.length_append, List.length_cons]
  omega

end Header

/-- A text that ends in the line of a header. In front of this line all lines are blank or
comments. -/
structure HeadText (head : Bytes) (h : Header) : Prop where
  endsLine : EndsLine head
  lines : ∃ pre l, rawLines head = pre ++ [l] ∧ (∀ m ∈ pre, Header.SkippedLine m) ∧ h.OnLine l

/-- The header is found in the last line of its text, whatever follows. -/
theorem HeadText.find_append (hhead : HeadText head h) (bs : Bytes) :
    Header.find 1 (rawLines (head ++ bs)) =
      if h.vars ≤ Var.maxIndex then .ok (h, (rawLines head).length, rawLines bs)
      else .error (.tooManyVars (rawLines head).length h.vars) := by
  obtain ⟨pre, l, hlines, hpre, hl⟩ := hhead.lines
  rw [rawLines_append hhead.endsLine, hlines, List.append_assoc, List.singleton_append,
    Header.find_skipped hpre, Header.find_onLine hl, List.length_append, List.length_singleton,
    Nat.add_comm 1]

end Clausal.Dimacs
