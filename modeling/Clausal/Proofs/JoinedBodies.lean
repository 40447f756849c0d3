import Clausal.Proofs.HeaderText
import Clausal.Proofs.KeptText

/-!
# Joined bodies

A body that is put together from two parts is read if and only if both parts are read on their own,
and then the entries of the second part follow those of the first. A fault in the first part is the
result; the line of a fault in the second part moves by the lines of the first (`readBody_append`).
So an instance with a joined body has the clauses of both parts in order, and lines without a clause
change nothing (`read_joined_bodies`).
-/

namespace Clausal.Dimacs

/-- A fault in a text that follows `k` other lines. -/
def Error.shift (k : Nat) : Error → Error
  | badClause line content => badClause (line + k) content
  | heavySoftClause line weight => heavySoftClause (line + k) weight
  | e => e

theorem Error.shift_shift (e : Error) (k n : Nat) : (e.shift k).shift n = e.shift (k + n) := by
  cases e <;> simp [shift, Nat.add_assoc]

namespace Instance

/-- The instance of a header, the number of its line, and the entries of a body. -/
def ofEntries (h : Header) (line : Nat) (es : List Entry) : Instance :=
  ⟨h, line, ⟨es.filterMap Entry.hard?⟩, es.filterMap Entry.soft?⟩

/-- The clauses of the second instance behind those of the first. -/
def append (i j : Instance) : Instance :=
  ⟨i.header, i.headerLine, ⟨i.hard.clauses ++ j.hard.clauses⟩, i.soft ++ j.soft⟩

theorem ofEntries_append (h : Header) (line : Nat) (es fs : List Entry) :
    ofEntries h line (es ++ fs) = (ofEntries h line es).append (ofEntries h line fs) := by
  unfold ofEntries
  rw [List.filterMap_append, List.filterMap_append]
  rfl

end Instance

/-- A line of a body that is blank or a comment. -/
def Clauseless (l : RawLine) : Prop := ∃ cs, l.text = some cs ∧ Skipped cs

namespace Header

variable (h : Header)

theorem readLine_shift (k n : Nat) (cs : List Char) :
    h.readLine (n + k) cs = (h.readLine n cs).mapError (Error.shift k) := by
  unfold readLine
  cases h with
  | cnf v c => cases readClauseLine cs <;> rfl
  | wcnf v c top =>
    rcases readWeightedLine cs with _ | ⟨w, c⟩ | _
    · rfl
    · dsimp only
      split
      · rfl
      · split <;> rfl
    · rfl

/-- What a body holds does not depend on the number of its first line. -/
theorem readBody_shift (k n : Nat) (ls : List RawLine) :
    h.readBody (n + k) ls = (h.readBody n ls).mapError (Error.shift k) := by
  induction ls generalizing n with
  | nil => rfl
  | cons l ls ih =>
    unfold readBody
    cases l.text with
    | none => rfl
    | some cs =>
      dsimp only
      rw [readLine_shift]
      cases h.readLine n cs with
      | error e => rfl
      | ok entry =>
        have hnext : n + k + 1 = n + 1 + k := Nat.add_right_comm n k 1
        simp only [Except.mapError]
        rw [hnext, ih]
        cases h.readBody (n + 1) ls <;> rfl

theorem readBody_append (n : Nat) (ls ms : List RawLine) :
    h.readBody n (ls ++ ms) = do
      let es ← h.readBody n ls
      let fs ← h.readBody (n + ls.length) ms
      return es ++ fs := by
  induction ls generalizing n with
  | nil =>
    show h.readBody n ms = (h.readBody n ms).bind fun fs => .ok fs
    cases h.readBody n ms <;> rfl
  | cons l ls ih =>
    have hnext : n + (l :: ls).length = n + 1 + ls.length := Nat.add_right_comm n ls.length 1
    rw [hnext, List.cons_append, readBody, readBody]
    cases l.text with
    | none => rfl
    | some cs =>
      dsimp only
      cases h.readLine n cs with
      | error e => rfl
      | ok entry =>
        dsimp only
        rw [ih]
        cases h.readBody (n + 1) ls with
        | error e => rfl
        | ok es =>
          show Except.map _ (Except.bind (h.readBody (n + 1 + ls.length) ms) _) =
            Except.bind (h.readBody (n + 1 + ls.length) ms) _
          cases h.readBody (n + 1 + ls.length) ms with
          | error e => rfl
          | ok fs => exact congrArg Except.ok (List.append_assoc _ es fs).symm

theorem readBody_of_clauseless {ls : List RawLine} (hskip : ∀ l ∈ ls, Clauseless l) (n : Nat) :
    h.readBody n ls = .ok [] := by
  induction ls generalizing n with
  | nil => rfl
  | cons l ls ih =>
    obtain ⟨⟨cs, hcs, hs⟩, hls⟩ := List.forall_mem_cons.mp hskip
    rw [readBody, hcs]
    dsimp only
    rw [readLine_eq_none_iff.mpr hs]
    dsimp only
    rw [ih hls]
    rfl

/-- A file of the format may have the header. -/
structure Accepted (h : Header) (format : Format) : Prop where
  usable : h.vars ≤ Var.maxIndex
  format_eq : h.format = format
  fits : h.fits = true

end Header

variable {h : Header} {head : Bytes} {format : Format}

/-- Behind an accepted header, an instance is read as its body is. -/
theorem Instance.read_of_find {bs : Bytes} {k : Nat} {body : List RawLine}
    (hf : Header.find 1 (rawLines bs) = .ok (h, k, body)) (ha : h.Accepted format) :
    Instance.read format bs = (h.readBody (k + 1) body).map (.ofEntries h k) := by
  unfold Instance.read
  rw [hf]
  show (if h.format ≠ format then _ else if (!h.fits) = true then _ else _) = _
  rw [if_neg (fun hne => hne ha.format_eq), if_neg (by simp [ha.fits])]
  cases h.readBody (k + 1) body <;> rfl

/-- What is reported of a usable header that is not accepted. -/
def Header.refusal (h : Header) (format : Format) : Error :=
  if h.format = format then .tooManyClauses h.clauses else .wrongFormat format h.format

/-- A header that is not accepted is reported before the body is read. -/
theorem Instance.read_of_not_accepted {bs : Bytes} {k : Nat} {body : List RawLine}
    (hf : Header.find 1 (rawLines bs) = .ok (h, k, body)) (ha : ¬ h.Accepted format) :
    Instance.read format bs = .error (h.refusal format) := by
  unfold Instance.read Header.refusal
  rw [hf]
  show (if h.format ≠ format then _ else if (!h.fits) = true then _ else _) = _
  by_cases hformat : h.format = format
  · have hfits : (!h.fits) = true := (Bool.not_eq_true' _).mpr
      (eq_false_of_ne_true fun hfits => ha ⟨Header.find_usable hf, hformat, hfits⟩)
    rw [if_neg (fun hne => hne hformat), if_pos hfits, if_pos hformat]
    rfl
  · rw [if_pos hformat, if_neg hformat]
    rfl

theorem HeadText.read_of_accepted (hhead : HeadText head h) (ha : h.Accepted format) (bs : Bytes) :
    Instance.read format (head ++ bs) =
      (h.readBody ((rawLines head).length + 1) (rawLines bs)).map
        (.ofEntries h (rawLines head).length) := by
  refine Instance.read_of_find ?_ ha
  rw [hhead.find_append, if_pos ha.usable]

theorem HeadText.read_of_not_accepted (hhead : HeadText head h) (ha : ¬ h.Accepted format) :
    ∃ e, ∀ bs, Instance.read format (head ++ bs) = .error e := by
  by_cases husable : h.vars ≤ Var.maxIndex
  · have hf (bs : Bytes) : Header.find 1 (rawLines (head ++ bs)) =
        .ok (h, (rawLines head).length, rawLines bs) := by
      rw [hhead.find_append, if_pos husable]
    exact ⟨_, fun bs => Instance.read_of_not_accepted (hf bs) ha⟩
  · refine ⟨.tooManyVars (rawLines head).length h.vars, fun bs => Instance.read_of_find_error ?_⟩
    rw [hhead.find_append, if_neg husable]

/-- A file with a joined body is read as the parts of the body are on their own. -/
theorem HeadText.read_append (hhead : HeadText head h) {bs : Bytes} (hbs : EndsLine bs)
    (cs : Bytes) :
    Instance.read format (head ++ (bs ++ cs)) = do
      let i ← Instance.read format (head ++ bs)
      let j ← (Instance.read format (head ++ cs)).mapError (Error.shift (rawLines bs).length)
      return i.append j := by
  by_cases ha : h.Accepted format
  · rw [hhead.read_of_accepted ha, hhead.read_of_accepted ha, hhead.read_of_accepted ha,
      rawLines_append hbs, Header.readBody_append, Header.readBody_shift h (rawLines bs).length]
    cases h.readBody ((rawLines head).length + 1) (rawLines bs) with
    | error e => rfl
    | ok es =>
      cases h.readBody ((rawLines head).length + 1) (rawLines cs) with
      | error e => rfl
      | ok fs => exact congrArg Except.ok (Instance.ofEntries_append h _ es fs)
  · obtain ⟨e, he⟩ := hhead.read_of_not_accepted ha
    rw [he, he]
    rfl

/-- Lines without a clause are read as an empty body. -/
theorem HeadText.read_clauseless (hhead : HeadText head h) {i : Instance} {bs mid : Bytes}
    (hread : Instance.read format (head ++ bs) = .ok i)
    (hskip : ∀ l ∈ rawLines mid, Clauseless l) :
    Instance.read format (head ++ mid) = .ok (.ofEntries h (rawLines head).length []) := by
  by_cases ha : h.Accepted format
  · rw [hhead.read_of_accepted ha, h.readBody_of_clauseless hskip]
    rfl
  · obtain ⟨e, he⟩ := hhead.read_of_not_accepted ha
    rw [he] at hread
    cases hread

theorem HeadText.read_header (hhead : HeadText head h) {i : Instance} {bs : Bytes}
    (hread : Instance.read format (head ++ bs) = .ok i) :
    i.header = h ∧ i.headerLine = (rawLines head).length := by
  obtain ⟨body, entries, hfind, -⟩ := Instance.read_ok_iff.mp hread
  rw [hhead.find_append] at hfind
  split at hfind
  · injection hfind with hfind
    injection hfind with hheader hrest
    injection hrest with hline
    exact ⟨hheader.symm, hline.symm⟩
  · cases hfind

theorem HeadText.read_append_eq_ok_iff (hhead : HeadText head h) {bs cs : Bytes}
    (hbs : EndsLine bs) {k : Instance} :
    Instance.read format (head ++ (bs ++ cs)) = .ok k ↔
      ∃ i j, Instance.read format (head ++ bs) = .ok i ∧
        Instance.read format (head ++ cs) = .ok j ∧ k = i.append j := by
  rw [hhead.read_append hbs]
  cases Instance.read format (head ++ bs) with
  | error e => exact ⟨nofun, nofun⟩
  | ok i =>
    cases Instance.read format (head ++ cs) with
    | error e => exact ⟨nofun, nofun⟩
    | ok j =>
      constructor
      · intro hk
        injection hk with hk
        exact ⟨i, j, rfl, rfl, hk.symm⟩
      · rintro ⟨_, _, hi, hj, rfl⟩
        injection hi with hi
        injection hj with hj
        subst hi hj
        rfl

/-- Lines without a clause change nothing but the lines of faults behind them. -/
theorem HeadText.read_insert (hhead : HeadText head h) {bs mid : Bytes} (hbs : EndsLine bs)
    (hmid : EndsLine mid) (hskip : ∀ l ∈ rawLines mid, Clauseless l) (cs : Bytes) :
    (∀ k, Instance.read format (head ++ (bs ++ (mid ++ cs))) = .ok k ↔
      Instance.read format (head ++ (bs ++ cs)) = .ok k) ∧
    ∀ e, Instance.read format (head ++ (bs ++ cs)) = .error e →
      Instance.read format (head ++ (bs ++ (mid ++ cs))) = .error e ∨
      Instance.read format (head ++ (bs ++ (mid ++ cs))) =
        .error (e.shift (rawLines mid).length) := by
  rw [hhead.read_append hbs (mid ++ cs), hhead.read_append hmid cs, hhead.read_append hbs cs]
  cases hi : Instance.read format (head ++ bs) with
  | error e => exact ⟨fun _ => Iff.rfl, fun _ he => .inl he⟩
  | ok i =>
    rw [hhead.read_clauseless hi hskip]
    cases Instance.read format (head ++ cs) with
    | error e =>
      refine ⟨fun _ => ⟨nofun, nofun⟩, fun e' he => .inr ?_⟩
      injection he with he
      subst he
      show Except.error ((e.shift _).shift _) = Except.error ((e.shift _).shift _)
      rw [Error.shift_shift, Error.shift_shift, Nat.add_comm]
    | ok j => exact ⟨fun _ => Iff.rfl, nofun⟩

/-- Behind a header, a body is read if and only if both of its parts are. The clauses of the first
part are then followed by those of the second, on either side, under the same header. Lines that are
blank or comments change nothing at any place, but faults behind them have other lines. -/
theorem read_joined_bodies {head : Bytes} {h : Header} (hhead : HeadText head h) (format : Format)
    {bs : Bytes} (hbs : EndsLine bs) (cs : Bytes) :
    ((∃ k, Instance.read format (head ++ (bs ++ cs)) = .ok k) ↔
      (∃ i, Instance.read format (head ++ bs) = .ok i) ∧
        ∃ j, Instance.read format (head ++ cs) = .ok j) ∧
    (∀ i j, Instance.read format (head ++ bs) = .ok i → Instance.read format (head ++ cs) = .ok j →
      Instance.read format (head ++ (bs ++ cs)) = .ok
        ⟨h, (rawLines head).length, ⟨i.hard.clauses ++ j.hard.clauses⟩, i.soft ++ j.soft⟩ ∧
      (i.header = h ∧ i.headerLine = (rawLines head).length) ∧
      j.header = h ∧ j.headerLine = (rawLines head).length) ∧
    ∀ mid, EndsLine mid → (∀ l ∈ rawLines mid, Clauseless l) →
      (∀ k, Instance.read format (head ++ (bs ++ (mid ++ cs))) = .ok k ↔
        Instance.read format (head ++ (bs ++ cs)) = .ok k) ∧
      ∀ e, Instance.read format (head ++ (bs ++ cs)) = .error e →
        Instance.read format (head ++ (bs ++ (mid ++ cs))) = .error e ∨
        Instance.read format (head ++ (bs ++ (mid ++ cs))) =
          .error (e.shift (rawLines mid).length) := by
  refine ⟨?_, fun i j hi hj => ?_, fun mid hmid hskip => hhead.read_insert hbs hmid hskip cs⟩
  · constructor
    · rintro ⟨k, hk⟩
      obtain ⟨i, j, hi, hj, -⟩ := (hhead.read_append_eq_ok_iff hbs).mp hk
      exact ⟨⟨i, hi⟩, j, hj⟩
    · rintro ⟨⟨i, hi⟩, j, hj⟩
      exact ⟨i.append j, (hhead.read_append_eq_ok_iff hbs).mpr ⟨i, j, hi, hj, rfl⟩⟩
  · obtain ⟨hheader, hline⟩ := hhead.read_header hi
    refine ⟨?_, ⟨hheader, hline⟩, hhead.read_header hj⟩
    rw [← hheader, ← hline]
    exact (hhead.read_append_eq_ok_iff hbs).mpr ⟨i, j, hi, hj, rfl⟩

/-- A comment and a blank line stand in front of the header; the first part has a clause on either
side, and the second one has a soft clause without a line feed. -/
theorem read_joined_bodies_weighted :
    Instance.read .wcnf (utf8Encode "c top 4\n\np wcnf 2 3 4\n".toList ++
      (utf8Encode "4 1 0\n1 -2 0\n".toList ++ (utf8Encode "c soft\n".toList ++
        utf8Encode "1 2".toList))) =
      .ok ⟨.wcnf 2 3 4, 3, ⟨[⟨[Var.pos ⟨0⟩]⟩]⟩, [⟨[Var.neg ⟨1⟩]⟩, ⟨[Var.pos ⟨1⟩]⟩]⟩ := by
  have hhead : HeadText (utf8Encode "c top 4\n\np wcnf 2 3 4\n".toList) (.wcnf 2 3 4) := by
    refine ⟨by decide, [.ofText "c top 4".toList, .ofText []], .ofText "p wcnf 2 3 4".toList,
      by decide +kernel, ?_, "p wcnf 2 3 4\n".toList, by decide +kernel, by decide +kernel⟩
    have hcomment : Header.SkippedLine (.ofText "c top 4".toList) :=
      ⟨"c top 4\n".toList, by decide +kernel, by decide +kernel⟩
    have hblank : Header.SkippedLine (.ofText []) :=
      ⟨"\n".toList, by decide +kernel, by decide +kernel⟩
    exact List.forall_mem_cons.mpr ⟨hcomment, List.forall_mem_singleton.mpr hblank⟩
  have hends : EndsLine (utf8Encode "4 1 0\n1 -2 0\n".toList) := by decide
  obtain ⟨-, hjoined, hskipped⟩ := read_joined_bodies hhead .wcnf hends (utf8Encode "1 2".toList)
  refine ((hskipped (utf8Encode "c soft\n".toList) (by decide) ?_).1 _).mpr
    (hjoined ⟨.wcnf 2 3 4, 3, ⟨[⟨[Var.pos ⟨0⟩]⟩]⟩, [⟨[Var.neg ⟨1⟩]⟩]⟩
      ⟨.wcnf 2 3 4, 3, ⟨[]⟩, [⟨[Var.pos ⟨1⟩]⟩]⟩ (by decide +kernel) (by decide +kernel)).1
  have hlines : rawLines (utf8Encode "c soft\n".toList) = [.ofText "c soft".toList] := by
    decide +kernel
  rw [hlines]
  exact List.forall_mem_singleton.mpr ⟨"c soft".toList, by decide +kernel, .inr (by decide +kernel)⟩

end Clausal.Dimacs
