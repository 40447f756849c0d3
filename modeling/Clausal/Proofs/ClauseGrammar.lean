import Clausal.Proofs.Numerals
import Clausal.Proofs.ReadClauses

/-!
# The grammar of clause lines

Behind its blanks a clause line is a run of numbers with blanks between them, and an ending: blanks
only, or a zero that stands alone. Behind the zero and a blank any text may follow. The readers of
lines accept just this form (`line_grammar`), although they look at words only.
-/

namespace Clausal

/-! ## Words of a text -/

/-- Blanks only. -/
def Blanks (cs : List Char) : Prop := ∀ c ∈ cs, isBlank c = true

/-- The check of a given text by evaluation. -/
theorem blanks_of_all {cs : List Char} (h : cs.all isBlank = true) : Blanks cs :=
  List.all_eq_true.mp h

/-- The text from its first character that is no blank. -/
def dropBlanks (cs : List Char) : List Char := cs.dropWhile isBlank

theorem words_append_cons {c : Char} (hc : isBlank c = true) (xs ys : List Char) :
    words (xs ++ c :: ys) = words xs ++ words ys := by
  unfold words runsOutside
  rw [List.splitOnP_append_cons xs ys hc, List.filter_append]

theorem words_blanks_append {b : List Char} (hb : Blanks b) (cs : List Char) :
    words (b ++ cs) = words cs := by
  induction b with
  | nil => rfl
  | cons c b ih =>
    obtain ⟨hc, hb⟩ := List.forall_mem_cons.mp hb
    have h := words_append_cons hc [] (b ++ cs)
    rw [List.cons_append]
    rwa [words_nil, List.nil_append, List.nil_append, ih hb] at h

theorem words_blanks {b : List Char} (hb : Blanks b) : words b = [] := by
  have h := words_blanks_append hb []
  rwa [List.append_nil, words_nil] at h

theorem words_dropBlanks (cs : List Char) : words (dropBlanks cs) = words cs := by
  have hb : Blanks (cs.takeWhile isBlank) := fun c hc => List.mem_takeWhile_imp hc
  have h := words_blanks_append hb (dropBlanks cs)
  unfold dropBlanks at h ⊢
  rw [List.takeWhile_append_dropWhile] at h
  exact h.symm

/-- A word ends at a blank or at the end of the text. -/
theorem words_append_stopped {w rest : List Char} (hw : IsWord w)
    (hr : ∀ c ∈ rest.head?, isBlank c = true) : words (w ++ rest) = w :: words rest := by
  cases rest with
  | nil => rw [List.append_nil, words_of_isWord hw, words_nil]
  | cons c rest =>
    have hc : isBlank c = true := hr c rfl
    have hb : Blanks [c] := List.forall_mem_singleton.mpr hc
    rw [words_append_blank hw hc, ← words_blanks_append hb rest]
    rfl

theorem not_isBlank_of_dropBlanks {cs s : List Char} {c : Char} (h : dropBlanks cs = c :: s) :
    isBlank c = false := by
  have hd := List.head?_dropWhile_not isBlank cs
  unfold dropBlanks at h
  rw [h] at hd
  simpa using hd

/-- A text that does not start with a blank starts with a word. -/
theorem exists_first_word {c : Char} (hc : isBlank c = false) (cs : List Char) :
    ∃ w rest, IsWord w ∧ c :: cs = w ++ rest ∧ ∀ d ∈ rest.head?, isBlank d = true := by
  refine ⟨(c :: cs).takeWhile fun d => !isBlank d, (c :: cs).dropWhile fun d => !isBlank d,
    ⟨?_, ?_⟩, List.takeWhile_append_dropWhile.symm, ?_⟩
  · rw [List.takeWhile_cons_of_pos (by simp [hc])]
    exact List.cons_ne_nil _ _
  · intro d hd
    simpa using List.mem_takeWhile_imp hd
  · intro d hd
    have h := List.head?_dropWhile_not (fun d => !isBlank d) (c :: cs)
    rw [Option.mem_def.mp hd] at h
    simpa using h

theorem Decimal.IsDigits.isWord {ds : List Char} (h : IsDigits ds) : IsWord ds :=
  ⟨h.ne_nil, fun c hc => isBlank_of_isDigit (h.isDigit c hc)⟩

theorem head_dropBlanks (cs : List Char) : ∀ c ∈ (dropBlanks cs).head?, isBlank c = false := by
  intro c hc
  obtain ⟨s, hs⟩ := List.head?_eq_some_iff.mp hc
  exact not_isBlank_of_dropBlanks hs

namespace Dimacs

/-! ## Literals -/

/-- The text of a literal: a number of 32 bits that is not zero. -/
structure LitNumeral (w : List Char) (z : Int) : Prop where
  numeral : Decimal.Numeral w z
  fits : Decimal.fitsInt z = true
  ne_zero : z ≠ 0

/-- Every number of a literal has its literal. -/
theorem LitNumeral.exists_signed {w : List Char} {z : Int} (h : LitNumeral w z) :
    ∃ l : Lit, l.signed = z := Lit.exists_signed h.ne_zero h.fits

theorem litOfWord_eq_some_iff {w : List Char} {l : Lit} :
    litOfWord w = some l ↔ LitNumeral w l.signed := by
  unfold litOfWord
  constructor
  · intro h
    split at h
    · cases h
    · next z hz =>
      obtain ⟨hnumeral, hfits⟩ := Decimal.parseInt_eq_some_iff.mp hz
      cases ho : Lit.ofInt z with
      | error e =>
        rw [ho] at h
        cases h
      | ok m =>
        rw [ho] at h
        injection h with h
        rw [← h, Lit.signed_of_ofInt ho]
        refine ⟨hnumeral, hfits, ?_⟩
        rw [← Lit.signed_of_ofInt ho]
        exact m.signed_ne_zero
  · intro h
    rw [Decimal.parseInt_eq_some_iff.mpr ⟨h.numeral, h.fits⟩]
    show (Lit.ofInt l.signed).toOption = some l
    rw [Lit.ofInt_signed]
    rfl

theorem LitNumeral.isWord {w : List Char} {z : Int} (h : LitNumeral w z) : IsWord w := by
  cases h.numeral with
  | unsigned hd => exact hd.isWord
  | plus hd => exact IsWord.append (v := ['+']) (isWord_of_check rfl) hd.isWord
  | minus hd => exact IsWord.append (v := ['-']) (isWord_of_check rfl) hd.isWord

/-- A lone zero is the end of a clause and no literal. -/
theorem not_litNumeral_zero (z : Int) : ¬ LitNumeral ['0'] z := by
  intro h
  have hz := Decimal.parseInt_eq_some_iff.mpr ⟨h.numeral, h.fits⟩
  have h0 : Decimal.parseInt ['0'] = some 0 := by decide
  rw [h0] at hz
  injection hz with hz
  exact h.ne_zero hz.symm

/-! ## Clause lines -/

/-- Numbers of literals with blanks between them. -/
inductive NumberRun : List Char → List Int → Prop
  | nil : NumberRun [] []
  | single {w : List Char} {z : Int} (hw : LitNumeral w z) : NumberRun w [z]
  | cons {w b s : List Char} {z y : Int} {zs : List Int} (hw : LitNumeral w z) (hb : Blanks b)
    (hne : b ≠ []) (h : NumberRun s (y :: zs)) : NumberRun (w ++ b ++ s) (z :: y :: zs)

/-- The ending of a clause line, and the text that follows its zero and a blank. -/
inductive Ending : List Char → List Char → Prop
  | unclosed {b : List Char} (hb : Blanks b) : Ending b []
  | closed {b : List Char} (hb : Blanks b) : Ending (b ++ ['0']) []
  | followed {b t : List Char} {c : Char} (hb : Blanks b) (hc : isBlank c = true) :
    Ending (b ++ '0' :: c :: t) t

/-- A run of numbers and an ending. A zero does not touch the number before it. -/
def ClauseText (s : List Char) (zs : List Int) (t : List Char) : Prop :=
  ∃ run ending, s = run ++ ending ∧ NumberRun run zs ∧ Ending ending t ∧
    (zs ≠ [] → ending.head? ≠ some '0')

/-- Blank or a comment. -/
def Skipped (cs : List Char) : Prop := dropBlanks cs = [] ∨ (dropBlanks cs).head? = some 'c'

/-- A line that holds a clause, and the text that follows its zero and a blank. -/
def ClauseLine (cs : List Char) (c : Clause) (t : List Char) : Prop :=
  ¬ Skipped cs ∧ ClauseText (dropBlanks cs) (c.lits.map Lit.signed) t

theorem Ending.blanks_append {b e t : List Char} (hb : Blanks b) (h : Ending e t) :
    Ending (b ++ e) t := by
  cases h with
  | unclosed h => exact .unclosed (List.forall_mem_append.mpr ⟨hb, h⟩)
  | closed h =>
    rw [← List.append_assoc]
    exact .closed (List.forall_mem_append.mpr ⟨hb, h⟩)
  | followed h hc =>
    rw [← List.append_assoc]
    exact .followed (List.forall_mem_append.mpr ⟨hb, h⟩) hc

theorem isWord_zero : IsWord ['0'] := isWord_of_check rfl

theorem Ending.words_eq {e t : List Char} (h : Ending e t) :
    words e = [] ∧ t = [] ∨ words e = ['0'] :: words t := by
  cases h with
  | unclosed hb => exact .inl ⟨words_blanks hb, rfl⟩
  | closed hb =>
    right
    rw [words_blanks_append hb, words_of_isWord isWord_zero, words_nil]
  | followed hb hc =>
    right
    rw [words_blanks_append hb]
    exact words_append_blank isWord_zero hc t

/-- Behind a number the ending starts with a blank, if it is not empty. -/
theorem Ending.head_isBlank {e t : List Char} (h : Ending e t) (h0 : e.head? ≠ some '0') :
    ∀ c ∈ e.head?, isBlank c = true := by
  have hcons : ∀ b s : List Char, Blanks b → (b ++ '0' :: s).head? ≠ some '0' →
      ∀ c ∈ (b ++ '0' :: s).head?, isBlank c = true := by
    intro b s hb h0 c hc
    cases b with
    | nil => exact absurd rfl h0
    | cons d b =>
      obtain rfl : d = c := Option.some.inj hc
      exact hb d List.mem_cons_self
  cases h with
  | unclosed hb => exact fun c hc => hb c (List.mem_of_head? hc)
  | closed hb => exact hcons _ _ hb h0
  | followed hb => exact hcons _ _ hb h0

/-- The words of a run are its numbers, whatever follows it behind a blank. -/
theorem NumberRun.words_append {run rest : List Char} {zs : List Int} (h : NumberRun run zs)
    (hr : zs ≠ [] → ∀ c ∈ rest.head?, isBlank c = true) :
    ∃ ws, List.Forall₂ LitNumeral ws zs ∧ words (run ++ rest) = ws ++ words rest := by
  induction h with
  | nil => exact ⟨[], .nil, rfl⟩
  | @single w z hw =>
    exact ⟨[w], .cons hw .nil, words_append_stopped hw.isWord (hr (List.cons_ne_nil _ _))⟩
  | @cons w b s z y zs hw hb hne _ ih =>
    obtain ⟨ws, hws, hwords⟩ := ih fun _ => hr (List.cons_ne_nil _ _)
    refine ⟨w :: ws, .cons hw hws, ?_⟩
    have hstop : ∀ c ∈ (b ++ (s ++ rest)).head?, isBlank c = true := by
      intro c hc
      rw [List.head?_append_of_ne_nil _ hne] at hc
      exact hb c (List.mem_of_head? hc)
    rw [List.append_assoc, List.append_assoc, words_append_stopped hw.isWord hstop,
      words_blanks_append hb, hwords]
    rfl

theorem ClauseText.words_eq {s t : List Char} {zs : List Int} (h : ClauseText s zs t) :
    ∃ ws, List.Forall₂ LitNumeral ws zs ∧
      (words s = ws ∧ t = [] ∨ words s = ws ++ ['0'] :: words t) := by
  obtain ⟨run, ending, rfl, hrun, hend, hsep⟩ := h
  obtain ⟨ws, hws, hwords⟩ := hrun.words_append fun hne => hend.head_isBlank (hsep hne)
  refine ⟨ws, hws, ?_⟩
  rw [hwords]
  rcases hend.words_eq with ⟨he, ht⟩ | he
  · exact .inl ⟨by rw [he, List.append_nil], ht⟩
  · exact .inr (by rw [he])

theorem NumberRun.ne_nil {run : List Char} {z : Int} {zs : List Int} (h : NumberRun run (z :: zs)) :
    run ≠ [] := by
  cases h with
  | single hw => exact hw.isWord.1
  | cons hw =>
    rw [List.append_assoc]
    exact List.append_ne_nil_of_left_ne_nil hw.isWord.1 _

/-- A number in front of a clause text, with blanks between them unless the text is empty. -/
theorem ClauseText.cons {w b s t : List Char} {z : Int} {zs : List Int} (h : ClauseText s zs t)
    (hw : LitNumeral w z) (hb : Blanks b) (hne : b = [] → s = []) :
    ClauseText (w ++ b ++ s) (z :: zs) t := by
  obtain ⟨run, ending, rfl, hrun, hend, hsep⟩ := h
  by_cases hnil : b = []
  · -- nothing follows the number
    obtain ⟨rfl, rfl⟩ := List.append_eq_nil_iff.mp (hne hnil)
    obtain rfl : zs = [] := by
      by_contra hzs
      obtain ⟨y, ys, rfl⟩ := List.exists_cons_of_ne_nil hzs
      exact hrun.ne_nil rfl
    exact ⟨w, [], by simp [hnil], .single hw, hend, fun _ => nofun⟩
  · cases zs with
    | nil =>
      cases hrun
      refine ⟨w, b ++ ending, by simp, .single hw, hend.blanks_append hb, fun _ h0 => ?_⟩
      rw [List.head?_append_of_ne_nil _ hnil] at h0
      exact absurd (hb '0' (List.mem_of_head? h0)) (by decide)
    | cons y ys =>
      exact ⟨w ++ b ++ run, ending, by simp, .cons hw hb hnil hrun, hend,
        fun _ => hsep (List.cons_ne_nil _ _)⟩

/-- A number in front of the rest of a text, which a blank or the end stops. -/
theorem ClauseText.cons_stopped {w rest t : List Char} {z : Int} {zs : List Int}
    (h : ClauseText (dropBlanks rest) zs t) (hw : LitNumeral w z)
    (hr : ∀ c ∈ rest.head?, isBlank c = true) : ClauseText (w ++ rest) (z :: zs) t := by
  have hb : Blanks (rest.takeWhile isBlank) := fun c hc => List.mem_takeWhile_imp hc
  have hsplit : rest.takeWhile isBlank ++ dropBlanks rest = rest :=
    List.takeWhile_append_dropWhile
  rw [← hsplit, ← List.append_assoc]
  apply h.cons hw hb
  intro hnil
  cases rest with
  | nil => rfl
  | cons c rest =>
    rw [List.takeWhile_cons_of_pos (hr c rfl)] at hnil
    cases hnil

theorem exists_clauseText_zero {rest : List Char} (hr : ∀ c ∈ rest.head?, isBlank c = true) :
    ∃ t, ClauseText ('0' :: rest) [] t := by
  cases rest with
  | nil => exact ⟨[], [], ['0'], rfl, .nil, .closed (b := []) nofun, nofun⟩
  | cons c rest =>
    exact ⟨rest, [], '0' :: c :: rest, rfl, .nil, .followed (b := []) nofun (hr c rfl), nofun⟩

/-! ## Reading clause lines -/

theorem litsOfWords_append {ws : List (List Char)} {ls : List Lit}
    (h : List.Forall₂ LitNumeral ws (ls.map Lit.signed)) (rest : List (List Char)) :
    litsOfWords (ws ++ rest) = (litsOfWords rest).map (ls ++ ·) := by
  induction ls generalizing ws with
  | nil =>
    cases h
    simp
  | cons l ls ih =>
    rw [List.map_cons] at h
    cases h with
    | @cons w _ ws _ hw hws =>
      rw [List.cons_append, litsOfWords, litOfWord_eq_some_iff.mpr hw]
      show (litsOfWords (ws ++ rest)).map (l :: ·) = _
      rw [ih hws, Option.map_map]
      rfl

theorem ClauseText.litsOfWords_eq {s t : List Char} {ls : List Lit}
    (h : ClauseText s (ls.map Lit.signed) t) : litsOfWords (words s) = some ls := by
  obtain ⟨ws, hws, hwords⟩ := h.words_eq
  rcases hwords with ⟨hs, -⟩ | hs
  · have hlits := litsOfWords_append hws []
    rw [hs, ← List.append_nil ws, hlits]
    show some (ls ++ []) = some ls
    rw [List.append_nil]
  · have hzero : litsOfWords (['0'] :: words t) = some [] := rfl
    rw [hs, litsOfWords_append hws, hzero]
    show some (ls ++ []) = some ls
    rw [List.append_nil]

/-- A text whose words are read as literals is the text of a clause. -/
theorem exists_clauseText {s : List Char} {ls : List Lit}
    (hs : ∀ c ∈ s.head?, isBlank c = false) (h : litsOfWords (words s) = some ls) :
    ∃ t, ClauseText s (ls.map Lit.signed) t := by
  -- the words are read one by one, so the induction is on their list
  induction hws : words s generalizing s ls with
  | nil =>
    cases s with
    | nil =>
      rw [words_nil] at h
      injection h with h
      rw [← h]
      exact ⟨[], [], [], rfl, .nil, .unclosed nofun, nofun⟩
    | cons c s =>
      obtain ⟨w, rest, hw, heq, hr⟩ := exists_first_word (hs c rfl) s
      rw [heq, words_append_stopped hw hr] at hws
      cases hws
  | cons w ws ih =>
    cases s with
    | nil =>
      rw [words_nil] at hws
      cases hws
    | cons c s =>
      obtain ⟨v, rest, hv, heq, hr⟩ := exists_first_word (hs c rfl) s
      rw [heq, words_append_stopped hv hr] at hws h
      injection hws with hvw hrest
      subst hvw
      rw [heq]
      unfold litsOfWords at h
      split at h
      · next l hl =>
        obtain ⟨ms, hms, rfl⟩ := Option.map_eq_some_iff.mp h
        rw [← words_dropBlanks] at hms hrest
        obtain ⟨t, ht⟩ := ih (head_dropBlanks rest) hms hrest
        exact ⟨t, ht.cons_stopped (litOfWord_eq_some_iff.mp hl) hr⟩
      · split at h
        · next hzero =>
          injection h with h
          rw [← h, hzero]
          exact exists_clauseText_zero hr
        · cases h

theorem isComment_iff {w : List Char} {ws : List (List Char)} :
    isComment (w :: ws) = true ↔ w.head? = some 'c' := by
  unfold isComment
  split
  · next heq =>
    injection heq with heq
    simp [heq]
  · next hne =>
    constructor
    · intro h
      cases h
    · intro h
      obtain ⟨r, rfl⟩ := List.head?_eq_some_iff.mp h
      exact absurd rfl (hne r ws)

/-- A line without a word is blank, and one whose first word starts with `c` is a comment. -/
theorem skipped_iff {cs : List Char} :
    Skipped cs ↔ ((words cs).isEmpty || isComment (words cs)) = true := by
  unfold Skipped
  rw [← words_dropBlanks]
  rcases hs : dropBlanks cs with _ | ⟨c, s⟩
  · simp
  · obtain ⟨w, rest, hw, heq, hr⟩ := exists_first_word (not_isBlank_of_dropBlanks hs) s
    rw [heq, words_append_stopped hw hr, List.isEmpty_cons, Bool.false_or, isComment_iff,
      List.head?_append_of_ne_nil _ hw.1, ← heq]
    simp

theorem readClauseLine_of_not_skipped {cs : List Char} (h : ¬ Skipped cs) :
    readClauseLine cs = match litsOfWords (words cs) with
      | some ls => .entry ⟨ls⟩
      | none => .fault := if_neg (mt skipped_iff.mpr h)

theorem readClauseLine_eq_nothing_iff {cs : List Char} :
    readClauseLine cs = .nothing ↔ Skipped cs := by
  by_cases h : Skipped cs
  · exact ⟨fun _ => h, fun _ => if_pos (skipped_iff.mp h)⟩
  · rw [readClauseLine_of_not_skipped h]
    cases litsOfWords (words cs) <;> simp [h]

theorem readClauseLine_eq_entry_iff {cs : List Char} {c : Clause} :
    readClauseLine cs = .entry c ↔ ∃ t, ClauseLine cs c t := by
  by_cases h : Skipped cs
  · rw [readClauseLine_eq_nothing_iff.mpr h]
    exact ⟨nofun, fun ⟨_, ht⟩ => absurd h ht.1⟩
  · rw [readClauseLine_of_not_skipped h, ← words_dropBlanks]
    constructor
    · intro hc
      split at hc
      · next ls hls =>
        injection hc with hc
        subst hc
        obtain ⟨t, ht⟩ := exists_clauseText (head_dropBlanks cs) hls
        exact ⟨t, h, ht⟩
      · cases hc
    · rintro ⟨t, -, ht⟩
      rw [ht.litsOfWords_eq]

/-! ## Reading weighted lines -/

/-- A weight in front of a line: digits without a sign, and blanks behind them. -/
def WeightPart (cs : List Char) (n : Nat) (body : List Char) : Prop :=
  ∃ ds b, dropBlanks cs = ds ++ b ++ body ∧ Decimal.IsDigits ds ∧ Decimal.value ds = n ∧
    0 < n ∧ n ≤ Decimal.maxNat ∧ Blanks b ∧ b ≠ []

theorem weightOfWord_eq_some_iff {w : List Char} {n : Nat} : weightOfWord w = some n ↔
    Decimal.IsDigits w ∧ Decimal.value w = n ∧ 0 < n ∧ n ≤ Decimal.maxNat := by
  have hcount := @Decimal.parseCount_eq_some_iff w n
  unfold weightOfWord
  constructor
  · intro h
    split at h
    · cases h
    · next hne =>
      obtain ⟨hd, hv, hle⟩ := hcount.mp h
      refine ⟨hd, hv, Nat.pos_of_ne_zero ?_, hle⟩
      rintro rfl
      exact hne h
  · rintro ⟨hd, hv, hpos, hle⟩
    rw [hcount.mpr ⟨hd, hv, hle⟩]
    split
    · next heq =>
      injection heq with heq
      omega
    · rfl

/-- Literals do not start like a comment. -/
theorem not_isComment_of_litsOfWords {ws : List (List Char)} {ls : List Lit}
    (h : litsOfWords ws = some ls) : isComment ws = false := by
  cases ws with
  | nil => rfl
  | cons w ws =>
    rw [Bool.eq_false_iff]
    intro hc
    obtain ⟨r, rfl⟩ := List.head?_eq_some_iff.mp (isComment_iff.mp hc)
    unfold litsOfWords at h
    split at h
    · next l hl =>
      have hnumeral := (litOfWord_eq_some_iff.mp hl).numeral
      generalize l.signed = z at hnumeral
      cases hnumeral with
      | unsigned hd => exact absurd (hd.isDigit 'c' List.mem_cons_self) (by decide)
    · rw [if_neg (by simp)] at h
      cases h

theorem WeightPart.words_eq {cs body : List Char} {n : Nat} (h : WeightPart cs n body) :
    ∃ w, weightOfWord w = some n ∧ words cs = w :: words body := by
  obtain ⟨ds, b, heq, hd, hv, hpos, hle, hb, hne⟩ := h
  have hstop : ∀ c ∈ (b ++ body).head?, isBlank c = true := by
    intro c hc
    rw [List.head?_append_of_ne_nil _ hne] at hc
    exact hb c (List.mem_of_head? hc)
  refine ⟨ds, weightOfWord_eq_some_iff.mpr ⟨hd, hv, hpos, hle⟩, ?_⟩
  rw [← words_dropBlanks, heq, List.append_assoc, words_append_stopped hd.isWord hstop,
    words_blanks_append hb]

theorem WeightPart.not_skipped {cs body : List Char} {n : Nat} (h : WeightPart cs n body) :
    ¬ Skipped cs := by
  obtain ⟨w, hw, hwords⟩ := h.words_eq
  obtain ⟨hd, -⟩ := weightOfWord_eq_some_iff.mp hw
  rw [skipped_iff, hwords, List.isEmpty_cons, Bool.false_or, isComment_iff]
  intro hc
  exact absurd (hd.isDigit 'c' (List.mem_of_head? hc)) (by decide)

/-- A first word that is a weight, with more words behind it, is the weight of the line. -/
theorem exists_weightPart {cs w v : List Char} {ws : List (List Char)} {n : Nat}
    (h : words cs = w :: v :: ws) (hw : weightOfWord w = some n) :
    ∃ body, WeightPart cs n body ∧ words body = v :: ws := by
  obtain ⟨hd, hv, hpos, hle⟩ := weightOfWord_eq_some_iff.mp hw
  rw [← words_dropBlanks] at h
  rcases hs : dropBlanks cs with _ | ⟨c, s⟩
  · rw [hs, words_nil] at h
    cases h
  obtain ⟨u, rest, hu, heq, hr⟩ := exists_first_word (not_isBlank_of_dropBlanks hs) s
  rw [hs, heq, words_append_stopped hu hr] at h
  injection h with huw hrest
  subst huw
  refine ⟨dropBlanks rest, ⟨u, rest.takeWhile isBlank, ?_, hd, hv, hpos, hle, ?_, ?_⟩, ?_⟩
  · rw [hs, heq, List.append_assoc]
    exact congrArg (u ++ ·) List.takeWhile_append_dropWhile.symm
  · exact fun c hc => List.mem_takeWhile_imp hc
  · cases rest with
    | nil => cases hrest
    | cons d rest =>
      rw [List.takeWhile_cons_of_pos (hr d rfl)]
      exact List.cons_ne_nil _ _
  · rw [words_dropBlanks, hrest]

theorem readWeightedLine_eq_nothing_iff {cs : List Char} :
    readWeightedLine cs = .nothing ↔ Skipped cs := by
  constructor
  · intro h
    by_contra hs
    unfold readWeightedLine at h
    dsimp only at h
    rw [if_neg (mt skipped_iff.mpr hs)] at h
    split at h
    · split at h <;> cases h
    · cases h
  · exact fun h => if_pos (skipped_iff.mp h)

theorem readWeightedLine_eq_entry_iff {cs : List Char} {n : Nat} {c : Clause} :
    readWeightedLine cs = .entry (n, c) ↔
      ∃ body, WeightPart cs n body ∧ readClauseLine body = .entry c := by
  constructor
  · intro h
    unfold readWeightedLine at h
    dsimp only at h
    split at h
    · cases h
    · split at h
      · next w v ws hwords =>
        split at h
        · next k ls hk hls =>
          injection h with h
          injection h with hn hc
          subst hn hc
          obtain ⟨body, hbody, hrest⟩ := exists_weightPart hwords hk
          refine ⟨body, hbody, ?_⟩
          unfold readClauseLine
          simp only [hrest, not_isComment_of_litsOfWords hls, hls]
          rfl
        · cases h
      · cases h
  · rintro ⟨body, hbody, hc⟩
    obtain ⟨w, hw, hwords⟩ := hbody.words_eq
    obtain ⟨t, hs, ht⟩ := readClauseLine_eq_entry_iff.mp hc
    have hlits := ht.litsOfWords_eq
    rw [words_dropBlanks] at hlits
    unfold readWeightedLine
    dsimp only
    rw [if_neg (mt skipped_iff.mpr hbody.not_skipped), hwords]
    -- a body that holds a clause has a word
    rcases hv : words body with _ | ⟨v, ws⟩
    · rw [skipped_iff, hv] at hs
      exact absurd rfl hs
    · rw [hv] at hlits
      simp only [hw, hlits]

/-! ## The grammar -/

theorem exists_map_signed {ws : List (List Char)} {zs : List Int}
    (h : List.Forall₂ LitNumeral ws zs) : ∃ ls : List Lit, ls.map Lit.signed = zs := by
  induction h with
  | nil => exact ⟨[], rfl⟩
  | cons hw _ ih =>
    obtain ⟨l, rfl⟩ := hw.exists_signed
    obtain ⟨ls, rfl⟩ := ih
    exact ⟨l :: ls, rfl⟩

theorem LineContent.eq_fault_iff {α : Type} {r : LineContent α} :
    r = .fault ↔ r ≠ .nothing ∧ ∀ a, r ≠ .entry a := by
  cases r <;> simp

/-- The lines that hold no clause, the lines that hold a clause with the clause that is read, and
the lines at fault, for plain and for weighted lines. -/
theorem line_grammar (cs : List Char) :
    (readClauseLine cs = .nothing ↔ Skipped cs) ∧
    (∀ c, readClauseLine cs = .entry c ↔
      ¬ Skipped cs ∧ ∃ t, ClauseText (dropBlanks cs) (c.lits.map Lit.signed) t) ∧
    (readClauseLine cs = .fault ↔ ¬ Skipped cs ∧ ¬ ∃ zs t, ClauseText (dropBlanks cs) zs t) ∧
    (readWeightedLine cs = .nothing ↔ Skipped cs) ∧
    (∀ n c, readWeightedLine cs = .entry (n, c) ↔
      ¬ Skipped cs ∧ ∃ body, WeightPart cs n body ∧ readClauseLine body = .entry c) ∧
    (readWeightedLine cs = .fault ↔
      ¬ Skipped cs ∧ ¬ ∃ n body c, WeightPart cs n body ∧ readClauseLine body = .entry c) := by
  refine ⟨readClauseLine_eq_nothing_iff, fun c => ?_, ?_, readWeightedLine_eq_nothing_iff,
    fun n c => ?_, ?_⟩
  · rw [readClauseLine_eq_entry_iff]
    exact exists_and_left
  · rw [LineContent.eq_fault_iff, Ne, readClauseLine_eq_nothing_iff]
    refine and_congr_right fun hs => ?_
    constructor
    · rintro h ⟨zs, t, ht⟩
      obtain ⟨ws, hws, -⟩ := ht.words_eq
      obtain ⟨ls, rfl⟩ := exists_map_signed hws
      exact h ⟨ls⟩ (readClauseLine_eq_entry_iff.mpr ⟨t, hs, ht⟩)
    · intro h c hc
      obtain ⟨t, -, ht⟩ := readClauseLine_eq_entry_iff.mp hc
      exact h ⟨_, t, ht⟩
  · rw [readWeightedLine_eq_entry_iff]
    exact ⟨fun ⟨body, hbody, hc⟩ => ⟨hbody.not_skipped, body, hbody, hc⟩, And.right⟩
  · rw [LineContent.eq_fault_iff, Ne, readWeightedLine_eq_nothing_iff]
    refine and_congr_right fun _ => ?_
    constructor
    · rintro h ⟨n, body, c, hbody, hc⟩
      exact h (n, c) (readWeightedLine_eq_entry_iff.mpr ⟨body, hbody, hc⟩)
    · rintro h ⟨n, c⟩ hc
      obtain ⟨body, hbody, hc⟩ := readWeightedLine_eq_entry_iff.mp hc
      exact h ⟨n, body, c, hbody, hc⟩

end Dimacs

end Clausal
