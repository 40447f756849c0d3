import Clausal.Proofs.ValueLines

/-!
# How a value line ends

The tokens of a value line are applied one after the other, up to a zero, to the end or to the first
fault. Whichever comes first, the literals in front of it have been added by then and nothing else
has changed, so no decided variable ever changes its value (`addValueLine_applies`).
-/

namespace Clausal

namespace Assignment

variable {a b : Assignment} {ls : List Lit} {l : Lit} {t : List Char} {ts : List (List Char)}
  {r : Except ValueLineError Unit}

theorem ValueToken.read_eq_junk_iff : ValueToken.read t = .junk ↔ Decimal.parseInt t = none := by
  constructor
  · intro h
    cases hz : Decimal.parseInt t with
    | none => rfl
    | some z =>
      by_cases h0 : z = 0
      · rw [h0, ← read_eq_stop_iff, h] at hz
        cases hz
      · obtain ⟨-, hfits⟩ := Decimal.parseInt_eq_some_iff.mp hz
        obtain ⟨l, rfl⟩ := Lit.exists_signed h0 hfits
        rw [← read_eq_literal_iff, h] at hz
        cases hz
  · intro h
    unfold ValueToken.read
    rw [h]

/-- Tokens that are numbers other than zero are those of literals. -/
theorem exists_denote (h : ∀ t ∈ beforeZero ts, ∃ z, Decimal.parseInt t = some z) :
    ∃ ls, Denote (beforeZero ts) ls := by
  induction ts with
  | nil => exact ⟨[], rfl⟩
  | cons t ts ih =>
    by_cases hzero : Decimal.parseInt t = some 0
    · exact ⟨[], denote_beforeZero_cons_iff.mpr (.inl ⟨hzero, rfl⟩)⟩
    · have hfirst : beforeZero (t :: ts) = t :: beforeZero ts :=
        List.takeWhile_cons_of_pos (bne_iff_ne.mpr hzero)
      rw [hfirst, List.forall_mem_cons] at h
      obtain ⟨⟨z, hz⟩, hts⟩ := h
      obtain ⟨-, hfits⟩ := Decimal.parseInt_eq_some_iff.mp hz
      obtain ⟨l, rfl⟩ := Lit.exists_signed (fun h0 => hzero (h0 ▸ hz)) hfits
      obtain ⟨ls, hls⟩ := ih hts
      exact ⟨l :: ls, denote_beforeZero_cons_iff.mpr (.inr ⟨l, ls, rfl, hz, hls⟩)⟩

/-- Tokens are the numbers of one list of literals at most. -/
theorem Denote.unique {ms : List Lit} (hls : Denote ts ls) (hms : Denote ts ms) : ls = ms := by
  have hinj : Function.Injective fun l : Lit => some l.signed := by
    intro l m h
    injection h with h
    have hl := Lit.ofInt_signed l
    rw [h, Lit.ofInt_signed m] at hl
    injection hl with hl
    exact hl.symm
  exact hinj.list_map (hls.symm.trans hms)

theorem Denote.exists_parseInt (h : Denote ts ls) : ∀ t ∈ ts, ∃ z, Decimal.parseInt t = some z := by
  intro t ht
  have hmem : Decimal.parseInt t ∈ ls.map fun l => some l.signed := by
    rw [← h]
    exact List.mem_map.mpr ⟨t, ht, rfl⟩
  obtain ⟨l, -, hl⟩ := List.mem_map.mp hmem
  exact ⟨l.signed, hl.symm⟩

/-! ## Tokens -/

/-- Where applying tokens stops: the literals in front of that place, and the result. -/
inductive Stops (a : Assignment) (ts : List (List Char)) (ls : List Lit) :
    Except ValueLineError Unit → Prop
  /-- At the first zero or at the end. -/
  | whole (h : Denote (beforeZero ts) ls) : Stops a ts ls (.ok ())
  /-- At a token that is no number. -/
  | badLiteral {pre post : List (List Char)} {t : List Char} (hts : ts = pre ++ t :: post)
    (hpre : Denote pre ls) (ht : Decimal.parseInt t = none) : Stops a ts ls (.error (.badLiteral t))
  /-- At a literal that is false or clashes with one in front of it. -/
  | conflict {pre post : List (List Char)} {t : List Char} {l : Lit} (hts : ts = pre ++ t :: post)
    (hpre : Denote pre ls) (ht : Decimal.parseInt t = some l.signed)
    (hl : ¬ a.Admits (ls ++ [l])) : Stops a ts ls (.error (.conflict l.var))

theorem Stops.cons (ht : Decimal.parseInt t = some l.signed) (hb : a.Adds [l] b)
    (h : b.Stops ts ls r) : a.Stops (t :: ts) (l :: ls) r := by
  cases h with
  | whole h => exact .whole (denote_beforeZero_cons_iff.mpr (.inr ⟨l, ls, rfl, ht, h⟩))
  | badLiteral hts hpre hbad => exact .badLiteral (congrArg (t :: ·) hts) (hpre.cons ht) hbad
  | conflict hts hpre hm hclash =>
    exact .conflict (congrArg (t :: ·) hts) (hpre.cons ht) hm (mt hb.admits_iff.mpr hclash)

/-- Applying tokens adds the literals in front of the place where it stops. -/
theorem addTokens_stops (a : Assignment) (ts : List (List Char)) :
    ∃ ls, a.Adds ls (a.addTokens ts).1 ∧ a.Stops ts ls (a.addTokens ts).2 := by
  induction ts generalizing a with
  | nil => exact ⟨[], a.adds_nil, .whole rfl⟩
  | cons t ts ih =>
    unfold addTokens
    split
    · next ht =>
      have hbad := ValueToken.read_eq_junk_iff.mp ht
      exact ⟨[], a.adds_nil, .badLiteral (List.nil_append _).symm rfl hbad⟩
    · next ht =>
      have hzero := ValueToken.read_eq_stop_iff.mp ht
      exact ⟨[], a.adds_nil, .whole (denote_beforeZero_cons_iff.mpr (.inl ⟨hzero, rfl⟩))⟩
    · next l ht =>
      have hl := ValueToken.read_eq_literal_iff.mp ht
      split
      · next b hb =>
        have hone := addLit_eq_ok_iff.mp hb
        obtain ⟨ls, hadds, hstops⟩ := ih b
        exact ⟨l :: ls, hone.trans hadds, hstops.cons hl hone⟩
      · next e he =>
        obtain ⟨hclash, rfl⟩ := addLit_eq_error_iff.mp he
        exact ⟨[], a.adds_nil, .conflict (List.nil_append _).symm rfl hl hclash⟩

/-! ## Lines -/

/-- How a value line ends: the literals that are added, and the result. -/
inductive Ends (a : Assignment) (cs : List Char) : List Lit → Except ValueLineError Unit → Prop
  | tagged {ts : List (List Char)} {ls : List Lit} {r : Except ValueLineError Unit}
    (hcs : tokens cs = ['v'] :: ts) (h : a.Stops ts ls r) : Ends a cs ls r
  | badTag {c : Char} {w : List Char} {ts : List (List Char)} (hcs : tokens cs = (c :: w) :: ts)
    (htag : c :: w ≠ ['v']) : Ends a cs [] (.error (.badTag c))
  | empty (hcs : tokens cs = []) : Ends a cs [] (.error .empty)

theorem nil_not_mem_tokens (cs : List Char) : [] ∉ tokens cs := by
  unfold tokens runsOutside
  rw [List.mem_filter]
  exact fun h => absurd h.2 (by decide)

/-- A value line adds the literals in front of the place where it ends. -/
theorem addValueLine_ends (a : Assignment) (cs : List Char) :
    ∃ ls, a.Adds ls (a.addValueLine cs).1 ∧ a.Ends cs ls (a.addValueLine cs).2 := by
  unfold addValueLine
  split
  · next ts hcs =>
    obtain ⟨ls, hadds, hstops⟩ := a.addTokens_stops ts
    exact ⟨ls, hadds, .tagged hcs hstops⟩
  · next c w ts htag hcs =>
    refine ⟨[], a.adds_nil, .badTag hcs fun h => ?_⟩
    injection h with hc hw
    exact htag hc hw
  · next hv htag =>
    refine ⟨[], a.adds_nil, .empty ?_⟩
    match hcs : tokens cs with
    | [] => rfl
    | [] :: ts => exact absurd (hcs ▸ List.mem_cons_self) (nil_not_mem_tokens cs)
    | (c :: w) :: ts => exact absurd hcs (htag c w ts)

/-- A value line succeeds if and only if its tag is `v` and its tokens in front of the first zero are
numbers whose literals are admitted. However it ends, the literals in front of that place are true
afterwards, and a variable has kept its value unless it was open and one of these literals decides
it. -/
theorem addValueLine_applies (a : Assignment) (cs : List Char) :
    ((a.addValueLine cs).2 = .ok () ↔ ∃ ts, tokens cs = ['v'] :: ts ∧
      (∀ t ∈ beforeZero ts, ∃ z, Decimal.parseInt t = some z) ∧
      ∀ ls, Denote (beforeZero ts) ls → a.Admits ls) ∧
    (a.addValueLine cs).1.Refines a ∧
    ∃ ls, a.Ends cs ls (a.addValueLine cs).2 ∧
      (∀ l ∈ ls, (a.addValueLine cs).1.litValue l = .true) ∧
      ∀ v, (a.addValueLine cs).1.value v = a.value v ∨
        a.value v = .dontCare ∧
          ∃ l ∈ ls, l.var = v ∧ (a.addValueLine cs).1.value v = .ofBool l.isPos := by
  obtain ⟨ls, hadds, hends⟩ := a.addValueLine_ends cs
  refine ⟨⟨fun hok => ?_, ?_⟩, hadds.refines, ls, hends, hadds.holds, hadds.value_cases⟩
  · rw [hok] at hends
    cases hends with
    | tagged hcs hstops =>
      cases hstops with
      | whole h =>
        refine ⟨_, hcs, h.exists_parseInt, fun ms hms => ?_⟩
        rw [h.unique hms] at hadds
        exact hadds.admits
  · rintro ⟨ts, hcs, hnumbers, hadmits⟩
    obtain ⟨ms, hms⟩ := exists_denote hnumbers
    have hok := addTokens_eq_ok_iff.mpr ⟨ms, hms, (hadmits ms hms).adds_foldl⟩
    rw [addValueLine_of_tokens hcs, hok]

end Assignment

end Clausal
