import Clausal.Proofs.DecidingLines
import Clausal.Proofs.LineOutcomes

/-!
# Value lines in another order

Value lines that are applied one after the other add the literals of all of them. Whether that
succeeds and what it gives depends on the set of these literals only, not on their order, on how
they are split over lines or on how often one is repeated (`addLines_of_same_literals`).
-/

namespace Clausal

namespace Assignment

open Reply (Tagged valueTokens)

variable {a b : Assignment} {cs : List Char} {lines : List (List Char)} {ks ls : List Lit}

/-- Applies a value line, or says what is at fault. -/
def addLine (a : Assignment) (cs : List Char) : Except ValueLineError Assignment :=
  match a.addValueLine cs with
  | (b, .ok ()) => .ok b
  | (_, .error e) => .error e

/-- Applies value lines one after the other, up to the first one at fault. -/
def addLines (a : Assignment) (lines : List (List Char)) : Except ValueLineError Assignment :=
  lines.foldlM addLine a

theorem addLine_eq_ok_iff : a.addLine cs = .ok b ↔ a.addValueLine cs = (b, .ok ()) := by
  unfold addLine
  obtain ⟨c, r⟩ := a.addValueLine cs
  cases r <;> simp

/-- Value lines of which every token in front of the line's first zero is a literal, and all these
literals. -/
structure Gives (lines : List (List Char)) (ls : List Lit) : Prop where
  tagged : ∀ cs ∈ lines, Tagged cs
  denote : Denote (lines.flatMap valueTokens) ls

theorem addLine_eq_ok_iff_adds (ht : Tagged cs) (hls : Denote (valueTokens cs) ls) :
    a.addLine cs = .ok b ↔ a.Adds ls b := by
  rw [addLine_eq_ok_iff, Reply.addValueLine_eq_ok_iff ht]
  constructor
  · rintro ⟨ms, hms, hb⟩
    rwa [hls.unique hms]
  · exact fun hb => ⟨ls, hls, hb⟩

/-- Applying value lines adds their literals. -/
theorem Gives.addLines_eq_ok_iff (h : Gives lines ls) :
    a.addLines lines = .ok b ↔ a.Adds ls b := by
  unfold addLines
  induction lines generalizing a ls with
  | nil =>
    obtain rfl : ls = [] := List.map_eq_nil_iff.mp h.denote.symm
    constructor
    · intro heq
      injection heq with heq
      exact heq ▸ a.adds_nil
    · exact fun hb => congrArg Except.ok (a.adds_nil.unique hb)
  | cons cs lines ih =>
    obtain ⟨ht, hts⟩ := List.forall_mem_cons.mp h.tagged
    obtain ⟨ms, ns, rfl, hms, hns⟩ := Denote.of_append h.denote
    rw [List.foldlM_cons, bind_ok_iff, adds_append_iff]
    refine exists_congr fun c => ?_
    rw [addLine_eq_ok_iff_adds ht hms, ih ⟨hts, hns⟩]

/-- Two sequences of value lines with the same set of literals succeed alike and give the same
assignment. They succeed if and only if their literals are admitted, and from the empty assignment
they then give the assignment that is collected from the literals in any order. -/
theorem addLines_of_same_literals {lines lines' : List (List Char)} {ks ls : List Lit}
    (hks : Gives lines ks) (hls : Gives lines' ls) (hset : ∀ l, l ∈ ks ↔ l ∈ ls)
    (a : Assignment) :
    (∀ b, a.addLines lines = .ok b ↔ a.addLines lines' = .ok b) ∧
    ((∃ b, a.addLines lines = .ok b) ↔ a.Admits ks) ∧
    (Consistent ks → ∀ ms, (∀ l, l ∈ ms ↔ l ∈ ks) → empty.addLines lines = .ok (ofLits ms)) := by
  refine ⟨fun b => ?_, ?_, fun hc ms hms => ?_⟩
  · rw [hks.addLines_eq_ok_iff, hls.addLines_eq_ok_iff, Adds.congr hset]
  · constructor
    · rintro ⟨b, hb⟩
      exact (hks.addLines_eq_ok_iff.mp hb).admits
    · exact fun h => ⟨_, hks.addLines_eq_ok_iff.mpr h.adds_foldl⟩
  · rw [hks.addLines_eq_ok_iff, ← Adds.congr hms]
    exact ((Admits.congr hms).mpr (admits_empty.mpr hc)).adds_foldl

/-- Literals in another order, split at another place, spelled differently and repeated. -/
theorem addLines_of_same_literals_split :
    ∃ b, (ofValues [.dontCare, .false]).addLines ["v 1 -2".toList, "v 3 0 7".toList] = .ok b ∧
      (ofValues [.dontCare, .false]).addLines ["v -02 3 -2 0".toList, "v".toList,
        "v +1 3 0".toList] = .ok b := by
  have hfirst : Gives ["v 1 -2".toList, "v 3 0 7".toList]
      [Var.pos ⟨0⟩, Var.neg ⟨1⟩, Var.pos ⟨2⟩] :=
    ⟨by unfold Tagged; decide +kernel, by unfold Denote; decide +kernel⟩
  have hsecond : Gives ["v -02 3 -2 0".toList, "v".toList, "v +1 3 0".toList]
      [Var.neg ⟨1⟩, Var.pos ⟨2⟩, Var.neg ⟨1⟩, Var.pos ⟨0⟩, Var.pos ⟨2⟩] :=
    ⟨by unfold Tagged; decide +kernel, by unfold Denote; decide +kernel⟩
  obtain ⟨hsame, hok, -⟩ := addLines_of_same_literals hfirst hsecond
    (fun l => by simp only [List.mem_cons]; tauto) (ofValues [.dontCare, .false])
  obtain ⟨b, hb⟩ := hok.mpr ⟨by decide +kernel, by unfold Consistent; decide +kernel⟩
  exact ⟨b, hb, (hsame b).mp hb⟩

end Assignment

end Clausal
