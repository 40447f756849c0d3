import Clausal.Proofs.ValueLines
import Clausal.Solver.Reply

/-!
# Lines of a reply

A line of solver output says that there is no assignment, leaves the answer open, gives values or is
ignored. A solver reports literals in value lines, among lines that are ignored (`Reports`).
-/

namespace Clausal

theorem holdsWord_iff {w cs : List Char} : holdsWord w cs = true ↔ w <:+: cs := by
  induction cs with
  | nil => rw [holdsWord, List.isEmpty_iff, List.infix_nil]
  | cons c cs ih =>
    rw [holdsWord, Bool.or_eq_true, List.isPrefixOf_iff_prefix, ih, List.infix_cons_iff]

namespace Reply

open Assignment (Spells)

variable {cs : List Char} {ts : List (List Char)} {lines : List (List Char)} {ls : List Lit}

/-! ## Kinds of lines -/

/-- A status line that leaves the answer open. -/
def Undecided (cs : List Char) : Prop :=
  ∃ status, cs = 's' :: ' ' :: status ∧
    ("UNKNOWN".toList <+: trimStart status ∨ "INDETERMINATE".toList <+: trimStart status)

theorem undecided_iff (status : List Char) : Undecided ('s' :: ' ' :: status) ↔
    ("UNKNOWN".toList.isPrefixOf (trimStart status) ||
      "INDETERMINATE".toList.isPrefixOf (trimStart status)) = true := by
  unfold Undecided
  rw [Bool.or_eq_true, List.isPrefixOf_iff_prefix, List.isPrefixOf_iff_prefix]
  constructor
  · rintro ⟨_, heq, h⟩
    injection heq with _ heq
    injection heq with _ heq
    rwa [heq]
  · exact fun h => ⟨status, rfl, h⟩

/-- The first token is the tag of value lines. -/
def Tagged (cs : List Char) : Prop := (tokens cs).head? = some ['v']

/-- A line that says nothing of the answer. -/
structure Ignored (cs : List Char) : Prop where
  notUnsat : ¬ "UNSATISFIABLE".toList <:+: cs
  notUndecided : ¬ Undecided cs
  notTagged : ¬ Tagged cs

theorem not_tagged_status (status : List Char) : ¬ Tagged ('s' :: ' ' :: status) := by
  have hs : ∀ c ∈ ['s'], isSpace c = false := List.forall_mem_singleton.mpr rfl
  have hsplit := List.splitOnP_append_cons_of_forall_mem hs ' ' rfl status
  have hfirst : tokens ('s' :: ' ' :: status) = ['s'] :: tokens status := by
    unfold tokens runsOutside
    rw [← List.singleton_append, hsplit]
    rfl
  unfold Tagged
  rw [hfirst, List.head?_cons]
  decide

theorem not_undecided_of_tagged (h : Tagged cs) : ¬ Undecided cs := by
  rintro ⟨status, rfl, -⟩
  exact not_tagged_status status h

/-- The kind of a line by what it holds. -/
theorem lineKind_cases (cs : List Char) :
    "UNSATISFIABLE".toList <:+: cs ∧ lineKind cs = .unsat ∨
      ¬ "UNSATISFIABLE".toList <:+: cs ∧ (Undecided cs ∧ lineKind cs = .unknown ∨
        Tagged cs ∧ lineKind cs = .values ∨
        (¬ Undecided cs ∧ ¬ Tagged cs) ∧ lineKind cs = .noise) := by
  unfold lineKind
  by_cases hu : holdsWord "UNSATISFIABLE".toList cs = true
  · exact .inl ⟨holdsWord_iff.mp hu, if_pos hu⟩
  rw [if_neg hu]
  refine .inr ⟨mt holdsWord_iff.mpr hu, ?_⟩
  split
  · next status =>
    unfold statusKind
    by_cases ho : Undecided ('s' :: ' ' :: status)
    · exact .inl ⟨ho, if_pos ((undecided_iff status).mp ho)⟩
    · exact .inr (.inr ⟨⟨ho, not_tagged_status status⟩, if_neg (mt (undecided_iff status).mpr ho)⟩)
  · next hs =>
    by_cases ht : Tagged cs
    · exact .inr (.inl ⟨ht, if_pos ht⟩)
    · exact .inr (.inr ⟨⟨fun ⟨status, heq, _⟩ => hs status heq, ht⟩, if_neg ht⟩)

theorem lineKind_eq_unsat_iff : lineKind cs = .unsat ↔ "UNSATISFIABLE".toList <:+: cs := by
  rcases lineKind_cases cs with ⟨hu, hk⟩ | ⟨hu, ⟨-, hk⟩ | ⟨-, hk⟩ | ⟨-, hk⟩⟩ <;> rw [hk]
  · exact ⟨fun _ => hu, fun _ => rfl⟩
  · exact ⟨nofun, fun h => absurd h hu⟩
  · exact ⟨nofun, fun h => absurd h hu⟩
  · exact ⟨nofun, fun h => absurd h hu⟩

theorem lineKind_eq_unknown_iff :
    lineKind cs = .unknown ↔ ¬ "UNSATISFIABLE".toList <:+: cs ∧ Undecided cs := by
  rcases lineKind_cases cs with ⟨hu, hk⟩ | ⟨hu, ⟨ho, hk⟩ | ⟨ht, hk⟩ | ⟨⟨ho, -⟩, hk⟩⟩ <;> rw [hk]
  · exact ⟨nofun, fun h => absurd hu h.1⟩
  · exact ⟨fun _ => ⟨hu, ho⟩, fun _ => rfl⟩
  · exact ⟨nofun, fun h => absurd h.2 (not_undecided_of_tagged ht)⟩
  · exact ⟨nofun, fun h => absurd h.2 ho⟩

theorem lineKind_eq_values_iff :
    lineKind cs = .values ↔ ¬ "UNSATISFIABLE".toList <:+: cs ∧ Tagged cs := by
  rcases lineKind_cases cs with ⟨hu, hk⟩ | ⟨hu, ⟨ho, hk⟩ | ⟨ht, hk⟩ | ⟨⟨-, ht⟩, hk⟩⟩ <;> rw [hk]
  · exact ⟨nofun, fun h => absurd hu h.1⟩
  · exact ⟨nofun, fun h => absurd ho (not_undecided_of_tagged h.2)⟩
  · exact ⟨fun _ => ⟨hu, ht⟩, fun _ => rfl⟩
  · exact ⟨nofun, fun h => absurd h.2 ht⟩

theorem lineKind_eq_noise_iff : lineKind cs = .noise ↔ Ignored cs := by
  rcases lineKind_cases cs with ⟨hu, hk⟩ | ⟨hu, ⟨ho, hk⟩ | ⟨ht, hk⟩ | ⟨⟨ho, ht⟩, hk⟩⟩ <;> rw [hk]
  · exact ⟨nofun, fun h => absurd hu h.notUnsat⟩
  · exact ⟨nofun, fun h => absurd ho h.notUndecided⟩
  · exact ⟨nofun, fun h => absurd ht h.notTagged⟩
  · exact ⟨fun _ => ⟨hu, ho, ht⟩, fun _ => rfl⟩

theorem tagged_of_tokens (hcs : tokens cs = ['v'] :: ts) : Tagged cs := by
  unfold Tagged
  rw [hcs]
  rfl

/-- A line of literals cannot hold the word for unsatisfiability. -/
theorem notUnsat_of_spells (hcs : tokens cs = ['v'] :: ts) (hts : Spells ts ls) :
    ¬ "UNSATISFIABLE".toList <:+: cs := by
  intro hu
  have hmem : 'U' ∈ cs := hu.subset (by decide)
  rcases Assignment.mem_of_spells hcs hts hmem rfl with h | h | h | h <;> revert h <;> decide

/-! ## Reports -/

/-- The lines give the literals in value lines; all other lines are ignored. -/
inductive Reports : List (List Char) → List Lit → Prop
  | nil : Reports [] []
  | ignored {cs : List Char} {lines : List (List Char)} {ls : List Lit} (hcs : Ignored cs)
    (h : Reports lines ls) : Reports (cs :: lines) ls
  | values {cs : List Char} {ts lines : List (List Char)} {ks ls : List Lit}
    (hcs : tokens cs = ['v'] :: ts) (hts : Spells ts ks) (h : Reports lines ls) :
    Reports (cs :: lines) (ks ++ ls)

end Reply

end Clausal
