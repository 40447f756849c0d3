import Clausal.Dimacs.Instance
import Clausal.Proofs.PoolGrowth

/-!
# Reading an instance

A read instance is put together from a header that is found and a body that is read line by line.
Whatever the bytes, the header that is found announces usable variables only.
-/

namespace Clausal.Dimacs

theorem Header.find_usable {n k : Nat} {ls rest : List RawLine} {h : Header}
    (hf : find n ls = .ok (h, k, rest)) : h.vars ≤ Var.maxIndex := by
  induction ls generalizing n with
  | nil => cases hf
  | cons l ls ih =>
    unfold find at hf
    split at hf
    · cases hf
    · split at hf
      · exact ih hf
      · split at hf
        · cases hf
        · split at hf
          · next hle =>
            injection hf with hf
            injection hf with hh
            exact hh ▸ hle
          · cases hf

/-- A faulty header is reported before the format is looked at. -/
theorem Instance.read_of_find_error {format : Format} {bs : Bytes} {e : Error}
    (hf : Header.find 1 (rawLines bs) = .error e) : Instance.read format bs = .error e := by
  unfold Instance.read
  rw [hf]
  rfl

theorem Instance.read_ok_iff {format : Format} {bs : Bytes} {i : Instance} :
    Instance.read format bs = .ok i ↔ ∃ body entries,
      Header.find 1 (rawLines bs) = .ok (i.header, i.headerLine, body) ∧
      i.header.format = format ∧ i.header.fits = true ∧
      i.header.readBody (i.headerLine + 1) body = .ok entries ∧
      i.hard = ⟨entries.filterMap Entry.hard?⟩ ∧ i.soft = entries.filterMap Entry.soft? := by
  unfold Instance.read
  rw [bind_ok_iff]
  constructor
  · rintro ⟨⟨header, line, body⟩, hf, h⟩
    dsimp only at h
    by_cases hformat : header.format ≠ format
    · rw [if_pos hformat] at h
      cases h
    by_cases hfits : (!header.fits) = true
    · rw [if_neg hformat, if_pos hfits] at h
      cases h
    rw [if_neg hformat, if_neg hfits] at h
    obtain ⟨entries, he, h⟩ := bind_ok_iff.mp h
    injection h with h
    subst h
    exact ⟨body, entries, hf, Classical.not_not.mp hformat, by simpa using hfits, he, rfl, rfl⟩
  · rintro ⟨body, entries, hf, hformat, hfits, he, hhard, hsoft⟩
    refine ⟨_, hf, ?_⟩
    dsimp only
    rw [if_neg (fun h => h hformat), if_neg (by simp [hfits])]
    refine bind_ok_iff.mpr ⟨entries, he, ?_⟩
    rw [← hhard, ← hsoft]
    rfl

theorem Instance.read_usable {format : Format} {bs : Bytes} {i : Instance}
    (h : Instance.read format bs = .ok i) : i.header.vars ≤ Var.maxIndex := by
  obtain ⟨body, entries, hf, -⟩ := read_ok_iff.mp h
  exact Header.find_usable hf

end Clausal.Dimacs
