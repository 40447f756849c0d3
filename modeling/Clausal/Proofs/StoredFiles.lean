import Clausal.Proofs.PoolGrowth
import Clausal.Storage.Basic

/-!
# Stored files

Where files can be written and found again. Following a path asks for directories only, so a file
that is put where no directory stands leaves every path to a file as it was, and a file that was
made at a path is found there again (`Holds.read_eq`).
-/

namespace Clausal.Storage

variable {s t : Storage} {l k : Location} {path : String} {bs : Bytes}

/-! ## Writing -/

theorem write_eq_put (hs : s.node? l ≠ some .sink) (hf : s.node? l ≠ some .full) (bs : Bytes) :
    s.write l bs = .ok (s.put l bs) := by
  unfold write
  split
  · next h => exact absurd h hf
  · next h => exact absurd h hs
  · rfl

/-- What is written to a sink is lost; anything else that can be written is a file afterwards. -/
theorem write_eq_ok (h : s.write l bs = .ok t) :
    s.node? l = some .sink ∧ t = s ∨ t = s.put l bs := by
  unfold write at h
  split at h
  · cases h
  · next hsink =>
    injection h with h
    exact .inl ⟨hsink, h.symm⟩
  · injection h with h
    exact .inr h.symm

/-- A file that is opened to write is empty, if it is no device. -/
theorem create_eq_ok (h : s.create path = .ok (l, t)) : s.locateNew path = .ok l ∧
    ((s.node? l = some .sink ∨ s.node? l = some .full) ∧ t = s ∨ t = s.put l []) := by
  unfold create at h
  split at h
  · cases h
  next k hk =>
  rw [hk]
  split at h
  · next hsink =>
    injection h with h
    injection h with hl ht
    subst hl ht
    exact ⟨rfl, .inl ⟨.inl hsink, rfl⟩⟩
  · next hfull =>
    injection h with h
    injection h with hl ht
    subst hl ht
    exact ⟨rfl, .inl ⟨.inr hfull, rfl⟩⟩
  · injection h with h
    injection h with hl ht
    subst hl ht
    exact ⟨rfl, .inr rfl⟩

theorem node?_write (h : s.write l bs = .ok t) (hs : t.node? l ≠ some .sink) :
    t.node? l = some (.file bs) := by
  rcases write_eq_ok h with ⟨hsink, rfl⟩ | rfl
  · exact absurd hsink hs
  · exact s.node?_put l bs

/-- Putting a file makes no device. -/
theorem node?_put_ne {n : Node} (hn : n ≠ .file bs) (h : s.node? k ≠ some n) :
    (s.put l bs).node? k ≠ some n := by
  by_cases hk : k = l
  · rw [hk, node?_put]
    exact fun heq => hn (Option.some.inj heq).symm
  · rwa [node?_put_of_ne s bs hk]

/-- Opening a file to write leaves all others alone. -/
theorem node?_create_of_ne (h : s.create path = .ok (l, t)) (hk : k ≠ l) :
    t.node? k = s.node? k := by
  rcases (create_eq_ok h).2 with ⟨-, rfl⟩ | rfl
  · rfl
  · exact s.node?_put_of_ne [] hk

/-! ## Paths beside a new file -/

/-- Following a name asks for a directory, so a file elsewhere does not matter. -/
theorem enter_put (hl : s.node? l ≠ some .directory) (bs : Bytes) {dir d : Location}
    {name : List Char} (h : s.enter dir name = .ok d) : (s.put l bs).enter dir name = .ok d := by
  have hlookup : (s.put l bs).lookupName dir name = s.lookupName dir name := rfl
  unfold enter at h ⊢
  by_cases hdot : name = ['.']
  · rwa [if_pos hdot] at h ⊢
  by_cases hup : name = ['.', '.']
  · rwa [if_neg hdot, if_pos hup] at h ⊢
  rw [if_neg hdot, if_neg hup] at h ⊢
  rw [hlookup]
  split at h
  · cases h
  · next k hk =>
    split at h
    · next hnode =>
      have hne : k ≠ l := fun heq => hl (heq ▸ hnode)
      rw [node?_put_of_ne s bs hne, hnode]
      exact h
    · cases h
    · cases h

theorem foldlM_enter_put (hl : s.node? l ≠ some .directory) (bs : Bytes) {names : List (List Char)}
    {start d : Location} (h : names.foldlM s.enter start = .ok d) :
    names.foldlM (s.put l bs).enter start = .ok d := by
  induction names generalizing start with
  | nil => exact h
  | cons name names ih =>
    rw [List.foldlM_cons] at h ⊢
    obtain ⟨next, hn, h⟩ := bind_ok_iff.mp h
    exact bind_ok_iff.mpr ⟨next, enter_put hl bs hn, ih h⟩

theorem follow_put (hl : s.node? l ≠ some .directory) (bs : Bytes) {d : Destination}
    (h : s.follow path = .ok d) : (s.put l bs).follow path = .ok d := by
  have hhome : (s.put l bs).layout.home = s.layout.home := rfl
  unfold follow at h ⊢
  dsimp only at h ⊢
  rw [hhome]
  split at h
  · cases h
  · next hnull =>
    rw [if_neg hnull]
    split at h
    · cases h
    · next hempty =>
      rw [if_neg hempty]
      split at h
      · cases h
      · next hlong =>
        rw [if_neg hlong]
        split at h
        · exact h
        · split at h
          · cases h
          · next dir hdir =>
            simp only [foldlM_enter_put hl bs hdir]
            exact h

/-- Where a path makes a file: at a name in a directory, where no directory stands, and where
something stands already or the directory takes new files. -/
theorem locateNew_eq_ok_iff : s.locateNew path = .ok l ↔ ∃ dir name,
    s.follow path = .ok (.entry dir name false) ∧ s.lookupName dir name = .ok l ∧
      s.node? l ≠ some .directory ∧ (s.node? l = none → s.layout.isOpen dir = true) := by
  constructor
  · intro h
    unfold locateNew at h
    split at h
    · cases h
    · cases h
    next dir name slash hfollow =>
    split at h
    · cases h
    next hslash =>
    rw [eq_false_of_ne_true hslash] at hfollow
    split at h
    · cases h
    next k hk =>
    refine ⟨dir, name, hfollow, ?_⟩
    split at h
    · cases h
    · next hdir hnode =>
      injection h with h
      subst h
      rw [hnode]
      exact ⟨hk, fun heq => hdir (Option.some.inj heq), nofun⟩
    · next hnone =>
      split at h
      · next hopen =>
        injection h with h
        subst h
        rw [hnone]
        exact ⟨hk, nofun, fun _ => hopen⟩
      · cases h
  · rintro ⟨dir, name, hfollow, hlookup, hnode, hopen⟩
    unfold locateNew
    simp only [hfollow, hlookup]
    rw [if_neg Bool.false_ne_true]
    split
    · next hdir => exact absurd hdir hnode
    · rfl
    · next hnone => exact if_pos (hopen hnone)

/-- No file is made where a directory stands. -/
theorem not_directory_of_locateNew (h : s.locateNew path = .ok l) :
    s.node? l ≠ some .directory := by
  obtain ⟨-, -, -, -, hnode, -⟩ := locateNew_eq_ok_iff.mp h
  exact hnode

/-- A file can still be made or found when another one was put, or this one. -/
theorem locateNew_put (hl : s.node? l ≠ some .directory) (bs : Bytes)
    (h : s.locateNew path = .ok k) : (s.put l bs).locateNew path = .ok k := by
  obtain ⟨dir, name, hfollow, hlookup, hnode⟩ := locateNew_eq_ok_iff.mp h
  refine locateNew_eq_ok_iff.mpr ⟨dir, name, follow_put hl bs hfollow, hlookup, ?_⟩
  by_cases hk : k = l
  · rw [hk, node?_put]
    exact ⟨nofun, nofun⟩
  · rwa [node?_put_of_ne s bs hk]

/-- A file can be written at the path: it leads to a place for one, and to no device. -/
structure Accepts (s : Storage) (path : String) (l : Location) : Prop where
  located : s.locateNew path = .ok l
  not_sink : s.node? l ≠ some .sink
  not_full : s.node? l ≠ some .full

namespace Accepts

theorem not_directory (h : s.Accepts path l) : s.node? l ≠ some .directory :=
  not_directory_of_locateNew h.located

/-- A file that is put there or elsewhere does not matter. -/
theorem put (h : s.Accepts path k) (hl : s.node? l ≠ some .directory) (bs : Bytes) :
    (s.put l bs).Accepts path k :=
  ⟨locateNew_put hl bs h.located, node?_put_ne nofun h.not_sink, node?_put_ne nofun h.not_full⟩

theorem create_eq (h : s.Accepts path l) : s.create path = .ok (l, s.put l []) := by
  unfold create
  rw [h.located]
  dsimp only
  split
  · next hsink => exact absurd hsink h.not_sink
  · next hfull => exact absurd hfull h.not_full
  · rfl

end Accepts

/-! ## Files that are found -/

/-- The path leads to something that can be read: a file or a device. -/
structure Holds (s : Storage) (path : String) (l : Location) : Prop where
  located : s.locateNew path = .ok l
  occupied : s.node? l ≠ none

namespace Holds

theorem put (h : s.Holds path k) (hl : s.node? l ≠ some .directory) (bs : Bytes) :
    (s.put l bs).Holds path k := by
  refine ⟨locateNew_put hl bs h.located, ?_⟩
  by_cases hk : k = l
  · rw [hk, node?_put]
    nofun
  · rw [node?_put_of_ne s bs hk]
    exact h.occupied

/-- The path is found, and it gives what stands there. -/
theorem locate_eq (h : s.Holds path l) :
    ∃ n, s.locate path = .ok (l, n) ∧ contentOf n = .ok (s.contentAt l) := by
  obtain ⟨dir, name, hfollow, hlookup, hnode, -⟩ := locateNew_eq_ok_iff.mp h.located
  unfold locate contentAt
  simp only [hfollow, hlookup]
  cases hn : s.node? l with
  | none => exact absurd hn h.occupied
  | some n =>
    cases n with
    | directory => exact absurd hn hnode
    | file bs => exact ⟨.file bs, rfl, rfl⟩
    | sink => exact ⟨.sink, rfl, rfl⟩
    | full => exact ⟨.full, rfl, rfl⟩

theorem read_eq (h : s.Holds path l) : s.read path = .ok (s.contentAt l) := by
  obtain ⟨n, hlocate, hcontent⟩ := h.locate_eq
  unfold read
  rw [hlocate]
  exact hcontent

/-- Writing to the file does not move it. -/
theorem write (h : s.Holds path l) (hw : s.write l bs = .ok t) : t.Holds path l := by
  rcases write_eq_ok hw with ⟨-, rfl⟩ | rfl
  · exact h
  · exact h.put (not_directory_of_locateNew h.located) bs

end Holds

/-- A file that was put at the place of a path is found by it. -/
theorem holds_put (h : s.locateNew path = .ok l) (bs : Bytes) : (s.put l bs).Holds path l :=
  ⟨locateNew_put (not_directory_of_locateNew h) bs h, by rw [node?_put]; nofun⟩

/-- A file that was opened to write is found by its path. -/
theorem holds_of_create (h : s.create path = .ok (l, t)) : t.Holds path l := by
  obtain ⟨hl, ⟨hnode, rfl⟩ | rfl⟩ := create_eq_ok h
  · refine ⟨hl, ?_⟩
    rcases hnode with hnode | hnode <;> rw [hnode] <;> nofun
  · exact holds_put hl []

/-! ## The same path from elsewhere -/

theorem locateNew_seenFrom_put {dir : Location} (hl : s.node? l ≠ some .directory) (bs : Bytes)
    (h : (s.seenFrom dir).locateNew path = .ok k) :
    ((s.put l bs).seenFrom dir).locateNew path = .ok k :=
  locateNew_put (s := s.seenFrom dir) hl bs h

end Clausal.Storage
