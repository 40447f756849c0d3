import Clausal.Storage.Path
import Mathlib.Data.List.Basic
import Mathlib.Data.List.TakeWhile

/-!
# File names in paths

A path is a directory part and a name without a slash. If the name is one of a file then the parts
are those that `split?` finds, and another extension replaces what follows the last dot behind the
stem of the name (`withExtension_append`).
-/

namespace Clausal.Path

variable {dir name stem ext : List Char}

/-! ## Directory parts -/

theorem bne_of_mem_reverse {c : Char} {cs : List Char} (h : c ∉ cs) :
    ∀ d ∈ cs.reverse, (d != c) = true := by
  intro d hd
  rw [bne_iff_ne]
  rintro rfl
  exact h (List.mem_reverse.mp hd)

/-- The part of a path in front of a name. -/
def IsDirPart (dir : List Char) : Prop := dir = [] ∨ ∃ front, dir = front ++ ['/']

/-- A name that a file can have. -/
structure IsFileName (name : List Char) : Prop where
  ne_nil : name ≠ []
  no_slash : '/' ∉ name
  ne_here : name ≠ ['.']
  ne_up : name ≠ ['.', '.']

/-- Every path is a directory part and a name, which is empty if the path ends in a slash. -/
theorem exists_dirPart (path : List Char) :
    ∃ dir name, path = dir ++ name ∧ IsDirPart dir ∧ '/' ∉ name := by
  induction path with
  | nil => exact ⟨[], [], rfl, .inl rfl, List.not_mem_nil⟩
  | cons c path ih =>
    obtain ⟨dir, name, rfl, hdir | ⟨front, hdir⟩, hname⟩ := ih
    · subst hdir
      by_cases hc : c = '/'
      · exact ⟨[c], name, rfl, .inr ⟨[], by rw [hc]; rfl⟩, hname⟩
      · exact ⟨[], c :: name, rfl, .inl rfl,
          List.not_mem_cons_of_ne_of_not_mem (Ne.symm hc) hname⟩
    · exact ⟨c :: dir, name, rfl, .inr ⟨c :: front, by rw [hdir]; rfl⟩, hname⟩

theorem names_append (hdir : IsDirPart dir) (hslash : '/' ∉ name) (hne : name ≠ []) :
    names (dir ++ name) = names dir ++ [name] := by
  have hsplit : name.splitOnP (· == '/') = [name] :=
    List.splitOnP_eq_singleton fun c hc => beq_false_of_ne fun heq => hslash (heq ▸ hc)
  have hname : ([name].filter fun t => !t.isEmpty) = [name] := by simp [hne]
  unfold names
  rcases hdir with rfl | ⟨front, rfl⟩
  · rw [List.nil_append, hsplit, hname]
    rfl
  · have hfront (cs : List Char) : (front ++ '/' :: cs).splitOnP (· == '/') =
        front.splitOnP (· == '/') ++ cs.splitOnP (· == '/') :=
      List.splitOnP_append_cons front cs rfl
    rw [← List.append_cons, hfront, hfront, hsplit, List.filter_append, hname, List.filter_append,
      List.splitOnP_nil]
    simp

theorem isAbsolute_append (hslash : '/' ∉ name) : isAbsolute (dir ++ name) = isAbsolute dir := by
  cases dir with
  | nil =>
    cases name with
    | nil => rfl
    | cons c name => exact beq_false_of_ne fun heq => hslash (by simp_all)
  | cons c dir => rfl

/-- Behind a file name there is nothing to drop. -/
theorem IsFileName.dropTail_eq (h : IsFileName name) (rest : List Char) :
    dropTail (name.reverse ++ rest) = name.reverse ++ rest := by
  have hslash : ∀ c ∈ name.reverse, c ≠ '/' :=
    fun c hc => bne_iff_ne.mp (bne_of_mem_reverse h.no_slash c hc)
  have hne : name.reverse ≠ [] := fun hnil => h.ne_nil (List.reverse_eq_nil_iff.mp hnil)
  have hhere : name.reverse ≠ ['.'] := fun heq => h.ne_here (List.reverse_eq_iff.mp heq)
  generalize name.reverse = back at hslash hne hhere
  cases back with
  | nil => exact absurd rfl hne
  | cons c back =>
    obtain ⟨hc, hback⟩ := List.forall_mem_cons.mp hslash
    unfold dropTail
    split
    · next heq => exact absurd (List.cons.inj heq).1 hc
    · next heq =>
      obtain ⟨rfl, hrest⟩ := List.cons.inj heq
      cases back with
      | nil => exact absurd rfl hhere
      | cons d back => exact absurd (List.cons.inj hrest).1 (hback d List.mem_cons_self)
    · rfl

theorem IsFileName.split?_append (h : IsFileName name) (hdir : IsDirPart dir) :
    split? (dir ++ name) = some (dir, name) := by
  have hkept := bne_of_mem_reverse h.no_slash
  have hback : dir.reverse.takeWhile (· != '/') = [] ∧
      dir.reverse.dropWhile (· != '/') = dir.reverse := by
    rcases hdir with rfl | ⟨front, rfl⟩
    · exact ⟨rfl, rfl⟩
    · rw [List.reverse_append]
      exact ⟨rfl, rfl⟩
  unfold split?
  rw [List.reverse_append, h.dropTail_eq]
  dsimp only
  rw [List.takeWhile_append_of_pos hkept, List.dropWhile_append_of_pos hkept, hback.1, hback.2,
    List.append_nil, List.reverse_reverse, List.reverse_reverse]
  exact if_neg fun hstep => hstep.elim h.ne_nil fun hstep => hstep.elim h.ne_here h.ne_up

/-! ## Extensions -/

theorem splitName_append (stem : List Char) (hext : '.' ∉ ext) :
    splitName (stem ++ '.' :: ext) =
      if stem = [] then (stem ++ '.' :: ext, none) else (stem, some ext) := by
  have hkept := bne_of_mem_reverse hext
  have hback : (stem ++ '.' :: ext).reverse = ext.reverse ++ '.' :: stem.reverse := by simp
  have hdrop : ('.' :: stem.reverse).dropWhile (· != '.') = '.' :: stem.reverse := rfl
  have htake : ('.' :: stem.reverse).takeWhile (· != '.') = [] := rfl
  unfold splitName
  rw [hback]
  dsimp only
  rw [List.takeWhile_append_of_pos hkept, List.dropWhile_append_of_pos hkept, hdrop, htake,
    List.drop_one, List.tail_cons, List.append_nil, List.reverse_reverse, List.reverse_reverse]

/-- A name has no extension, or one behind its last dot and a stem in front of it. -/
theorem splitName_cases (name : List Char) : splitName name = (name, none) ∨
    ∃ stem ext, name = stem ++ '.' :: ext ∧ stem ≠ [] ∧ '.' ∉ ext := by
  by_cases hdot : '.' ∈ name
  · obtain ⟨back, front, heq, hback⟩ := List.eq_append_cons_of_mem (List.mem_reverse.mpr hdot)
    obtain rfl : name = front.reverse ++ '.' :: back.reverse := by
      rw [← List.reverse_reverse name, heq]
      simp
    have hext : '.' ∉ back.reverse := fun hmem => hback (List.mem_reverse.mp hmem)
    by_cases hstem : front.reverse = []
    · exact .inl (by rw [splitName_append _ hext, if_pos hstem])
    · exact .inr ⟨_, _, rfl, hstem, hext⟩
  · have hnone : name.reverse.dropWhile (· != '.') = [] :=
      List.dropWhile_eq_nil_iff.mpr (bne_of_mem_reverse hdot)
    refine .inl ?_
    unfold splitName
    dsimp only
    rw [hnone]
    rfl

/-- The name with its last dot and what follows it replaced, or the dot put behind it. -/
def replaced (name ext : List Char) : List Char := (splitName name).1 ++ '.' :: ext

theorem extension?_append (h : IsFileName name) (hdir : IsDirPart dir) :
    extension? (dir ++ name) = (splitName name).2 := by
  rw [extension?, h.split?_append hdir]

theorem setExtension_append (h : IsFileName name) (hdir : IsDirPart dir) (ext : List Char) :
    setExtension (dir ++ name) ext = dir ++ replaced name ext := by
  rw [setExtension, h.split?_append hdir]
  exact List.append_assoc ..

/-- A name is its own replacement if and only if it has the extension already. -/
theorem replaced_eq_self_iff : replaced name ext = name ↔ (splitName name).2 = some ext := by
  rcases splitName_cases name with hnone | ⟨stem, old, rfl, hstem, hold⟩
  · rw [replaced, hnone]
    simp
  · rw [replaced, splitName_append stem hold, if_neg hstem]
    simp [eq_comm]

theorem IsFileName.replaced (h : IsFileName name) (hne : ext ≠ []) (hslash : '/' ∉ ext) :
    IsFileName (replaced name ext) := by
  obtain ⟨hstem, hstemSlash⟩ : (splitName name).1 ≠ [] ∧ '/' ∉ (splitName name).1 := by
    rcases splitName_cases name with hnone | ⟨stem, old, rfl, hstem, hold⟩
    · rw [hnone]
      exact ⟨h.ne_nil, h.no_slash⟩
    · rw [splitName_append stem hold, if_neg hstem]
      exact ⟨hstem, fun hmem => h.no_slash (List.mem_append_left _ hmem)⟩
  have hlength : 2 < (Path.replaced name ext).length := by
    have hstem := List.length_pos_of_ne_nil hstem
    have hext := List.length_pos_of_ne_nil hne
    rw [Path.replaced, List.length_append, List.length_cons]
    omega
  refine ⟨fun heq => ?_, ?_, fun heq => ?_, fun heq => ?_⟩
  · rw [heq] at hlength
    cases hlength
  · rw [Path.replaced, List.mem_append, List.mem_cons, not_or, not_or]
    exact ⟨hstemSlash, by decide, hslash⟩
  · rw [heq] at hlength
    exact absurd hlength (by decide)
  · rw [heq] at hlength
    exact absurd hlength (by decide)

/-- The step to the parent is no file name. -/
theorem split?_up (hdir : IsDirPart dir) : split? (dir ++ ['.', '.']) = none := by
  rcases hdir with rfl | ⟨front, rfl⟩
  · rfl
  · unfold split?
    rw [List.reverse_append, List.reverse_append]
    rfl

/-- Without its extension a name still ends in a dot. So a new extension replaces the old one, but a
name of two dots and an extension is left as the step to the parent. -/
theorem withExtension_append (h : IsFileName name) (hdir : IsDirPart dir) (ext : List Char) :
    withExtension (dir ++ name) ext = dir ++ replaced name ext ∨
      withExtension (dir ++ name) ext = dir ++ ['.', '.'] := by
  unfold withExtension
  rw [extension?_append h hdir]
  rcases splitName_cases name with hnone | ⟨stem, old, rfl, hstem, hold⟩
  · rw [hnone]
    dsimp only
    rw [Option.getD_none, List.length_nil, Nat.sub_zero, List.take_length]
    exact .inl (setExtension_append h hdir ext)
  · have htake : (dir ++ (stem ++ '.' :: old)).take
        ((dir ++ (stem ++ '.' :: old)).length - old.length) = dir ++ (stem ++ ['.']) := by
      have hcut : dir ++ (stem ++ '.' :: old) = dir ++ (stem ++ ['.']) ++ old := by simp
      rw [hcut, List.length_append, Nat.add_sub_cancel, List.take_left]
    rw [splitName_append stem hold, if_neg hstem]
    dsimp only
    rw [Option.getD_some, htake]
    by_cases hup : stem = ['.']
    · right
      rw [hup, setExtension]
      simp only [List.cons_append, List.nil_append, split?_up hdir]
    · left
      have hname : IsFileName (stem ++ ['.']) := by
        refine ⟨by simp, ?_, by simpa using hstem, ?_⟩
        · have hslash := h.no_slash
          simp only [List.mem_append, List.mem_cons, not_or] at hslash ⊢
          exact ⟨hslash.1, by decide, List.not_mem_nil⟩
        · intro (heq : stem ++ ['.'] = ['.'] ++ ['.'])
          exact hup (List.append_cancel_right heq)
      rw [setExtension_append hname hdir, replaced, replaced, splitName_append stem hold,
        splitName_append stem List.not_mem_nil, if_neg hstem, if_neg hstem]

end Clausal.Path
