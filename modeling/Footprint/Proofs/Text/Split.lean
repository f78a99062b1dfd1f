import Footprint.Text.Split

/-!
# Parts of a text

What splitting does to a text put together from others, and which texts come out as parts.
-/

namespace Footprint.Text

variable {α : Type} [DecidableEq α]

theorem split_eq_splitOn (x : α) (xs : List α) : split x xs = xs.splitOn x := by
  induction xs with
  | nil => simp [split]
  | cons y ys ih =>
    rw [List.splitOn_cons_eq_if_modifyHead, split, ih]
    by_cases h : y = x
    · simp [h]
    · cases hs : ys.splitOn x <;> simp_all

theorem split_append_cons (x : α) (xs ys : List α) :
    split x (xs ++ x :: ys) = split x xs ++ split x ys := by
  simp only [split_eq_splitOn, List.splitOn_append_cons_self]

theorem split_of_not_mem {x : α} {xs : List α} (h : x ∉ xs) : split x xs = [xs] := by
  rw [split_eq_splitOn, List.splitOn_eq_singleton h]

theorem not_mem_of_mem_split {x : α} {xs p : List α} (h : p ∈ split x xs) : x ∉ p := by
  induction xs generalizing p with
  | nil =>
    obtain rfl := List.mem_singleton.mp h
    exact List.not_mem_nil
  | cons y ys ih =>
    rw [split] at h
    split at h
    · rcases List.mem_cons.mp h with rfl | later
      · exact List.not_mem_nil
      · exact ih later
    · rename_i other
      cases parts : split x ys with
      | nil => exact absurd parts (split_ne_nil x ys)
      | cons q qs =>
        rw [parts] at h ih
        rcases List.mem_cons.mp h with rfl | later
        · exact List.not_mem_cons_of_ne_of_not_mem (Ne.symm other) (ih List.mem_cons_self)
        · exact ih (List.mem_cons_of_mem q later)

theorem split_flatMap {x : α} {ps : List (List α)} (h : ∀ p ∈ ps, x ∉ p) :
    split x (ps.flatMap (· ++ [x])) = ps ++ [[]] := by
  induction ps with
  | nil => rfl
  | cons p ps ih =>
    obtain ⟨first, rest⟩ := List.forall_mem_cons.mp h
    rw [List.flatMap_cons, List.append_assoc, List.singleton_append, split_append_cons, split_of_not_mem first, ih rest]
    rfl

theorem toList_join_lines (ss : List String) :
    (String.join (ss.map (· ++ "\n"))).toList = (ss.map String.toList).flatMap (· ++ ['\n']) := by
  rw [String.toList_join, List.flatMap_map, List.flatMap_map]
  simp

/-- Lines that end in line feeds are read back from their text. -/
theorem split_join_lines {ss : List String} (h : ∀ s ∈ ss, '\n' ∉ s.toList) :
    split '\n' (String.join (ss.map (· ++ "\n"))).toList = ss.map String.toList ++ [[]] := by
  rw [toList_join_lines, split_flatMap (by simpa using h)]

theorem getLast?_split_concat {x y : α} (h : y ≠ x) (xs : List α) :
    ∃ p, (split x (xs ++ [y])).getLast? = some (p ++ [y]) := by
  induction xs with
  | nil => exact ⟨[], by simp [split, h]⟩
  | cons z zs ih =>
    obtain ⟨p, hp⟩ := ih
    rw [List.cons_append, split]
    cases hs : split x (zs ++ [y]) with
    | nil => exact (split_ne_nil _ _ hs).elim
    | cons q qs =>
      rw [hs] at hp
      cases qs with
      | nil =>
        obtain rfl : q = p ++ [y] := by simpa using hp
        by_cases hz : z = x
        · exact ⟨p, by simp [hz]⟩
        · exact ⟨z :: p, by simp [hz]⟩
      | cons r rs =>
        refine ⟨p, ?_⟩
        by_cases hz : z = x <;> simpa [hz] using hp

theorem getLast?_split_eq_nil_iff {x : α} {xs : List α} :
    (split x xs).getLast? = some [] ↔ xs = [] ∨ xs.getLast? = some x := by
  rcases List.eq_nil_or_concat xs with rfl | ⟨ys, y, rfl⟩
  · simp [split]
  · by_cases h : y = x
    · subst h
      simp [split_append_cons, split]
    · obtain ⟨p, hp⟩ := getLast?_split_concat h ys
      simp [hp, h]

omit [DecidableEq α] in
theorem joinBy_append {x : α} {ps qs : List (List α)} (hp : ps ≠ []) (hq : qs ≠ []) :
    joinBy x (ps ++ qs) = joinBy x ps ++ x :: joinBy x qs := by
  induction ps with
  | nil => exact absurd rfl hp
  | cons p ps ih =>
    cases ps with
    | nil => cases qs <;> simp_all [joinBy]
    | cons r rs => simpa [joinBy] using ih (by simp)

/-- Parts other than the last one are what stands before a separator, at the beginning or behind
another separator. -/
theorem mem_dropLast_split_iff {x : α} {xs p : List α} (hp : x ∉ p) :
    p ∈ (split x xs).dropLast ↔
      (∃ ys, xs = p ++ x :: ys) ∨ ∃ zs ys, xs = zs ++ x :: (p ++ x :: ys) := by
  have alone := split_of_not_mem hp
  constructor
  · intro h
    obtain ⟨before, after, hba⟩ := List.append_of_mem h
    have whole : split x xs = before ++ p :: (after ++ [(split x xs).getLast (split_ne_nil _ _)]) := by
      conv => lhs; rw [← List.dropLast_concat_getLast (split_ne_nil x xs), hba]
      simp
    have joined := joinBy_split x xs
    generalize hl : (split x xs).getLast (split_ne_nil x xs) = l at whole
    rw [whole] at joined
    have rest : joinBy x (p :: (after ++ [l])) = p ++ x :: joinBy x (after ++ [l]) :=
      @joinBy_append α x [p] (after ++ [l]) (by simp) (by simp)
    cases before with
    | nil => exact .inl ⟨_, by rw [← joined, List.nil_append, rest]⟩
    | cons q qs =>
      refine .inr ⟨joinBy x (q :: qs), joinBy x (after ++ [l]), ?_⟩
      rw [← joined, joinBy_append (by simp) (by simp), rest]
  · rintro (⟨ys, rfl⟩ | ⟨zs, ys, rfl⟩)
    · rw [split_append_cons, alone, List.dropLast_append_of_ne_nil (split_ne_nil _ _)]
      simp
    · rw [split_append_cons, split_append_cons, alone,
        List.dropLast_append_of_ne_nil (by simp), List.dropLast_append_of_ne_nil (split_ne_nil _ _)]
      simp

end Footprint.Text
