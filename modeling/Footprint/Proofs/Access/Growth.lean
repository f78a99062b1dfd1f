import Footprint.Access
import Footprint.Proofs.Text.Case
import Mathlib.Data.List.Nodup

/-!
# Lists of patterns grow

A list of patterns is only added to: behind what it holds come the lower cases of new patterns, each where it is
given first. It never holds a pattern twice, and never the empty one, which stands in every name.
-/

namespace Footprint.AccessPatterns

/-- What is to be added for new patterns: their lower cases, the empty pattern left out. -/
def forms (new : List String) : List String := (new.filter (· ≠ "")).map Text.lower

structure IsProper (patterns : List String) : Prop where
  nodup : patterns.Nodup
  nonempty : "" ∉ patterns

variable {patterns new new' : List String} {pattern p q : String}

theorem mem_forms_iff : q ∈ forms new ↔ ∃ p ∈ new, p ≠ "" ∧ q = Text.lower p := by
  simp only [forms, List.mem_map, List.mem_filter, decide_eq_true_eq, and_assoc]
  exact exists_congr fun p => and_congr_right fun _ => and_congr_right fun _ => eq_comm

theorem forms_subset (subset : new ⊆ new') : forms new ⊆ forms new' := by
  intro q mem
  obtain ⟨p, given, some, rfl⟩ := mem_forms_iff.mp mem
  exact mem_forms_iff.mpr ⟨p, subset given, some, rfl⟩

theorem mem_forms_congr (same : ∀ p, p ∈ new' ↔ p ∈ new) (q : String) : q ∈ forms new' ↔ q ∈ forms new :=
  ⟨fun mem => forms_subset (fun p => (same p).mp) mem, fun mem => forms_subset (fun p => (same p).mpr) mem⟩

theorem add_empty (patterns : List String) : add patterns "" = patterns := by
  rw [add, if_pos (.inl (Text.lower_eq_empty_iff.mpr rfl))]

theorem add_of_ne (some : p ≠ "") :
    add patterns p = if Text.lower p ∈ patterns then patterns else patterns ++ [Text.lower p] := by
  simp only [add, Text.lower_eq_empty_iff.not.mpr some, false_or]

/-- What is added comes last, and each pattern where it is given first. -/
theorem addAll_eq (patterns new : List String) :
    addAll patterns new = patterns ++ ((forms new).filter (· ∉ patterns)).eraseDups := by
  induction new generalizing patterns with
  | nil => rw [addAll_nil, forms, List.filter_nil, List.map_nil, List.filter_nil, List.eraseDups_nil, List.append_nil]
  | cons p new ih =>
    rw [addAll_cons, ih]
    by_cases none : p = ""
    · rw [none, add_empty, forms, forms, List.filter_cons_of_neg (by simp)]
    · have first : forms (p :: new) = Text.lower p :: forms new := by
        rw [forms, List.filter_cons_of_pos (by simp [none]), List.map_cons, ← forms]
      rw [add_of_ne none, first]
      by_cases there : Text.lower p ∈ patterns
      · rw [if_pos there, List.filter_cons_of_neg (by simp [there])]
      · rw [if_neg there, List.filter_cons_of_pos (by simp [there]), List.eraseDups_cons, List.filter_filter,
          List.append_assoc, List.singleton_append]
        refine congrArg (fun l => patterns ++ Text.lower p :: List.eraseDups l) (List.filter_congr fun q _ => ?_)
        by_cases old : q ∈ patterns <;> by_cases same : q = Text.lower p <;> simp [old, same]

theorem addAll_append (patterns new new' : List String) :
    addAll patterns (new ++ new') = addAll (addAll patterns new) new' := List.foldl_append

theorem mem_addAll_iff : q ∈ addAll patterns new ↔ q ∈ patterns ∨ q ∈ forms new := by
  rw [mem_addAll, mem_forms_iff]
  refine or_congr_right ?_
  rw [List.mem_map]
  constructor
  · rintro ⟨⟨p, mem, rfl⟩, some⟩
    exact ⟨p, mem, Text.lower_eq_empty_iff.not.mp some, rfl⟩
  · rintro ⟨p, mem, some, rfl⟩
    exact ⟨⟨p, mem, rfl⟩, Text.lower_eq_empty_iff.not.mpr some⟩

theorem subset_addAll (patterns new : List String) : patterns ⊆ addAll patterns new :=
  fun _ mem => mem_addAll_iff.mpr (.inl mem)

theorem addAll_of_subset (there : forms new ⊆ patterns) : addAll patterns new = patterns := by
  have none : (forms new).filter (· ∉ patterns) = [] := by
    rw [List.filter_eq_nil_iff]
    intro q mem
    simp [there mem]
  rw [addAll_eq, none, List.eraseDups_nil, List.append_nil]

theorem IsProper.add (h : IsProper patterns) (pattern : String) : IsProper (add patterns pattern) := by
  by_cases none : pattern = ""
  · rwa [none, add_empty]
  rw [add_of_ne none]
  split
  · exact h
  · rename_i new
    refine ⟨List.nodup_append.mpr ⟨h.nodup, List.nodup_singleton _, ?_⟩, ?_⟩
    · rintro a mem b isNew rfl
      exact new (List.mem_singleton.mp isNew ▸ mem)
    · rw [List.mem_append, List.mem_singleton, not_or]
      exact ⟨h.nonempty, Ne.symm (Text.lower_eq_empty_iff.not.mpr none)⟩

theorem IsProper.addAll (h : IsProper patterns) (new : List String) : IsProper (addAll patterns new) := by
  induction new generalizing patterns with
  | nil => exact h
  | cons p new ih => exact ih (h.add p)

/-! ### Classes of methods -/

theorem anyIn_mono {text : String} (subset : patterns ⊆ new) (found : anyIn patterns text = true) :
    anyIn new text = true := by
  obtain ⟨p, mem, inside⟩ := anyIn_eq_true_iff.mp found
  exact anyIn_eq_true_iff.mpr ⟨p, subset mem, inside⟩

theorem anyIn_congr (same : ∀ q, q ∈ patterns ↔ q ∈ new) (text : String) : anyIn patterns text = anyIn new text :=
  Bool.eq_iff_iff.mpr ⟨anyIn_mono fun q => (same q).mp, anyIn_mono fun q => (same q).mpr⟩

end Footprint.AccessPatterns
