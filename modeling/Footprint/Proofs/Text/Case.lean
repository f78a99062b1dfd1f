import Footprint.Text.Case

/-!
# Lower case in context

The lower case of a text is made character by character, apart from capital sigmas: whether one becomes a final sigma
depends on what stands around it. So a part of a text has its own lower case within the whole if its capital sigmas
end words in the one exactly where they do in the other.
-/

namespace Footprint.Text

/-- Whether a capital sigma between these characters becomes a final one. The first list is reversed. -/
def endsWord (before after : List Char) : Bool := wordGoesOn before && !wordGoesOn after

/-- Each capital sigma of the second list becomes the same within the whole as in the list alone. -/
def KeepsSigmas (a p b : List Char) : Prop :=
  ∀ x y, p = x ++ 'Σ' :: y → endsWord (x.reverse ++ a.reverse) (y ++ b) = endsWord x.reverse y

/-- Lower case of the second list, which stands between the others. The first list is reversed. -/
def lowerBetween : List Char → List Char → List Char → List Char
  | _, [], _ => []
  | before, c :: cs, after =>
    (if c == 'Σ' then [if endsWord before (cs ++ after) then 'ς' else 'σ'] else lowerChar c) ++
      lowerBetween (c :: before) cs after

variable {a b p before before' cs after after' : List Char} {s : String}

theorem keepsSigmas_of_not_mem (none : 'Σ' ∉ p) : KeepsSigmas a p b := by
  rintro x y rfl
  simp at none

theorem lowerAfter_append (before cs after : List Char) :
    lowerAfter before (cs ++ after) = lowerBetween before cs after ++ lowerAfter (cs.reverse ++ before) after := by
  induction cs generalizing before with
  | nil => rfl
  | cons c cs ih =>
    rw [List.cons_append, lowerAfter, ih, lowerBetween, List.reverse_cons, List.append_assoc, List.append_assoc,
      List.singleton_append]
    rfl

theorem lowerBetween_nil (before cs : List Char) : lowerBetween before cs [] = lowerAfter before cs := by
  have whole := lowerAfter_append before cs []
  rw [lowerAfter_nil, List.append_nil, List.append_nil] at whole
  exact whole.symm

/-- What stands around counts for the sigmas only. -/
theorem lowerBetween_eq (same : ∀ x y, cs = x ++ 'Σ' :: y →
    endsWord (x.reverse ++ before) (y ++ after) = endsWord (x.reverse ++ before') (y ++ after')) :
    lowerBetween before cs after = lowerBetween before' cs after' := by
  induction cs generalizing before before' with
  | nil => rfl
  | cons c cs ih =>
    have rest : lowerBetween (c :: before) cs after = lowerBetween (c :: before') cs after' := by
      refine ih fun x y split => ?_
      have whole := same (c :: x) y (by rw [split, List.cons_append])
      simpa using whole
    rw [lowerBetween, lowerBetween, rest]
    by_cases sigma : c = 'Σ'
    · have first := same [] cs (by rw [sigma, List.nil_append])
      rw [List.reverse_nil, List.nil_append, List.nil_append] at first
      rw [first]
    · simp [sigma]

/-- A part whose sigmas keep their form has its own lower case within the whole. -/
theorem lowerAfter_infix (keeps : KeepsSigmas a p b) :
    lowerAfter [] p <:+: lowerAfter [] (a ++ p ++ b) := by
  have own : lowerBetween a.reverse p b = lowerAfter [] p := by
    rw [← lowerBetween_nil]
    refine lowerBetween_eq fun x y split => ?_
    rw [List.append_nil, List.append_nil]
    exact keeps x y split
  refine ⟨lowerBetween [] a (p ++ b), lowerAfter (p.reverse ++ a.reverse) b, ?_⟩
  rw [List.append_assoc a, lowerAfter_append, lowerAfter_append, List.append_nil, own, List.append_assoc]

theorem lowerChar_ne_nil (c : Char) : lowerChar c ≠ [] := by
  rw [lowerChar]
  repeat' split
  all_goals exact List.cons_ne_nil _ _

theorem lower_eq_empty_iff : lower s = "" ↔ s = "" := by
  rw [← String.toList_eq_nil_iff, ← String.toList_eq_nil_iff, toList_lower]
  cases s.toList with
  | nil => rw [lowerAfter_nil]
  | cons c cs =>
    rw [lowerAfter]
    split <;> simp [lowerChar_ne_nil]

end Footprint.Text
