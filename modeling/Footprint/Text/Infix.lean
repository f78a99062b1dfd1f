/-!
Whether a text stands somewhere in another one.
-/

namespace Footprint.Text

/-- Whether the characters of the first text stand next to each other in the second one. -/
def isInfixOf (xs : List Char) : List Char → Bool
  | [] => xs.isEmpty
  | y :: ys => xs.isPrefixOf (y :: ys) || isInfixOf xs ys

theorem isInfixOf_iff {xs ys : List Char} : isInfixOf xs ys = true ↔ xs <:+: ys := by
  induction ys with
  | nil => simp [isInfixOf]
  | cons y ys ih => simp [isInfixOf, ih, List.infix_cons_iff]

end Footprint.Text
