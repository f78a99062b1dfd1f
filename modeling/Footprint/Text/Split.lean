/-!
Splitting a list at a separator, and joining the parts again. There is always a part: nothing splits
into one empty part. A text splits into lines, the last of which need not be ended.
-/

namespace Footprint.Text

variable {α : Type} [DecidableEq α]

def split (separator : α) : List α → List (List α)
  | [] => [[]]
  | x :: xs =>
    if x = separator then [] :: split separator xs
    else
      match split separator xs with
      | [] => [[x]]
      | p :: ps => (x :: p) :: ps

def joinBy (separator : α) : List (List α) → List α
  | [] => []
  | [p] => p
  | p :: ps => p ++ separator :: joinBy separator ps

theorem split_ne_nil (separator : α) (xs : List α) : split separator xs ≠ [] := by
  cases xs with
  | nil => simp [split]
  | cons x xs =>
    simp only [split]
    split
    · simp
    · split <;> simp

@[simp] theorem joinBy_split (separator : α) (xs : List α) :
    joinBy separator (split separator xs) = xs := by
  induction xs with
  | nil => rfl
  | cons x xs ih =>
    simp only [split]
    split
    · rename_i h
      subst h
      cases hs : split x xs with
      | nil => exact absurd hs (split_ne_nil x xs)
      | cons p ps => simp [joinBy, ← hs, ih]
    · cases hs : split separator xs with
      | nil => exact absurd hs (split_ne_nil separator xs)
      | cons p ps =>
        rw [hs] at ih
        cases ps <;> simp_all [joinBy]

def dropLastIf (x : α) (xs : List α) : List α := if xs.getLast? = some x then xs.dropLast else xs

/-- The lines of a text, of which each but the last ends in `feed`, with or without `return_` before
it. An empty last line is none. -/
def lines (feed return_ : α) (xs : List α) : List (List α) :=
  let parts := split feed xs
  parts.dropLast.map (dropLastIf return_) ++ parts.getLast?.toList.filter (!·.isEmpty)

end Footprint.Text
