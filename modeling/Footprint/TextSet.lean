/-!
Finite sets of texts, kept in order of their code points. A set has one list of elements, so two sets
with the same members are equal.
-/

namespace Footprint

structure TextSet where
  elements : List String
  increasing : elements.Pairwise (· < ·)
  deriving DecidableEq, Repr

namespace TextSet

instance : Membership String TextSet where
  mem s x := x ∈ s.elements

theorem mem_def {s : TextSet} {x : String} : x ∈ s ↔ x ∈ s.elements := Iff.rfl

instance (s : TextSet) (x : String) : Decidable (x ∈ s) := inferInstanceAs (Decidable (x ∈ s.elements))

def place (x : String) : List String → List String
  | [] => [x]
  | y :: ys => if x < y then x :: y :: ys else if x = y then y :: ys else y :: place x ys

theorem mem_place {x z : String} {ys : List String} : z ∈ place x ys ↔ z = x ∨ z ∈ ys := by
  induction ys with
  | nil => simp [place]
  | cons y ys ih =>
    simp only [place]
    split
    · simp
    · split
      · rename_i h
        subst h
        simp
      · simp only [List.mem_cons, ih]
        constructor
        · rintro (h | h | h) <;> simp [h]
        · rintro (h | h | h) <;> simp [h]

theorem increasing_place {x : String} {ys : List String} (h : ys.Pairwise (· < ·)) :
    (place x ys).Pairwise (· < ·) := by
  induction ys with
  | nil => simp [place]
  | cons y ys ih =>
    obtain ⟨below, rest⟩ := List.pairwise_cons.mp h
    simp only [place]
    split
    · rename_i hxy
      refine List.pairwise_cons.mpr ⟨fun z hz => ?_, h⟩
      rcases List.mem_cons.mp hz with rfl | hz
      · exact hxy
      · exact String.lt_trans hxy (below z hz)
    · split
      · exact h
      · rename_i hxy hne
        have hyx : y < x := by
          rcases String.le_total x y with hle | hle
          · exact absurd (String.le_antisymm hle (String.not_lt.mp hxy)) hne
          · exact Decidable.byContradiction fun hn =>
              hne (String.le_antisymm (String.not_lt.mp hn) hle)
        refine List.pairwise_cons.mpr ⟨fun z hz => ?_, ih rest⟩
        rcases mem_place.mp hz with rfl | hz
        · exact hyx
        · exact below z hz

def empty : TextSet := ⟨[], by simp⟩

instance : EmptyCollection TextSet := ⟨empty⟩

instance : Inhabited TextSet := ⟨empty⟩

@[simp] theorem not_mem_empty (x : String) : x ∉ (∅ : TextSet) := List.not_mem_nil

def insert (x : String) (s : TextSet) : TextSet := ⟨place x s.elements, increasing_place s.increasing⟩

@[simp] theorem mem_insert {x y : String} {s : TextSet} : y ∈ s.insert x ↔ y = x ∨ y ∈ s := mem_place

def ofList (xs : List String) : TextSet := xs.foldr insert ∅

@[simp] theorem mem_ofList {xs : List String} {x : String} : x ∈ ofList xs ↔ x ∈ xs := by
  induction xs with
  | nil => simp [ofList]
  | cons y ys ih =>
    have h : ofList (y :: ys) = (ofList ys).insert y := rfl
    simp [h, ih]

def size (s : TextSet) : Nat := s.elements.length

/-- Sets with the same members are equal. -/
theorem ext_mem {s t : TextSet} (h : ∀ x, x ∈ s ↔ x ∈ t) : s = t := by
  obtain ⟨xs, hx⟩ := s
  obtain ⟨ys, hy⟩ := t
  simp only [mem_def] at h
  suffices xs = ys by subst this; rfl
  induction xs generalizing ys with
  | nil =>
    cases ys with
    | nil => rfl
    | cons y ys => simpa using h y
  | cons x xs ih =>
    cases ys with
    | nil => simpa using h x
    | cons y ys =>
      obtain ⟨belowX, hx'⟩ := List.pairwise_cons.mp hx
      obtain ⟨belowY, hy'⟩ := List.pairwise_cons.mp hy
      have hxy : x = y := by
        rcases List.mem_cons.mp ((h x).mp (by simp)) with e | m
        · exact e
        · rcases List.mem_cons.mp ((h y).mpr (by simp)) with e | m'
          · exact e.symm
          · exact absurd (belowX y m') (String.lt_asymm (belowY x m))
      subst hxy
      congr 1
      refine ih hx' ys hy' fun z => ?_
      have hz := h z
      simp only [List.mem_cons] at hz
      constructor
      · intro m
        rcases hz.mp (.inr m) with rfl | m'
        · exact absurd (belowX z m) (String.lt_irrefl z)
        · exact m'
      · intro m
        rcases hz.mpr (.inr m) with rfl | m'
        · exact absurd (belowY z m) (String.lt_irrefl z)
        · exact m'

end TextSet

end Footprint
