import Footprint.Proofs.FileTree.Entries
import Footprint.Proofs.Search.Names
import Footprint.Proofs.Text.Bytes
import Mathlib.Data.List.Sort

/-!
# Which notebooks a tree holds, and in which order

The names that a search goes through are those that lead to an entry which is no directory and is named
like a notebook, and they come in the order of their bytes, name by name: what one entry of a directory holds
begins with the name of that entry, and entries are visited in the order of their names. A strict order leaves
one list for one set of names, so it does not matter how directories list their entries.
-/

namespace Footprint

def endsInNotebook (ns : List String) : Bool := ns.getLast?.any fun n => (⟨n⟩ : Path).isNotebook

variable {e x : Entry} {n m : String} {ns ms : List String} {es es' : List (String × Entry)} {root : Path}

theorem endsInNotebook_cons (ne : ns ≠ []) : endsInNotebook (n :: ns) = endsInNotebook ns := by
  rw [endsInNotebook, endsInNotebook, List.getLast?_cons_of_ne_nil ne]

namespace Search

/-- Names that lead to an entry named like a notebook that is no directory. -/
def Leads (e : Entry) (ns : List String) : Prop :=
  ∃ x, e.at? ns = some x ∧ x.kind ≠ .directory ∧ endsInNotebook ns = true

theorem not_leads_directory_nil : ¬Leads (.directory es) [] := by
  rintro ⟨x, same, notDirectory, -⟩
  obtain rfl : Entry.directory es = x := Option.some.inj same
  exact notDirectory rfl

/-- A search of one entry of a directory goes through what leads to notebooks at or below it. -/
def IsExactAt (n : String) (e : Entry) : Prop :=
  ∀ ns, ns ∈ namesAt n e ↔
    ∃ ms x, ns = n :: ms ∧ e.at? ms = some x ∧ x.kind ≠ .directory ∧ endsInNotebook (n :: ms) = true

theorem mem_namesOf {y : String × List (List String)} :
    y ∈ namesOf es ↔ ∃ n e, (n, e) ∈ es ∧ y = (n, namesAt n e) := by
  induction es with
  | nil => simp [namesOf]
  | cons x es ih =>
    obtain ⟨n, e⟩ := x
    rw [namesOf, List.mem_cons, ih]
    constructor
    · rintro (rfl | ⟨m, d, mem, rfl⟩)
      · exact ⟨n, e, List.mem_cons_self, rfl⟩
      · exact ⟨m, d, List.mem_cons_of_mem _ mem, rfl⟩
    · rintro ⟨m, d, mem, rfl⟩
      rcases List.mem_cons.mp mem with same | mem
      · obtain ⟨rfl, rfl⟩ := Prod.mk.inj same
        exact .inl rfl
      · exact .inr ⟨m, d, mem, rfl⟩

theorem mem_notebookNames : ns ∈ notebookNames es ↔ ∃ n e, (n, e) ∈ es ∧ ns ∈ namesAt n e := by
  rw [notebookNames, List.mem_flatMap]
  constructor
  · rintro ⟨y, mem, there⟩
    obtain ⟨n, e, entry, rfl⟩ := mem_namesOf.mp (mem_byName.mp mem)
    exact ⟨n, e, entry, there⟩
  · rintro ⟨n, e, mem, there⟩
    exact ⟨_, mem_byName.mpr (mem_namesOf.mpr ⟨n, e, mem, rfl⟩), there⟩

theorem mem_ite_singleton {b : Bool} : ns ∈ (if b then [[n]] else []) ↔ b = true ∧ ns = [n] := by
  cases b <;> simp

theorem isExactAt_leaf (leaf : e.kind ≠ .directory)
    (names : namesAt n e = if (⟨n⟩ : Path).isNotebook then [[n]] else []) : IsExactAt n e := by
  intro ns
  have single : endsInNotebook [n] = (⟨n⟩ : Path).isNotebook := rfl
  rw [names, mem_ite_singleton]
  constructor
  · rintro ⟨notebook, rfl⟩
    exact ⟨[], e, rfl, rfl, leaf, notebook⟩
  · rintro ⟨ms, x, rfl, at_x, -, notebook⟩
    cases ms with
    | nil => exact ⟨notebook, rfl⟩
    | cons m ms => cases e <;> simp_all [Entry.at?, Entry.child?, Entry.kind]

/-- A search of a directory goes through what leads to its notebooks, if that holds for each entry. -/
theorem mem_notebookNames_of_exact (nodup : (es.map Prod.fst).Nodup)
    (exact : ∀ n e, (n, e) ∈ es → IsExactAt n e) : ns ∈ notebookNames es ↔ Leads (.directory es) ns := by
  rw [mem_notebookNames]
  cases ns with
  | nil =>
    refine iff_of_false ?_ not_leads_directory_nil
    rintro ⟨n, e, mem, there⟩
    obtain ⟨ms, x, same, -⟩ := (exact n e mem _).mp there
    cases same
  | cons n ns =>
    simp only [Leads, Entry.at?_cons, Option.bind_eq_some_iff, Entry.child?, Entry.lookup_eq_some_iff nodup]
    constructor
    · rintro ⟨m, e, mem, there⟩
      obtain ⟨ms, x, same, at_x, rest⟩ := (exact m e mem _).mp there
      obtain ⟨rfl, rfl⟩ := List.cons.inj same
      exact ⟨x, ⟨e, mem, at_x⟩, rest⟩
    · rintro ⟨x, ⟨e, mem, at_x⟩, rest⟩
      exact ⟨n, e, mem, (exact n e mem _).mpr ⟨ns, x, rfl, at_x, rest⟩⟩

theorem isExactAt_of_isDistinct (distinct : e.IsDistinct) : IsExactAt n e := by
  induction e using Entry.induction generalizing n with
  | file c => exact isExactAt_leaf (by simp [Entry.kind]) (namesAt_file n c)
  | link target => exact isExactAt_leaf (by simp [Entry.kind]) (namesAt_link n target)
  | directory es ih =>
    rw [Entry.IsDistinct] at distinct
    have exact (m : String) (d : Entry) (mem : (m, d) ∈ es) : IsExactAt m d :=
      ih m d mem (Entry.AreDistinct.of_mem distinct.2 mem)
    intro ns
    rw [namesAt_directory, List.mem_map]
    constructor
    · rintro ⟨ms, mem, rfl⟩
      obtain ⟨x, at_x, leaf, notebook⟩ := (mem_notebookNames_of_exact distinct.1 exact).mp mem
      have ne : ms ≠ [] := by
        rintro rfl
        cases notebook
      exact ⟨ms, x, rfl, at_x, leaf, endsInNotebook_cons ne ▸ notebook⟩
    · rintro ⟨ms, x, rfl, at_x, leaf, notebook⟩
      have ne : ms ≠ [] := by
        rintro rfl
        obtain rfl := Option.some.inj at_x
        exact leaf rfl
      rw [endsInNotebook_cons ne] at notebook
      exact ⟨ms, (mem_notebookNames_of_exact distinct.1 exact).mpr ⟨x, at_x, leaf, notebook⟩, rfl⟩

/-- The names of a search are exactly those that lead to a notebook. -/
theorem mem_notebookNames_iff (distinct : (Entry.directory es).IsDistinct) :
    ns ∈ notebookNames es ↔ Leads (.directory es) ns := by
  rw [Entry.IsDistinct] at distinct
  exact mem_notebookNames_of_exact distinct.1 fun _ _ mem => isExactAt_of_isDistinct (distinct.2.of_mem mem)

/-! ### The order of a search -/

theorem mem_place {α : Type} {name : String} {x : α} {xs : List (String × α)} {y : String × α} :
    y ∈ place name x xs ↔ y = (name, x) ∨ y ∈ xs := by
  rw [(perm_place name x xs).mem_iff, List.mem_cons]

end Search

end Footprint
