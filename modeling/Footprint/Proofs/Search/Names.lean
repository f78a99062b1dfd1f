import Footprint.Proofs.Path.Below
import Footprint.Search

/-!
# A search by names

A search below a root, told apart into what the tree holds and what the filter leaves out. The tree
gives the names that lead to its notebooks, in the order of the search; the filter drops some of
these, and the root only stands before the ones that are left.
-/

namespace Footprint

/-- Whether an entry is out of sight: it is left out itself, or a directory between the root and it. -/
def IgnoreFilter.hides (f : IgnoreFilter) (root : Path) : List String → Bool
  | [] => false
  | [n] => f.ignores (root.join ⟨n⟩) false
  | n :: ns => f.ignores (root.join ⟨n⟩) true || f.hides (root.join ⟨n⟩) ns

@[simp] theorem IgnoreFilter.hides_nil (f : IgnoreFilter) (root : Path) : f.hides root [] = false := rfl

@[simp] theorem IgnoreFilter.hides_singleton (f : IgnoreFilter) (root : Path) (n : String) :
    f.hides root [n] = f.ignores (root.join ⟨n⟩) false := rfl

theorem IgnoreFilter.hides_cons (f : IgnoreFilter) {root : Path} {n : String} {ns : List String}
    (ne : ns ≠ []) :
    f.hides root (n :: ns) = (f.ignores (root.join ⟨n⟩) true || f.hides (root.join ⟨n⟩) ns) := by
  cases ns with
  | nil => exact absurd rfl ne
  | cons m ms => rfl

mutual

/-- All names in a tree are names that a directory can hold. -/
def Entry.IsNamed : Entry → Prop
  | .directory es => Entry.AreNamed es
  | _ => True

def Entry.AreNamed : List (String × Entry) → Prop
  | [] => True
  | (n, e) :: es => Path.IsName n ∧ e.IsNamed ∧ Entry.AreNamed es

end

namespace Search

variable {α β : Type}

theorem place_map (g : α → β) (n : String) (x : α) (xs : List (String × α)) :
    place n (g x) (xs.map fun y => (y.1, g y.2)) = (place n x xs).map fun y => (y.1, g y.2) := by
  induction xs with
  | nil => rfl
  | cons y ys ih =>
    simp only [List.map_cons, place, ih]
    split <;> simp

theorem byName_map (g : α → β) (xs : List (String × α)) :
    byName (xs.map fun x => (x.1, g x.2)) = (byName xs).map fun x => (x.1, g x.2) := by
  induction xs with
  | nil => rfl
  | cons x xs ih =>
    calc byName ((x.1, g x.2) :: xs.map fun x => (x.1, g x.2))
        = place x.1 (g x.2) (byName (xs.map fun x => (x.1, g x.2))) := rfl
      _ = (place x.1 x.2 (byName xs)).map fun x => (x.1, g x.2) := by rw [ih, place_map]

theorem mem_byName {x : String × α} {xs : List (String × α)} : x ∈ byName xs ↔ x ∈ xs :=
  (perm_byName xs).mem_iff

mutual

/-- The notebooks at or below an entry of a name, by the names that lead there. -/
def namesAt (n : String) : Entry → List (List String)
  | .directory es => ((byName (namesOf es)).flatMap Prod.snd).map (n :: ·)
  | _ => if (⟨n⟩ : Path).isNotebook then [[n]] else []

def namesOf : List (String × Entry) → List (String × List (List String))
  | [] => []
  | (n, e) :: es => (n, namesAt n e) :: namesOf es

end

/-- The notebooks below a directory, by the names that lead there, in the order of a search. -/
def notebookNames (es : List (String × Entry)) : List (List String) :=
  (byName (namesOf es)).flatMap Prod.snd

theorem namesAt_directory (n : String) (es : List (String × Entry)) :
    namesAt n (.directory es) = (notebookNames es).map (n :: ·) := rfl

theorem namesAt_file (n : String) (c : Content) :
    namesAt n (.file c) = if (⟨n⟩ : Path).isNotebook then [[n]] else [] := rfl

theorem namesAt_link (n : String) (target : Path) :
    namesAt n (.link target) = if (⟨n⟩ : Path).isNotebook then [[n]] else [] := rfl

theorem mem_namesAt_leaf {n : String} {ns : List String}
    (h : ns ∈ if (⟨n⟩ : Path).isNotebook then [[n]] else []) : ns = [n] := by
  split at h
  · exact List.mem_singleton.mp h
  · cases h

mutual

theorem isName_of_mem_namesAt {n : String} (hn : Path.IsName n) {e : Entry} (he : e.IsNamed)
    {ns : List String} (h : ns ∈ namesAt n e) : ns ≠ [] ∧ ∀ m ∈ ns, Path.IsName m := by
  cases e with
  | directory es =>
    rw [namesAt_directory] at h
    obtain ⟨ms, hms, rfl⟩ := List.mem_map.mp h
    obtain ⟨x, hx, hxs⟩ := List.mem_flatMap.mp hms
    have below := isName_of_mem_namesOf (by simpa [Entry.IsNamed] using he) (mem_byName.mp hx) hxs
    exact ⟨by simp, List.forall_mem_cons.mpr ⟨hn, below.2⟩⟩
  | file c =>
    obtain rfl := mem_namesAt_leaf (namesAt_file n c ▸ h)
    simpa using hn
  | link p =>
    obtain rfl := mem_namesAt_leaf (namesAt_link n p ▸ h)
    simpa using hn

theorem isName_of_mem_namesOf {es : List (String × Entry)} (hes : Entry.AreNamed es)
    {x : String × List (List String)} (hx : x ∈ namesOf es) {ns : List String} (h : ns ∈ x.2) :
    ns ≠ [] ∧ ∀ m ∈ ns, Path.IsName m := by
  cases es with
  | nil => simp [namesOf] at hx
  | cons e es =>
    obtain ⟨n, e⟩ := e
    rw [Entry.AreNamed] at hes
    rw [namesOf] at hx
    rcases List.mem_cons.mp hx with rfl | hx
    · exact isName_of_mem_namesAt hes.1 hes.2.1 h
    · exact isName_of_mem_namesOf hes.2.2 hx h

end

theorem isName_of_mem_notebookNames {es : List (String × Entry)} (hes : Entry.AreNamed es)
    {ns : List String} (h : ns ∈ notebookNames es) : ns ≠ [] ∧ ∀ m ∈ ns, Path.IsName m := by
  obtain ⟨x, hx, hxs⟩ := List.mem_flatMap.mp h
  exact isName_of_mem_namesOf hes (mem_byName.mp hx) hxs

variable (f : IgnoreFilter)

def visible (root : Path) (nss : List (List String)) : List Path :=
  (nss.filter fun ns => !f.hides root ns).map root.below

theorem visible_map_cons {root : Path} {n : String} {nss : List (List String)} (ne : ∀ ns ∈ nss, ns ≠ []) :
    visible f root (nss.map (n :: ·)) =
      if f.ignores (root.join ⟨n⟩) true then [] else visible f (root.join ⟨n⟩) nss := by
  have sight : ∀ ns ∈ nss, (!f.hides root (n :: ns)) =
      (!f.ignores (root.join ⟨n⟩) true && !f.hides (root.join ⟨n⟩) ns) := by
    intro ns h
    rw [f.hides_cons (ne ns h), Bool.not_or]
  rw [visible, List.filter_map, List.map_map, List.filter_congr (p := _ ∘ _) sight]
  cases f.ignores (root.join ⟨n⟩) true with
  | false => rfl
  | true => simp

theorem flatMap_visible (root : Path) (xs : List (String × List (List String))) :
    (byName (xs.map fun x => (x.1, visible f root x.2))).flatMap Prod.snd =
      visible f root ((byName xs).flatMap Prod.snd) := by
  rw [byName_map, List.flatMap_map, visible, List.filter_flatMap, List.map_flatMap]
  rfl

theorem isNotebook_join {root : Path} {n : String} (hn : Path.IsName n) :
    (root.join ⟨n⟩).isNotebook = (⟨n⟩ : Path).isNotebook := by
  simp only [Path.isNotebook, Path.extension?_join hn]

theorem notebooksAt_directory (p : Path) (es : List (String × Entry)) :
    notebooksAt f p (.directory es) = if f.ignores p true then [] else notebooksIn f p es := rfl

theorem notebooksAt_file (p : Path) (c : Content) :
    notebooksAt f p (.file c) = if f.ignores p false || !p.isNotebook then [] else [p] := rfl

theorem notebooksAt_link (p target : Path) :
    notebooksAt f p (.link target) = if f.ignores p false || !p.isNotebook then [] else [p] := rfl

theorem visible_leaf {root : Path} {n : String} (hn : Path.IsName n) :
    visible f root (if (⟨n⟩ : Path).isNotebook then [[n]] else []) =
      if f.ignores (root.join ⟨n⟩) false || !(root.join ⟨n⟩).isNotebook then [] else [root.join ⟨n⟩] := by
  rw [isNotebook_join hn, visible]
  by_cases notebook : (⟨n⟩ : Path).isNotebook = true
  · rw [if_pos notebook, notebook, List.filter_cons, f.hides_singleton]
    generalize f.ignores (root.join ⟨n⟩) false = hidden
    cases hidden <;> simp
  · rw [if_neg notebook]
    simp [notebook]

mutual

theorem notebooksAt_join {root : Path} {n : String} (hn : Path.IsName n) {e : Entry} (he : e.IsNamed) :
    notebooksAt f (root.join ⟨n⟩) e = visible f root (namesAt n e) := by
  cases e with
  | directory es =>
    have he : Entry.AreNamed es := by simpa [Entry.IsNamed] using he
    have ne : ∀ ns ∈ notebookNames es, ns ≠ [] := fun ns h => (isName_of_mem_notebookNames he h).1
    rw [notebooksAt_directory, namesAt_directory, visible_map_cons f ne, notebooksIn,
      notebooksOf_eq_map he, flatMap_visible, notebookNames]
  | file c => rw [notebooksAt_file, namesAt_file, visible_leaf f hn]
  | link p => rw [notebooksAt_link, namesAt_link, visible_leaf f hn]

theorem notebooksOf_eq_map {root : Path} {es : List (String × Entry)} (hes : Entry.AreNamed es) :
    notebooksOf f root es = (namesOf es).map fun x => (x.1, visible f root x.2) := by
  cases es with
  | nil => rfl
  | cons x xs =>
    obtain ⟨n, e⟩ := x
    rw [Entry.AreNamed] at hes
    rw [notebooksOf, namesOf, List.map_cons, notebooksAt_join hes.1 hes.2.1, notebooksOf_eq_map hes.2.2]

end

/-- A search yields what is in sight of the tree's notebooks. -/
theorem notebooksIn_eq_visible {root : Path} {es : List (String × Entry)} (hes : Entry.AreNamed es) :
    notebooksIn f root es = visible f root (notebookNames es) := by
  rw [notebooksIn, notebooksOf_eq_map f hes, flatMap_visible, notebookNames]

end Search

end Footprint
