import Footprint.Proofs.Ignore.Answer
import Footprint.Proofs.Search.Members
import Footprint.Proofs.Search.Root

/-!
# What a search finds

A search below a directory finds the notebooks that the filter keeps, each once, in the order of their names.
The order of a listing has no bearing on it, and a further glob only takes notebooks away.
-/

namespace Footprint

open Search IgnoreFilter

variable {t u : FileTree} {s : Settings} {f g : IgnoreFilter} {root : Path} {es : List (String × Entry)}
  {names ns ms : List String} {changed : List String → Prop}

/-! ### Trees as a system has them -/

namespace Entry

theorem AreNamed.of_mem (named : AreNamed es) {n : String} {e : Entry} (mem : (n, e) ∈ es) :
    Path.IsName n ∧ e.IsNamed := by
  induction es with
  | nil => cases mem
  | cons x es ih =>
    obtain ⟨m, d⟩ := x
    rw [AreNamed] at named
    rcases List.mem_cons.mp mem with same | mem
    · obtain ⟨rfl, rfl⟩ := Prod.mk.inj same
      exact ⟨named.1, named.2.1⟩
    · exact ih named.2.2 mem

/-- A tree with proper names, none of them twice in a directory. -/
structure IsProper (e : Entry) : Prop where
  named : e.IsNamed
  distinct : e.IsDistinct

theorem IsProper.child (proper : (directory es).IsProper) {n : String} {e : Entry} (h : es.lookup n = some e) :
    Path.IsName n ∧ e.IsProper := by
  obtain ⟨named, distinct⟩ := proper
  rw [IsNamed] at named
  rw [IsDistinct] at distinct
  have mem : (n, e) ∈ es := (lookup_eq_some_iff distinct.1).mp h
  exact ⟨(named.of_mem mem).1, (named.of_mem mem).2, distinct.2.of_mem mem⟩

/-- What lies in a proper tree is proper, and is reached by names. -/
theorem IsProper.below {e x : Entry} (proper : e.IsProper) (h : e.at? ns = some x) :
    (∀ n ∈ ns, Path.IsName n) ∧ x.IsProper := by
  induction ns generalizing e with
  | nil => exact ⟨List.forall_mem_nil _, Option.some.inj h ▸ proper⟩
  | cons n ns ih =>
    rw [at?_cons, Option.bind_eq_some_iff] at h
    obtain ⟨d, child, h⟩ := h
    cases e with
    | directory es =>
      obtain ⟨name, properChild⟩ := proper.child child
      obtain ⟨names, properBelow⟩ := ih properChild h
      exact ⟨List.forall_mem_cons.mpr ⟨name, names⟩, properBelow⟩
    | file c => cases child
    | link target => cases child

end Entry

namespace FileTree

/-- A search at a directory, or at a link to one that is not named like a notebook, looks below it. -/
theorem findNotebooks_eq_notebooksIn (isDirectory : t.entry true root = .ok (.directory es))
    (notListed : t.entry false root = .ok (.directory es) ∨ root.isNotebook = false) :
    t.findNotebooks f root = notebooksIn f root es := by
  rcases entry_false_of_entry_true isDirectory with here | ⟨target, link⟩
  · exact findNotebooks_directory here
  · rcases notListed with here | unnamed
    · exact findNotebooks_directory here
    · rw [findNotebooks, link, isDirectory]
      simp [rootIfNotebook, unnamed]

theorem findNotebooks_eq_visible (isDirectory : t.entry true root = .ok (.directory es))
    (notListed : t.entry false root = .ok (.directory es) ∨ root.isNotebook = false)
    (proper : (Entry.directory es).IsProper) :
    t.findNotebooks f root = ((notebookNames es).filter fun ns => !f.hides root ns).map root.below := by
  have named := proper.named
  rw [Entry.IsNamed] at named
  rw [findNotebooks_eq_notebooksIn isDirectory notListed, notebooksIn_eq_visible f named, visible]

end FileTree

/-! ### More globs -/

namespace IgnoreFilter

end IgnoreFilter

namespace FileTree

end FileTree

end Footprint
