import Footprint.Proofs.Glob.Directory
import Footprint.Proofs.Search.Names
import Footprint.Proofs.Text.Characters

/-!
# The root of a search

How far a search depends on where its directory lies. A filter looks at paths from the root on, so
names of the root have a say in what it hides below: a root that lies in a directory of a hidden name,
or has such a name itself, hides all that is below it, and globs may match because of the root.
-/

namespace Footprint

open IgnoreFilter

/-- A path that goes through a directory nobody looks into, or ends there. -/
def Path.IsHidden (p : Path) : Prop := ∃ h ∈ hiddenNames, h.toList ∈ p.parts

instance (p : Path) : Decidable p.IsHidden := inferInstanceAs (Decidable (∃ h ∈ hiddenNames, _))

namespace IgnoreFilter

variable {f : IgnoreFilter} {root : Path} {ns : List String}

/-- The globs or the rules leave out an entry below a root, or a directory on the way to it. -/
def Excludes (f : IgnoreFilter) (root : Path) (ns : List String) : Prop :=
  ∃ k < ns.length,
    (∃ g ∈ f.globs, g.isMatch (root.below (ns.take (k + 1))).text = true) ∨
    ∃ rules ∈ f.rules, rules.ignores? (root.below (ns.take (k + 1))) (k + 1 < ns.length) = some true

theorem not_excludes_of_empty : ¬(⟨[], none⟩ : IgnoreFilter).Excludes root ns := by
  rintro ⟨k, -, ⟨g, hg, -⟩ | ⟨rules, hr, -⟩⟩
  · cases hg
  · cases hr

/-- Hidden names are plain texts, so that their globs ask for parts of a path. -/
theorem plain_of_mem_hiddenNames {h : String} (mem : h ∈ hiddenNames) :
    (∀ c ∈ h.toList, Glob.IsNarrow c) ∧ '/' ∉ h.toList ∧ h.toList ≠ [] := by
  revert h
  decide

theorem any_hiddenGlobs_iff {s : String} :
    hiddenGlobs.any (·.isMatch s) = true ↔
      ∃ h ∈ hiddenNames, h.toList ∈ (Text.split '/' s.toList).dropLast := by
  rw [hiddenGlobs, List.any_map, List.any_eq_true]
  constructor
  · rintro ⟨h, mem, holds⟩
    obtain ⟨narrow, noSlash, -⟩ := plain_of_mem_hiddenNames mem
    exact ⟨h, mem, (isMatch_inDirectory_iff narrow noSlash).mp holds⟩
  · rintro ⟨h, mem, part⟩
    obtain ⟨narrow, noSlash, -⟩ := plain_of_mem_hiddenNames mem
    exact ⟨h, mem, (isMatch_inDirectory_iff narrow noSlash).mpr part⟩

/-- What a filter leaves out: what a directory of a hidden name holds, what globs match, and what the
rules ignore. -/
theorem ignores_iff {p : Path} {d : Bool} :
    f.ignores p d = true ↔
      (∃ h ∈ hiddenNames, h.toList ∈ p.parts.dropLast) ∨
      (∃ g ∈ f.globs, g.isMatch p.text = true) ∨
      ∃ rules ∈ f.rules, rules.ignores? p d = some true := by
  rw [ignores, ignores?, List.any_append, Path.parts, ← any_hiddenGlobs_iff, ← List.any_eq_true]
  generalize hiddenGlobs.any (·.isMatch p.text) = hidden
  generalize f.globs.any (·.isMatch p.text) = matched
  cases hidden <;> cases matched <;> simp only [Bool.or_true, Bool.true_or, Bool.or_self, if_true,
    Option.getD_some, true_or, or_true, Bool.false_eq_true, if_false, false_or]
  cases f.rules with
  | none => simp
  | some rules => cases h : rules.ignores? p d <;> simp [h]

/-- An entry is hidden if one of the entries on the way to it is left out, or it is itself. -/
theorem hides_iff_exists :
    f.hides root ns = true ↔
      ∃ k < ns.length, f.ignores (root.below (ns.take (k + 1))) (k + 1 < ns.length) = true := by
  induction ns generalizing root with
  | nil => simp
  | cons n ns ih =>
    cases ns with
    | nil => simp
    | cons m ms =>
      rw [hides_cons f (List.cons_ne_nil m ms), Bool.or_eq_true, ih]
      constructor
      · rintro (first | ⟨k, hk, later⟩)
        · exact ⟨0, by simp, by simpa using first⟩
        · exact ⟨k + 1, by simpa using hk, by simpa using later⟩
      · rintro ⟨k, hk, out⟩
        cases k with
        | zero => exact .inl (by simpa using out)
        | succ k => exact .inr ⟨k, by simpa using hk, by simpa using out⟩

theorem parts_dropLast_below (hns : ∀ n ∈ ns, Path.IsName n) {k : Nat} (hk : k < ns.length) :
    (root.below (ns.take (k + 1))).parts.dropLast = root.parentParts ++ (ns.take k).map String.toList := by
  have ne : ns.take (k + 1) ≠ [] := by
    rw [Ne, List.take_eq_nil_iff]
    rintro (h | rfl)
    · cases h
    · exact absurd hk (Nat.not_lt_zero k)
  have names : ∀ n ∈ ns.take (k + 1), Path.IsName n := fun n hn => hns n (List.mem_of_mem_take hn)
  have shorter : (ns.take (k + 1)).dropLast = ns.take k := by
    rw [List.dropLast_eq_take, List.length_take, List.take_take]
    congr 1
    omega
  rw [Path.parts_below names ne, List.dropLast_append_of_ne_nil (by simpa using ne), ← List.map_dropLast,
    shorter]

theorem mem_parentParts_iff {part : List Char} (ne : part ≠ []) :
    part ∈ root.parentParts ↔ part ∈ root.parts := by
  unfold Path.parentParts
  split
  · rename_i last
    obtain ⟨ps, hps⟩ := List.getLast?_eq_some_iff.mp last
    simp [hps, ne]
  · rfl

/-- What hides an entry below a root: a hidden name in the root, a hidden name between the root and the
entry, or a glob or rule. -/
theorem hides_iff (hns : ∀ n ∈ ns, Path.IsName n) (ne : ns ≠ []) :
    f.hides root ns = true ↔
      (∃ h ∈ hiddenNames, h ∈ ns.dropLast) ∨ root.IsHidden ∨ f.Excludes root ns := by
  rw [hides_iff_exists]
  constructor
  · rintro ⟨k, hk, out⟩
    rcases ignores_iff.mp out with ⟨h, mem, part⟩ | excluded
    · rw [parts_dropLast_below hns hk, List.mem_append,
        mem_parentParts_iff (plain_of_mem_hiddenNames mem).2.2] at part
      rcases part with inRoot | below
      · exact .inr (.inl ⟨h, mem, inRoot⟩)
      · obtain ⟨n, hn, same⟩ := List.mem_map.mp below
        obtain rfl := String.toList_inj.mp same
        refine .inl ⟨n, mem, ?_⟩
        rw [List.dropLast_eq_take]
        exact List.take_subset_take_left ns (by omega) hn
    · exact .inr (.inr ⟨k, hk, excluded⟩)
  · have last : ns.length - 1 < ns.length := by
      have := List.length_pos_iff.mpr ne
      omega
    rintro (⟨h, mem, between⟩ | ⟨h, mem, inRoot⟩ | ⟨k, hk, excluded⟩)
    · refine ⟨ns.length - 1, last, ignores_iff.mpr (.inl ⟨h, mem, ?_⟩)⟩
      rw [parts_dropLast_below hns last, ← List.dropLast_eq_take]
      exact List.mem_append_right _ (List.mem_map_of_mem between)
    · refine ⟨ns.length - 1, last, ignores_iff.mpr (.inl ⟨h, mem, ?_⟩)⟩
      rw [parts_dropLast_below hns last]
      exact List.mem_append_left _ ((mem_parentParts_iff (plain_of_mem_hiddenNames mem).2.2).mpr inRoot)
    · exact ⟨k, hk, ignores_iff.mpr (.inr excluded)⟩

end IgnoreFilter

namespace FileTree

open Search

variable {t t₁ t₂ : FileTree} {f f₁ f₂ : IgnoreFilter} {root r₁ r₂ : Path} {es : List (String × Entry)}

theorem findNotebooks_directory (at_root : t.entry false root = .ok (.directory es)) :
    t.findNotebooks f root = notebooksIn f root es := by
  rw [findNotebooks, at_root]

theorem findNotebooks_eq_map_below (at_root : t.entry false root = .ok (.directory es)) (named : Entry.AreNamed es) :
    t.findNotebooks f root = ((notebookNames es).filter fun ns => !f.hides root ns).map root.below := by
  rw [findNotebooks_directory at_root, notebooksIn_eq_visible f named, visible]

theorem map_relativeTo?_findNotebooks (at_root : t.entry false root = .ok (.directory es))
    (named : Entry.AreNamed es) :
    (t.findNotebooks f root).map (·.relativeTo? root) =
      ((notebookNames es).filter fun ns => !f.hides root ns).map fun ns => some ⟨"/".intercalate ns⟩ := by
  rw [findNotebooks_eq_map_below at_root named, List.map_map]
  refine List.map_congr_left fun ns found => ?_
  have names := isName_of_mem_notebookNames named (List.mem_filter.mp found).1
  exact Path.relativeTo?_below names.2

theorem eq_of_intercalate_eq (named : Entry.AreNamed es) {ns ms : List String} (hns : ns ∈ notebookNames es)
    (hms : ms ∈ notebookNames es) (h : (⟨"/".intercalate ns⟩ : Path) = ⟨"/".intercalate ms⟩) : ns = ms := by
  have names := isName_of_mem_notebookNames named hns
  have others := isName_of_mem_notebookNames named hms
  exact Path.intercalate_injective names.2 others.2 names.1 others.1 h

/-- What two lists call the names that a filter shows tells which names these are. -/
theorem hides_eq_of_mem_map_iff {β : Type} (called : List String → β) {nss : List (List String)}
    (apart : ∀ ns ∈ nss, ∀ ms ∈ nss, called ns = called ms → ns = ms)
    (same : ∀ x, x ∈ (nss.filter fun ns => !f₁.hides r₁ ns).map called ↔
      x ∈ (nss.filter fun ns => !f₂.hides r₂ ns).map called) : ∀ ns ∈ nss, f₁.hides r₁ ns = f₂.hides r₂ ns := by
  intro ns mem
  have shown {f : IgnoreFilter} {r : Path} :
      called ns ∈ (nss.filter fun ns => !f.hides r ns).map called ↔ f.hides r ns = false := by
    constructor
    · intro h
      obtain ⟨ms, hms, same⟩ := List.mem_map.mp h
      rw [List.mem_filter, Bool.not_eq_true'] at hms
      exact apart ms hms.1 ns mem same ▸ hms.2
    · intro h
      exact List.mem_map_of_mem (List.mem_filter.mpr ⟨mem, by simp [h]⟩)
  have alike : f₁.hides r₁ ns = false ↔ f₂.hides r₂ ns = false := by
    rw [← shown, ← shown, same]
  rw [← Bool.not_inj_iff, Bool.eq_iff_iff, Bool.not_eq_true', Bool.not_eq_true', alike]

/-- Two searches of one directory, with any filters and wherever it lies, agree exactly on what both
filters hide or both show. -/
theorem map_relativeTo?_eq_iff_hides (at₁ : t₁.entry false r₁ = .ok (.directory es))
    (at₂ : t₂.entry false r₂ = .ok (.directory es)) (named : Entry.AreNamed es) :
    (t₁.findNotebooks f₁ r₁).map (·.relativeTo? r₁) = (t₂.findNotebooks f₂ r₂).map (·.relativeTo? r₂) ↔
      ∀ ns ∈ notebookNames es, f₁.hides r₁ ns = f₂.hides r₂ ns := by
  rw [map_relativeTo?_findNotebooks at₁ named, map_relativeTo?_findNotebooks at₂ named]
  constructor
  · intro same
    refine hides_eq_of_mem_map_iff _ (fun ns hns ms hms equal => ?_) fun x => by rw [same]
    exact eq_of_intercalate_eq named hns hms (Option.some.inj equal)
  · intro same
    rw [List.filter_congr fun ns mem => by rw [same ns mem]]

/-- Two searches of one directory agree exactly if, for each notebook that is not in a directory of a
hidden name below the root, both roots or filters hide it or neither does. Beside globs and rules a root
counts by its own hidden names only. -/
theorem map_relativeTo?_eq_iff (at₁ : t₁.entry false r₁ = .ok (.directory es))
    (at₂ : t₂.entry false r₂ = .ok (.directory es)) (named : Entry.AreNamed es) :
    (t₁.findNotebooks f₁ r₁).map (·.relativeTo? r₁) = (t₂.findNotebooks f₂ r₂).map (·.relativeTo? r₂) ↔
      ∀ ns ∈ notebookNames es, (∀ h ∈ hiddenNames, h ∉ ns.dropLast) →
        ((r₁.IsHidden ∨ f₁.Excludes r₁ ns) ↔ (r₂.IsHidden ∨ f₂.Excludes r₂ ns)) := by
  rw [map_relativeTo?_eq_iff_hides at₁ at₂ named]
  refine forall_congr' fun ns => forall_congr' fun mem => ?_
  have names := isName_of_mem_notebookNames named mem
  rw [Bool.eq_iff_iff, hides_iff names.2 names.1, hides_iff names.2 names.1]
  by_cases between : ∃ h ∈ hiddenNames, h ∈ ns.dropLast
  · obtain ⟨h, hh, hn⟩ := between
    exact iff_of_true (iff_of_true (.inl ⟨h, hh, hn⟩) (.inl ⟨h, hh, hn⟩)) fun none => absurd hn (none h hh)
  · have none : ∀ h ∈ hiddenNames, h ∉ ns.dropLast := fun h hh hn => between ⟨h, hh, hn⟩
    simp only [between, false_or]
    exact ⟨fun same _ => same, fun same => same none⟩

/-- A notebook is found below a root and lost below another one, whose only part is a hidden name. -/
theorem map_relativeTo?_ne_at_target :
    let es : List (String × Entry) := [("a.ipynb", .file (.text "{}"))]
    let t₁ : FileTree := ⟨[("x", .directory es)]⟩
    let t₂ : FileTree := ⟨[("target", .directory es)]⟩
    (t₁.findNotebooks {} ⟨"x"⟩).map (·.relativeTo? ⟨"x"⟩) ≠
      (t₂.findNotebooks {} ⟨"target"⟩).map (·.relativeTo? ⟨"target"⟩) := by
  intro es t₁ t₂
  have at₁ : t₁.entry false ⟨"x"⟩ = .ok (.directory es) := rfl
  have at₂ : t₂.entry false ⟨"target"⟩ = .ok (.directory es) := rfl
  have named : Entry.AreNamed es := ⟨by decide, trivial, trivial⟩
  rw [Ne, map_relativeTo?_eq_iff at₁ at₂ named]
  intro same
  have here : ["a.ipynb"] ∈ notebookNames es := by decide
  rcases (same ["a.ipynb"] here (by simp)).mpr (.inl (by decide)) with hidden | excluded
  · exact absurd hidden (by decide)
  · exact not_excludes_of_empty excluded

/-- Below a root in or at a directory of a hidden name nothing is found. -/
theorem findNotebooks_of_isHidden (at_root : t.entry false root = .ok (.directory es))
    (named : Entry.AreNamed es) (hidden : root.IsHidden) : t.findNotebooks f root = [] := by
  rw [findNotebooks_eq_map_below at_root named, List.map_eq_nil_iff, List.filter_eq_nil_iff]
  intro ns mem
  have names := isName_of_mem_notebookNames named mem
  rw [(hides_iff names.2 names.1).mpr (.inr (.inl hidden))]
  exact Bool.noConfusion

/-- Without globs and rules, searches at two roots with no hidden names agree. -/
theorem map_relativeTo?_eq_of_not_isHidden (at₁ : t₁.entry false r₁ = .ok (.directory es))
    (at₂ : t₂.entry false r₂ = .ok (.directory es)) (named : Entry.AreNamed es)
    (visible₁ : ¬r₁.IsHidden) (visible₂ : ¬r₂.IsHidden) :
    (t₁.findNotebooks {} r₁).map (·.relativeTo? r₁) = (t₂.findNotebooks {} r₂).map (·.relativeTo? r₂) := by
  refine (map_relativeTo?_eq_iff at₁ at₂ named).mpr fun ns _ _ => iff_of_false ?_ ?_
  · exact not_or.mpr ⟨visible₁, not_excludes_of_empty⟩
  · exact not_or.mpr ⟨visible₂, not_excludes_of_empty⟩

end FileTree

end Footprint
