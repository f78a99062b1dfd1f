import Footprint.Proofs.FileTree.Below
import Footprint.Proofs.Search.Exactness

/-!
# Where a directory lies

One directory at two roots, searched with the same settings. The rules of its own ignore file see nothing but the
names below it and leave out the same at both roots. So the roots count by their own hidden names, and by what globs
match because of them.
-/

namespace Footprint

open Search IgnoreFilter

variable {t t₁ t₂ : FileTree} {s : Settings} {f f₁ f₂ : IgnoreFilter} {root r₁ r₂ : Path}
  {es : List (String × Entry)} {ns : List String}

namespace IgnoreFilter

/-- Globs match an entry below a root, or a directory on the way to it. -/
def GlobsExclude (globs : List Glob) (root : Path) (ns : List String) : Prop :=
  ∃ k < ns.length, ∃ g ∈ globs, g.isMatch (root.below (ns.take (k + 1))).text = true

/-- Rules leave out an entry below a root, or a directory on the way to it. -/
def RulesExclude (rules : Option IgnoreRules) (root : Path) (ns : List String) : Prop :=
  ∃ k < ns.length, ∃ rs ∈ rules, rs.ignores? (root.below (ns.take (k + 1))) (k + 1 < ns.length) = some true

theorem excludes_iff : f.Excludes root ns ↔ GlobsExclude f.globs root ns ∨ RulesExclude f.rules root ns := by
  simp only [Excludes, GlobsExclude, RulesExclude, and_or_left, exists_or]

def ownRules (t : FileTree) (root : Path) : Option (List IgnoreRule) :=
  if t.exists? (root.join ⟨".gitignore"⟩) then some (IgnoreFile.read t (root.join ⟨".gitignore"⟩)).1 else none

theorem readRules_own (own : s.ignoreFile = none) :
    readRules t s = .ok ((ownRules t s.root).map (.below s.root)) := by
  rw [readRules, own, ownRules]
  dsimp only
  split <;> rfl

theorem ofSettings_own (own : s.ignoreFile = none) :
    IgnoreFilter.ofSettings t s = .ok f ↔
      readGlobs s.ignorePatterns = .ok f.globs ∧ f.rules = (ownRules t s.root).map (.below s.root) := by
  constructor
  · intro made
    obtain ⟨rules, globs⟩ := ofSettings_eq_ok made
    exact ⟨globs, Except.ok.inj (rules.symm.trans (readRules_own own))⟩
  · rintro ⟨globs, rules⟩
    rw [IgnoreFilter.ofSettings, readRules_own own, globs, ← rules]
    rfl

theorem exists_ofSettings_own (own : s.ignoreFile = none) (made : IgnoreFilter.ofSettings t₁ s = .ok f₁) (t₂ : FileTree)
    (r₂ : Path) : ∃ f₂ : IgnoreFilter, IgnoreFilter.ofSettings t₂ { s with root := r₂ } = .ok f₂ := by
  obtain ⟨globs, -⟩ := (ofSettings_own own).mp made
  exact ⟨⟨f₁.globs, (ownRules t₂ r₂).map (.below r₂)⟩, (ofSettings_own (s := { s with root := r₂ }) own).mpr ⟨globs, rfl⟩⟩

/-- The same rules for two roots leave out the same names below them. -/
theorem rulesExclude_congr {rules : Option (List IgnoreRule)} (undotted₁ : r₁.isDotted = false)
    (undotted₂ : r₂.isDotted = false) (hns : ∀ n ∈ ns, Path.IsName n) :
    RulesExclude (rules.map (.below r₁)) r₁ ns ↔ RulesExclude (rules.map (.below r₂)) r₂ ns := by
  refine exists_congr fun k => and_congr_right fun hk => ?_
  have ne : ns.take (k + 1) ≠ [] := List.length_pos_iff.mp (by rw [List.length_take]; omega)
  have names : ∀ n ∈ ns.take (k + 1), Path.IsName n := fun n mem => hns n (List.mem_of_mem_take mem)
  cases rules with
  | none => simp
  | some rules => simp [IgnoreRules.ignores?_below_eq undotted₁ undotted₂ names ne]

end IgnoreFilter

namespace FileTree

/-- A directory that lies at a root in each of two trees. Names that are followed from there lead to the same. -/
structure Alike (t₁ t₂ : FileTree) (r₁ r₂ : Path) (es : List (String × Entry)) : Prop where
  left : t₁.entry false r₁ = .ok (.directory es)
  right : t₂.entry false r₂ = .ok (.directory es)
  below : ∀ ns, ns ≠ [] → (∀ n ∈ ns, Path.IsName n) → t₁.entry true (r₁.below ns) = t₂.entry true (r₂.below ns)

namespace Alike

/-- A directory without links is the same wherever it lies. -/
theorem of_isLinkless (left : t₁.entry false r₁ = .ok (.directory es)) (right : t₂.entry false r₂ = .ok (.directory es))
    (linkless : (Entry.directory es).IsLinkless) : Alike t₁ t₂ r₁ r₂ es where
  left := left
  right := right
  below _ ne names := (entry_below left linkless names ne).trans (entry_below right linkless names ne).symm

variable (alike : Alike t₁ t₂ r₁ r₂ es)
include alike

theorem read_eq (hns : ∀ n ∈ ns, Path.IsName n) (ne : ns ≠ []) : t₁.read (r₁.below ns) = t₂.read (r₂.below ns) := by
  rw [read, read, alike.below ns ne hns]

theorem ownRules_eq : ownRules t₁ r₁ = ownRules t₂ r₂ := by
  have name : ∀ n ∈ [".gitignore"], Path.IsName n := by decide +kernel
  have there := alike.below [".gitignore"] (List.cons_ne_nil _ _) name
  have held := alike.read_eq name (List.cons_ne_nil _ _)
  rw [Path.below_cons, Path.below_nil, Path.below_cons, Path.below_nil] at there held
  unfold ownRules exists? IgnoreFile.read
  rw [there, held]
  rcases t₂.read (r₂.join ⟨".gitignore"⟩) with e | c
  · cases e <;> rfl
  · rfl

/-- What is hidden below both roots: notebooks below hidden names, those that the rules leave out, and such as the
root or a glob takes away at both. -/
theorem hides_eq_iff (own : s.ignoreFile = none) (undotted₁ : r₁.isDotted = false) (undotted₂ : r₂.isDotted = false)
    (made₁ : IgnoreFilter.ofSettings t₁ { s with root := r₁ } = .ok f₁)
    (made₂ : IgnoreFilter.ofSettings t₂ { s with root := r₂ } = .ok f₂) (hns : ∀ n ∈ ns, Path.IsName n) (ne : ns ≠ []) :
    f₁.hides r₁ ns = f₂.hides r₂ ns ↔
      ((∀ h ∈ hiddenNames, h ∉ ns.dropLast) → ¬RulesExclude f₁.rules r₁ ns →
        ((r₁.IsHidden ∨ GlobsExclude f₁.globs r₁ ns) ↔ (r₂.IsHidden ∨ GlobsExclude f₁.globs r₂ ns))) := by
  obtain ⟨globs₁, rules₁⟩ := (ofSettings_own (s := { s with root := r₁ }) own).mp made₁
  obtain ⟨globs₂, rules₂⟩ := (ofSettings_own (s := { s with root := r₂ }) own).mp made₂
  have globs : f₁.globs = f₂.globs := Except.ok.inj (globs₁.symm.trans globs₂)
  have rules : RulesExclude f₁.rules r₁ ns ↔ RulesExclude f₂.rules r₂ ns := by
    rw [rules₁, rules₂, alike.ownRules_eq]
    exact rulesExclude_congr undotted₁ undotted₂ hns
  have between : (∀ h ∈ hiddenNames, h ∉ ns.dropLast) ↔ ¬∃ h ∈ hiddenNames, h ∈ ns.dropLast := by simp
  rw [Bool.eq_iff_iff, hides_iff hns ne, hides_iff hns ne, excludes_iff, excludes_iff, ← rules, ← globs, between]
  by_cases hidden : ∃ h ∈ hiddenNames, h ∈ ns.dropLast
  · simp only [hidden, true_or, not_true, false_imp_iff]
  by_cases ruled : RulesExclude f₁.rules r₁ ns
  · simp only [ruled, or_true, not_true, false_imp_iff, imp_true_iff]
  · simp only [hidden, ruled, false_or, or_false, not_false_iff, true_imp_iff]

/-- The same settings find the same below two roots exactly if, for each notebook that is not in a directory of a
hidden name below the root and that the rules of the directory keep, both roots or the globs there hide it or neither
does. -/
theorem map_relativeTo?_eq_iff_globs (named : Entry.AreNamed es) (own : s.ignoreFile = none)
    (undotted₁ : r₁.isDotted = false) (undotted₂ : r₂.isDotted = false)
    (made₁ : IgnoreFilter.ofSettings t₁ { s with root := r₁ } = .ok f₁)
    (made₂ : IgnoreFilter.ofSettings t₂ { s with root := r₂ } = .ok f₂) :
    (t₁.findNotebooks f₁ r₁).map (·.relativeTo? r₁) = (t₂.findNotebooks f₂ r₂).map (·.relativeTo? r₂) ↔
      ∀ ns ∈ notebookNames es, (∀ h ∈ hiddenNames, h ∉ ns.dropLast) → ¬RulesExclude f₁.rules r₁ ns →
        ((r₁.IsHidden ∨ GlobsExclude f₁.globs r₁ ns) ↔ (r₂.IsHidden ∨ GlobsExclude f₁.globs r₂ ns)) := by
  rw [map_relativeTo?_eq_iff_hides alike.left alike.right named]
  refine forall₂_congr fun ns mem => ?_
  have names := isName_of_mem_notebookNames named mem
  exact alike.hides_eq_iff own undotted₁ undotted₂ made₁ made₂ names.2 names.1

/-- Without globs, searches at two roots with no hidden names agree, whatever the rules of the directory say. -/
theorem map_relativeTo?_eq_of_no_globs (named : Entry.AreNamed es) (own : s.ignoreFile = none)
    (noGlobs : s.ignorePatterns = []) (undotted₁ : r₁.isDotted = false) (undotted₂ : r₂.isDotted = false)
    (visible₁ : ¬r₁.IsHidden) (visible₂ : ¬r₂.IsHidden)
    (made₁ : IgnoreFilter.ofSettings t₁ { s with root := r₁ } = .ok f₁)
    (made₂ : IgnoreFilter.ofSettings t₂ { s with root := r₂ } = .ok f₂) :
    (t₁.findNotebooks f₁ r₁).map (·.relativeTo? r₁) = (t₂.findNotebooks f₂ r₂).map (·.relativeTo? r₂) := by
  have none : f₁.globs = [] := by
    obtain ⟨globs, -⟩ := (ofSettings_own (s := { s with root := r₁ }) own).mp made₁
    rw [noGlobs] at globs
    exact (Except.ok.inj globs).symm
  refine (alike.map_relativeTo?_eq_iff_globs named own undotted₁ undotted₂ made₁ made₂).mpr fun ns _ _ _ => ?_
  simp [GlobsExclude, none, visible₁, visible₂]

end Alike

end FileTree

end Footprint
