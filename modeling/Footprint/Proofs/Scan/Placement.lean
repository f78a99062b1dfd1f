import Footprint.Proofs.Scan.Isolation
import Footprint.Proofs.Search.Placement

/-!
# What a report tells of a directory, wherever it lies

A report calls a notebook by the names that lead to it from the root, and tells what its file holds. So the reports on
one directory at two roots list the same notebooks and failures exactly if the searches at both find the same.
-/

namespace Footprint

open Search IgnoreFilter

variable {t t₁ t₂ : FileTree} {s : Settings} {f f₁ f₂ : IgnoreFilter} {root r₁ r₂ q : Path}
  {es : List (String × Entry)} {ns : List String} {nss : List (List String)} {record record₁ record₂ : Nat → ScanRecord}

namespace Settings

theorem filter_eq_ok_iff : s.filter t = .ok f ↔ IgnoreFilter.ofSettings t s = .ok f := by
  rw [filter]
  cases IgnoreFilter.ofSettings t s <;> simp

theorem reportedPath_below (hns : ∀ n ∈ ns, Path.IsName n) :
    s.reportedPath (s.root.below ns) = ⟨"/".intercalate ns⟩ := by
  rw [reportedPath, Path.relativeTo?_below hns, Option.getD_some]

/-- A report names each path that a search finds, as a notebook or as a failure, and nothing else. -/
theorem mem_reportOf_iff (record : Nat → ScanRecord) {found : List Path} :
    (q ∈ (s.reportOf t found record).notebooks.map (·.path) ∨ q ∈ (s.reportOf t found record).failed.map (·.path)) ↔
      q ∈ found.map s.reportedPath := by
  have notebooks : (s.reportOf t found record).notebooks = found.filterMap fun p => (s.reportOn t p).toOption := rfl
  have failed : (s.reportOf t found record).failed = found.filterMap fun p => failure? (s.reportOn t p) := rfl
  rw [notebooks, failed]
  simp only [List.mem_map, List.mem_filterMap]
  constructor
  · rintro (⟨n, ⟨p, mem, listed⟩, rfl⟩ | ⟨n, ⟨p, mem, listed⟩, rfl⟩)
    · exact ⟨p, mem, (path_of_mem_toOption listed).symm⟩
    · exact ⟨p, mem, (path_of_mem_failure? listed).symm⟩
  · rintro ⟨p, mem, rfl⟩
    cases outcome : s.analyze t p with
    | ok a => exact .inl ⟨_, ⟨p, mem, by rw [reportOn_of_ok outcome]; rfl⟩, rfl⟩
    | error e => exact .inr ⟨_, ⟨p, mem, by rw [reportOn_of_error outcome]; rfl⟩, rfl⟩

theorem reportOn_below (hns : ∀ n ∈ ns, Path.IsName n) :
    s.reportOn t (s.root.below ns) = match t.analyze s.patterns (s.root.below ns) with
      | .ok a => .ok ⟨⟨"/".intercalate ns⟩, a⟩
      | .error e => .error ⟨⟨"/".intercalate ns⟩, (ScanError.notebook (s.root.below ns) e).message⟩ := by
  rw [reportOn, analyze, reportedPath_below hns]
  cases t.analyze s.patterns (s.root.below ns) <;> rfl

end Settings

namespace FileTree.Alike

variable (alike : Alike t₁ t₂ r₁ r₂ es)
include alike

theorem analyze_eq {patterns : AccessPatterns} (hns : ∀ n ∈ ns, Path.IsName n) (ne : ns ≠ []) :
    t₁.analyze patterns (r₁.below ns) = t₂.analyze patterns (r₂.below ns) := by
  simp only [FileTree.analyze, notebook, readText, alike.read_eq hns ne]

/-- About the same names, reports tell the same. -/
theorem reportOf_eq (names : ∀ ns ∈ nss, ns ≠ [] ∧ ∀ n ∈ ns, Path.IsName n) :
    let rep₁ := Settings.reportOf { s with root := r₁ } t₁ (nss.map r₁.below) record₁
    let rep₂ := Settings.reportOf { s with root := r₂ } t₂ (nss.map r₂.below) record₂
    rep₁.notebooks = rep₂.notebooks ∧ rep₁.failed.map (·.path) = rep₂.failed.map (·.path) := by
  have same (ns : List String) (mem : ns ∈ nss) :
      (Settings.reportOn { s with root := r₁ } t₁ (r₁.below ns)).toOption =
          (Settings.reportOn { s with root := r₂ } t₂ (r₂.below ns)).toOption ∧
        (Settings.failure? (Settings.reportOn { s with root := r₁ } t₁ (r₁.below ns))).map (·.path) =
          (Settings.failure? (Settings.reportOn { s with root := r₂ } t₂ (r₂.below ns))).map (·.path) := by
    obtain ⟨ne, hns⟩ := names ns mem
    rw [Settings.reportOn_below (s := { s with root := r₁ }) hns, Settings.reportOn_below (s := { s with root := r₂ }) hns]
    dsimp only
    rw [alike.analyze_eq hns ne]
    cases t₂.analyze s.patterns (r₂.below ns) <;> exact ⟨rfl, rfl⟩
  simp only [Settings.reportOf, Report.ofNotebooks, List.filterMap_map, List.map_filterMap]
  exact ⟨List.filterMap_congr fun ns mem => (same ns mem).1, List.filterMap_congr fun ns mem => (same ns mem).2⟩

/-- The reports on one directory at two roots, for the same settings, list the same notebooks with the same analyses,
and the same failures, exactly if for each notebook that is not in a directory of a hidden name below the root and that
the rules of the directory keep, both roots or the globs there hide it or neither does. -/
theorem scanDirectory_eq_iff (named : Entry.AreNamed es) (own : s.ignoreFile = none) (undotted₁ : r₁.isDotted = false)
    (undotted₂ : r₂.isDotted = false) (made : Settings.filter { s with root := r₁ } t₁ = .ok f₁)
    (record₁ record₂ : Nat → ScanRecord) :
    ∃ rep₁ rep₂, Settings.scanDirectory { s with root := r₁ } t₁ record₁ = .ok rep₁ ∧
      Settings.scanDirectory { s with root := r₂ } t₂ record₂ = .ok rep₂ ∧
      ((rep₁.notebooks = rep₂.notebooks ∧ rep₁.failed.map (·.path) = rep₂.failed.map (·.path)) ↔
        ∀ ns ∈ notebookNames es, (∀ h ∈ hiddenNames, h ∉ ns.dropLast) → ¬RulesExclude f₁.rules r₁ ns →
          ((r₁.IsHidden ∨ GlobsExclude f₁.globs r₁ ns) ↔ (r₂.IsHidden ∨ GlobsExclude f₁.globs r₂ ns))) := by
  have made₁ := Settings.filter_eq_ok_iff.mp made
  obtain ⟨f₂, made₂⟩ := exists_ofSettings_own (s := { s with root := r₁ }) own made₁ t₂ r₂
  refine ⟨_, _, Settings.scanDirectory_eq made, Settings.scanDirectory_eq (Settings.filter_eq_ok_iff.mpr made₂), ?_⟩
  rw [← alike.map_relativeTo?_eq_iff_globs named own undotted₁ undotted₂ made₁ made₂,
    map_relativeTo?_eq_iff_hides alike.left alike.right named]
  have names {f : IgnoreFilter} {r : Path} {ns : List String}
      (mem : ns ∈ (notebookNames es).filter fun ns => !f.hides r ns) : ns ≠ [] ∧ ∀ n ∈ ns, Path.IsName n :=
    isName_of_mem_notebookNames named (List.mem_filter.mp mem).1
  have called {f : IgnoreFilter} {r : Path} :
      (((notebookNames es).filter fun ns => !f.hides r ns).map r.below).map (Settings.reportedPath { s with root := r }) =
        ((notebookNames es).filter fun ns => !f.hides r ns).map fun ns => ⟨"/".intercalate ns⟩ := by
    rw [List.map_map]
    exact List.map_congr_left fun ns mem => Settings.reportedPath_below (s := { s with root := r }) (names mem).2
  dsimp only
  rw [findNotebooks_eq_map_below alike.left named, findNotebooks_eq_map_below alike.right named]
  constructor
  · rintro ⟨notebooks, failed⟩
    refine hides_eq_of_mem_map_iff (fun ns => (⟨"/".intercalate ns⟩ : Path))
      (fun ns hns ms hms => eq_of_intercalate_eq named hns hms) fun q => ?_
    rw [← called, ← called, ← Settings.mem_reportOf_iff (t := t₁) record₁, ← Settings.mem_reportOf_iff (t := t₂) record₂,
      notebooks, failed]
  · intro same
    rw [List.filter_congr fun ns mem => by rw [same ns mem]]
    exact alike.reportOf_eq fun ns mem => names mem

end FileTree.Alike

end Footprint
