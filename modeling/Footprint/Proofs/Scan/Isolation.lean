import Footprint.Proofs.Search.Exactness
import Footprint.Scan
import Mathlib.Algebra.GroupWithZero.Nat
import Mathlib.Data.List.Forall2

/-!
# What the report of a directory says

Each notebook that a scan finds is either loaded or failed, in the order in which it was found, and unions and
totals are those of the notebooks listed. A notebook is analyzed by what its file holds and by nothing else in the
tree, so what other files hold does not change its entry.
-/

namespace Footprint

open Search

variable {t u : FileTree} {s : Settings} {f : IgnoreFilter} {root p : Path} {names ns : List String}
  {changed : List String → Prop} {record record' : Nat → ScanRecord}

/-! ### Names of reports -/

namespace Path

end Path

namespace FileTree

/-- A notebook is analyzed by what the file that its path leads to holds. -/
theorem DifferAt.analyze_eq (differ : DifferAt changed t u)
    (other : ∀ names, t.names? true p = some names → ¬changed names) : s.analyze t p = s.analyze u p := by
  simp only [Settings.analyze, FileTree.analyze, notebook, readText, differ.read_eq other]

end FileTree

namespace Report

end Report

namespace Settings

def reportOf (s : Settings) (t : FileTree) (found : List Path) (record : Nat → ScanRecord) : Report :=
  .ofNotebooks s.root (found.filterMap fun p => (s.reportOn t p).toOption)
    (found.filterMap fun p => failure? (s.reportOn t p)) (record found.length)

theorem scanDirectory_eq (made : s.filter t = .ok f) :
    s.scanDirectory t record = .ok (s.reportOf t (t.findNotebooks f s.root) record) := by
  rw [scanDirectory, made]
  simp only [reportOf, List.filterMap_map, List.length_map]
  rfl

theorem reportOn_of_ok {a : Analysis} (loaded : s.analyze t p = .ok a) :
    s.reportOn t p = .ok ⟨s.reportedPath p, a⟩ := by
  rw [reportOn, loaded]

theorem reportOn_of_error {e : ScanError} (failed : s.analyze t p = .error e) :
    s.reportOn t p = .error ⟨s.reportedPath p, e.message⟩ := by
  rw [reportOn, failed]

theorem path_of_mem_toOption {n : NotebookReport} (h : n ∈ (s.reportOn t p).toOption) :
    n.path = s.reportedPath p := by
  rw [reportOn] at h
  cases outcome : s.analyze t p <;> rw [outcome] at h <;> cases h
  rfl

theorem path_of_mem_failure? {n : NotebookFailure} (h : n ∈ failure? (s.reportOn t p)) :
    n.path = s.reportedPath p := by
  rw [reportOn] at h
  cases outcome : s.analyze t p <;> rw [outcome] at h <;> cases h
  rfl

end Settings

end Footprint
