import Footprint.Analysis
import Footprint.Path

/-!
The report of a scan: the analyses of the notebooks that could be read, why the others could not, and
what all of them have in common. Totals and unions are those of the notebooks listed.
-/

namespace Footprint

structure NotebookReport where
  /-- The path behind the root of the scan. -/
  path : Path
  analysis : Analysis
  deriving DecidableEq, Repr

structure NotebookFailure where
  path : Path
  reason : String
  deriving DecidableEq, Repr

structure Totals where
  notebooks : Nat := 0
  failed : Nat := 0
  cells : CellCounts := {}
  deriving DecidableEq, Repr

/-- When and how fast a scan went. -/
structure ScanRecord where
  milliseconds : Nat
  /-- Notebooks in a second. -/
  rate : Float
  timestamp : String
  version : String
  deriving Repr

structure Report where
  root : Path
  notebooks : List NotebookReport
  imports : TextSet
  filesRead : TextSet
  filesWritten : TextSet
  failed : List NotebookFailure
  totals : Totals
  record : ScanRecord
  deriving Repr

def version : String := "0.1.0"

namespace Report

def union (sets : List TextSet) : TextSet := .ofList (sets.flatMap TextSet.elements)

@[simp] theorem mem_union {sets : List TextSet} {x : String} :
    x ∈ union sets ↔ ∃ s ∈ sets, x ∈ s := by
  simp [union, ← TextSet.mem_def]

def sum (counts : List CellCounts) : CellCounts := counts.foldr (· + ·) {}

def ofNotebooks (root : Path) (notebooks : List NotebookReport) (failed : List NotebookFailure)
    (record : ScanRecord) : Report where
  root := root
  notebooks := notebooks
  imports := union (notebooks.map (·.analysis.imports))
  filesRead := union (notebooks.map (·.analysis.filesRead))
  filesWritten := union (notebooks.map (·.analysis.filesWritten))
  failed := failed
  totals := ⟨notebooks.length + failed.length, failed.length, sum (notebooks.map (·.analysis.counts))⟩
  record := record

end Report

end Footprint
