import Footprint.Decimal
import Footprint.Report

/-!
Analyses and reports as text to read: counts first, then what was found, one finding to a line.
-/

namespace Footprint

namespace Summary

def line (parts : List String) : String := String.join parts ++ "\n"

def count (n : Nat) : String := String.ofList (Decimal.digits n)

/-- A heading with a count, the elements of a set on lines of their own, and an empty line. -/
def listing (title : String) (s : TextSet) : String :=
  line [title, " (", count s.size, "):"] ++ String.join (s.elements.map fun x => line ["  ", x]) ++ "\n"

def listings (imports filesRead filesWritten : TextSet) : String :=
  listing "Imports" imports ++ listing "Files Read" filesRead ++ listing "Files Written" filesWritten

end Summary

open Summary

def Analysis.toSummary (a : Analysis) : String :=
  line ["Notebook Analysis Summary"] ++
  line ["========================="] ++
  line ["Cells: ", count a.cells.length, " (code: ", count a.counts.code, ", markdown: ",
    count a.counts.markdown, ", unparsed: ", count a.counts.unparsed, ")"] ++
  "\n" ++
  (if a.unparsed.isEmpty then ""
    else line ["Unparsed Cells: ", ", ".intercalate (a.unparsed.map count)] ++ "\n") ++
  listings a.imports a.filesRead a.filesWritten

def NotebookReport.toSummary (n : NotebookReport) : String :=
  line ["  ", n.path.text, " (", count n.analysis.imports.size, " imports, ",
    count n.analysis.filesRead.size, " read, ", count n.analysis.filesWritten.size, " written)"]

def NotebookFailure.toSummary (f : NotebookFailure) : String := line ["  ", f.path.text, ": ", f.reason]

def Report.toSummary (r : Report) : String :=
  line ["Notebook Scan Summary"] ++
  line ["====================="] ++
  line ["Root: ", r.root.text] ++
  "\n" ++
  line ["Notebooks: ", count r.totals.notebooks, " (failed: ", count r.totals.failed, ")"] ++
  line ["Cells: code ", count r.totals.cells.code, ", markdown ", count r.totals.cells.markdown,
    ", unparsed ", count r.totals.cells.unparsed] ++
  "\n" ++
  String.join (r.notebooks.map NotebookReport.toSummary) ++
  "\n" ++
  (if r.failed.isEmpty then ""
    else line ["Failed Notebooks:"] ++ String.join (r.failed.map NotebookFailure.toSummary) ++ "\n") ++
  listings r.imports r.filesRead r.filesWritten ++
  line ["Scan Duration: ", count r.record.milliseconds, "ms (",
    Decimal.fixed 2 (.ofFloat r.record.rate), " notebooks/sec)"] ++
  line ["Timestamp: ", r.record.timestamp] ++
  line ["Tool Version: ", r.record.version]

end Footprint
