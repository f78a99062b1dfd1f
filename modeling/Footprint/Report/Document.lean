import Footprint.Document
import Footprint.Report

/-!
Analyses and reports as documents, and back. The positions of refused cells are not written, and
failures only if there are any.
-/

namespace Footprint

open Document

namespace Cell

def toDocument (c : Cell) : Document :=
  .record [("index", .natural c.position), ("type", .text c.kind.name), ("source", .text c.source)]

def ofDocument? (d : Document) : Option Cell := do
  let position ← (← d.field? "index").natural?
  let kind ← (← d.field? "type").text?
  let source ← (← d.field? "source").text?
  return ⟨position, .ofName kind, source⟩

end Cell

namespace TextSet

def toDocument (s : TextSet) : Document := .texts s.elements

def ofDocument? (d : Document) : Option TextSet := ofList <$> d.texts?

end TextSet

namespace Analysis

def fields (a : Analysis) : List (String × Document) :=
  [("cells", .list (a.cells.map Cell.toDocument)),
   ("imports", a.imports.toDocument),
   ("files_read", a.filesRead.toDocument),
   ("files_written", a.filesWritten.toDocument)]

def toDocument (a : Analysis) : Document := .record a.fields

def ofDocument? (d : Document) : Option Analysis := do
  let cells ← (← (← d.field? "cells").items?).mapM Cell.ofDocument?
  let imports ← TextSet.ofDocument? (← d.field? "imports")
  let filesRead ← TextSet.ofDocument? (← d.field? "files_read")
  let filesWritten ← TextSet.ofDocument? (← d.field? "files_written")
  return ⟨cells, imports, filesRead, filesWritten, []⟩

end Analysis

/-- Findings of one source, in the order in which they were found. -/
def Findings.toDocument (f : Findings) : Document :=
  .record [("imports", .texts f.imports), ("files_read", .texts f.filesRead),
    ("files_written", .texts f.filesWritten)]

def Findings.ofDocument? (d : Document) : Option Findings := do
  return ⟨← (← d.field? "imports").texts?, ← (← d.field? "files_read").texts?,
    ← (← d.field? "files_written").texts?⟩

namespace CellCounts

def fields (c : CellCounts) : List (String × Document) :=
  [("code_cells", .natural c.code), ("markdown_cells", .natural c.markdown),
   ("unparsed_cells", .natural c.unparsed)]

def toDocument (c : CellCounts) : Document := .record c.fields

def ofDocument? (d : Document) : Option CellCounts := do
  return ⟨← (← d.field? "code_cells").natural?, ← (← d.field? "markdown_cells").natural?,
    ← (← d.field? "unparsed_cells").natural?⟩

end CellCounts

namespace NotebookReport

def toDocument (n : NotebookReport) : Document :=
  .record (("path", .text n.path.text) :: n.analysis.fields)

def ofDocument? (d : Document) : Option NotebookReport := do
  return ⟨⟨← (← d.field? "path").text?⟩, ← Analysis.ofDocument? d⟩

end NotebookReport

namespace NotebookFailure

def toDocument (f : NotebookFailure) : Document :=
  .record [("path", .text f.path.text), ("error", .text f.reason)]

def ofDocument? (d : Document) : Option NotebookFailure := do
  return ⟨⟨← (← d.field? "path").text?⟩, ← (← d.field? "error").text?⟩

end NotebookFailure

namespace Totals

def toDocument (t : Totals) : Document :=
  .record (("total_notebooks", .natural t.notebooks) :: ("failed_notebooks", .natural t.failed) ::
    t.cells.fields)

def ofDocument? (d : Document) : Option Totals := do
  return ⟨← (← d.field? "total_notebooks").natural?, ← (← d.field? "failed_notebooks").natural?,
    ← CellCounts.ofDocument? d⟩

end Totals

namespace ScanRecord

def toDocument (r : ScanRecord) : Document :=
  .record [("scan_duration_ms", .natural r.milliseconds), ("notebooks_per_second", .real r.rate),
    ("timestamp", .text r.timestamp), ("tool_version", .text r.version)]

def ofDocument? (d : Document) : Option ScanRecord := do
  return ⟨← (← d.field? "scan_duration_ms").natural?, ← (← d.field? "notebooks_per_second").real?,
    ← (← d.field? "timestamp").text?, ← (← d.field? "tool_version").text?⟩

end ScanRecord

namespace Report

def toDocument (r : Report) : Document :=
  .record <|
    [("root", .text r.root.text),
     ("notebooks", .list (r.notebooks.map NotebookReport.toDocument)),
     ("imports", r.imports.toDocument),
     ("files_read", r.filesRead.toDocument),
     ("files_written", r.filesWritten.toDocument)] ++
    (if r.failed.isEmpty then [] else [("failed", .list (r.failed.map NotebookFailure.toDocument))]) ++
    [("stats", r.totals.toDocument), ("metadata", r.record.toDocument)]

def ofDocument? (d : Document) : Option Report := do
  let root ← (← d.field? "root").text?
  let notebooks ← (← (← d.field? "notebooks").items?).mapM NotebookReport.ofDocument?
  let imports ← TextSet.ofDocument? (← d.field? "imports")
  let filesRead ← TextSet.ofDocument? (← d.field? "files_read")
  let filesWritten ← TextSet.ofDocument? (← d.field? "files_written")
  let failed ← (← ((d.field? "failed").getD (.list [])).items?).mapM NotebookFailure.ofDocument?
  let totals ← Totals.ofDocument? (← d.field? "stats")
  let record ← ScanRecord.ofDocument? (← d.field? "metadata")
  return ⟨⟨root⟩, notebooks, imports, filesRead, filesWritten, failed, totals, record⟩

end Report

end Footprint
