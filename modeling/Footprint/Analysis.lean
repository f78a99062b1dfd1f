import Footprint.Findings
import Footprint.Notebook
import Footprint.Source
import Footprint.TextSet

/-!
The analysis of a notebook: its code and text cells, the sets of what its code imports, reads and
writes, and the cells whose source is refused. A refused cell costs only its own findings.
-/

namespace Footprint

structure CellCounts where
  code : Nat := 0
  markdown : Nat := 0
  unparsed : Nat := 0
  deriving DecidableEq, Repr

def CellCounts.add (a b : CellCounts) : CellCounts :=
  ⟨a.code + b.code, a.markdown + b.markdown, a.unparsed + b.unparsed⟩

instance : Add CellCounts := ⟨CellCounts.add⟩

structure Analysis where
  cells : List Cell
  imports : TextSet
  filesRead : TextSet
  filesWritten : TextSet
  /-- Positions of the code cells whose source is refused. -/
  unparsed : List Nat
  deriving DecidableEq, Repr

def Analysis.counts (a : Analysis) : CellCounts where
  code := a.cells.countP fun c => c.kind = .code
  markdown := a.cells.countP fun c => c.kind = .markdown
  unparsed := a.unparsed.length

structure Collection where
  cells : List Cell := []
  findings : Findings := {}
  unparsed : List Nat := []
  deriving DecidableEq, Repr

namespace Collection

def append (a b : Collection) : Collection :=
  ⟨a.cells ++ b.cells, a.findings ++ b.findings, a.unparsed ++ b.unparsed⟩

instance : Append Collection := ⟨append⟩

@[simp] theorem cells_append (a b : Collection) : (a ++ b).cells = a.cells ++ b.cells := rfl

@[simp] theorem findings_append (a b : Collection) : (a ++ b).findings = a.findings ++ b.findings := rfl

@[simp] theorem unparsed_append (a b : Collection) : (a ++ b).unparsed = a.unparsed ++ b.unparsed := rfl

def join (cs : List Collection) : Collection := cs.foldr (· ++ ·) {}

/-- Forgets how often and in which order things were found. -/
def analysis (c : Collection) : Analysis where
  cells := c.cells
  imports := .ofList c.findings.imports
  filesRead := .ofList c.findings.filesRead
  filesWritten := .ofList c.findings.filesWritten
  unparsed := c.unparsed

end Collection

section

variable {ε : Type} (parse : String → Except ε (List Construct)) (patterns : AccessPatterns)

/-- The findings of a source, or why it is refused. -/
def findingsOf (source : String) : Except ε Findings :=
  match parse source with
  | .ok cs => .ok (.ofConstructs patterns cs)
  | .error e => .error e

def Cell.collection (c : Cell) : Collection :=
  match c.kind.treatment with
  | .analyze =>
    match findingsOf parse patterns c.source with
    | .ok f => { cells := [c], findings := f }
    | .error _ => { cells := [c], unparsed := [c.position] }
  | .pass => { cells := [c] }
  | .drop => {}

def analyzeCells (cells : List Cell) : Analysis :=
  (Collection.join (cells.map (Cell.collection parse patterns))).analysis

end

def Notebook.analyze (patterns : AccessPatterns) (n : Notebook) : Analysis :=
  analyzeCells constructsOf patterns n.cells

end Footprint
