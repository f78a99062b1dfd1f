import Footprint.Proofs.Json.Printing
import Footprint.Report.Document

/-!
# Reports that are written and read

An analysis and a report are read back from their text, in both layouts: all of them comes back but the positions of
the cells that were refused, which are not written. So their texts tell them apart.
-/

namespace Footprint

open Document Json

variable {l : Layout}

namespace Document

@[simp] theorem natural?_natural (n : Nat) : (natural n).natural? = some n := rfl

theorem mapM_map_eq {α β : Type} {f : α → Document} {r : Document → Option β} {g : α → β}
    (each : ∀ x, r (f x) = some (g x)) (xs : List α) : (xs.map f).mapM r = some (xs.map g) := by
  induction xs with
  | nil => rfl
  | cons x xs ih => simp [List.mapM_cons, each, ih]

@[simp] theorem texts?_texts (ss : List String) : (texts ss).texts? = some ss := by
  have each (s : String) : text? (text s) = some (id s) := rfl
  have all := mapM_map_eq each ss
  rwa [List.map_id] at all

end Document

@[simp] theorem TextSet.ofDocument?_toDocument (s : TextSet) : TextSet.ofDocument? s.toDocument = some s := by
  have same : TextSet.ofList s.elements = s := TextSet.ext_mem fun x => TextSet.mem_ofList
  rw [ofDocument?, toDocument, texts?_texts]
  exact congrArg some same

@[simp] theorem Cell.ofDocument?_toDocument (c : Cell) : Cell.ofDocument? c.toDocument = some c := by
  simp [ofDocument?, toDocument, field?, List.lookup_cons, text?]

namespace Analysis

def written (a : Analysis) : Analysis := { a with unparsed := [] }

theorem mapM_cells (a : Analysis) : (a.cells.map Cell.toDocument).mapM Cell.ofDocument? = some a.cells := by
  have all := mapM_map_eq (g := id) Cell.ofDocument?_toDocument a.cells
  rwa [List.map_id] at all

/-- All of an analysis that is written comes back. -/
theorem ofDocument?_toDocument (a : Analysis) : ofDocument? a.toDocument = some a.written := by
  simp [-List.mapM_map, ofDocument?, toDocument, fields, field?, List.lookup_cons, items?, mapM_cells, written]

theorem ofDocument?_path (a : Analysis) (path : Document) :
    ofDocument? (.record (("path", path) :: a.fields)) = some a.written := by
  simp [-List.mapM_map, ofDocument?, fields, field?, List.lookup_cons, items?, mapM_cells, written]

end Analysis

def NotebookReport.written (n : NotebookReport) : NotebookReport := { n with analysis := n.analysis.written }

theorem NotebookReport.ofDocument?_toDocument (n : NotebookReport) : ofDocument? n.toDocument = some n.written := by
  rw [ofDocument?, toDocument, Analysis.ofDocument?_path]
  rfl

theorem NotebookFailure.ofDocument?_toDocument (f : NotebookFailure) : ofDocument? f.toDocument = some f := by
  simp [ofDocument?, toDocument, field?, List.lookup_cons, text?]

theorem Totals.ofDocument?_toDocument (t : Totals) : ofDocument? t.toDocument = some t := by
  simp [ofDocument?, toDocument, CellCounts.ofDocument?, CellCounts.fields, field?, List.lookup_cons]

theorem ScanRecord.ofDocument?_toDocument (r : ScanRecord) : ofDocument? r.toDocument = some r := by
  simp [ofDocument?, toDocument, field?, List.lookup_cons, text?, real?]

namespace Report

def written (r : Report) : Report := { r with notebooks := r.notebooks.map NotebookReport.written }

/-- All of a report that is written comes back. -/
theorem ofDocument?_toDocument (r : Report) : ofDocument? r.toDocument = some r.written := by
  have notebooks := mapM_map_eq NotebookReport.ofDocument?_toDocument r.notebooks
  have failed := mapM_map_eq (g := id) NotebookFailure.ofDocument?_toDocument r.failed
  rw [List.map_id] at failed
  unfold toDocument
  split
  · rename_i none
    rw [List.isEmpty_iff] at none
    simp [ofDocument?, field?, List.lookup_cons, text?, items?, notebooks, none, written, Totals.ofDocument?_toDocument,
      ScanRecord.ofDocument?_toDocument]
  · simp [ofDocument?, field?, List.lookup_cons, text?, items?, notebooks, failed, written, Totals.ofDocument?_toDocument,
      ScanRecord.ofDocument?_toDocument]

end Report

/-! ### Sizes -/

theorem fits_texts {n : Nat} (ss : List String) : Fits (n + 2) (texts ss) := by
  refine .list fun d mem => ?_
  obtain ⟨s, -, rfl⟩ := List.mem_map.mp mem
  exact .text s

theorem Cell.fits {n : Nat} {c : Cell} (bound : c.position < limit64) : Fits (n + 2) c.toDocument := by
  refine .record fun x mem => ?_
  simp only [List.mem_cons, List.not_mem_nil, or_false] at mem
  rcases mem with rfl | rfl | rfl
  · exact .natural bound
  · exact .text _
  · exact .text _

namespace Analysis

def IsBounded (a : Analysis) : Prop := ∀ c ∈ a.cells, c.position < limit64

theorem IsBounded.fits_fields {n : Nat} {a : Analysis} (bounded : a.IsBounded) : ∀ x ∈ a.fields, Fits (n + 3) x.2 := by
  intro x mem
  simp only [fields, List.mem_cons, List.not_mem_nil, or_false] at mem
  rcases mem with rfl | rfl | rfl | rfl
  · refine .list fun d mem => ?_
    obtain ⟨c, held, rfl⟩ := List.mem_map.mp mem
    exact Cell.fits (bounded c held)
  · exact fits_texts _
  · exact fits_texts _
  · exact fits_texts _

theorem IsBounded.fits {n : Nat} {a : Analysis} (bounded : a.IsBounded) : Fits (n + 4) a.toDocument :=
  .record bounded.fits_fields

end Analysis

/-- The numbers of a report are words of 64 bits, and its rate is zero. -/
structure Report.IsBounded (r : Report) : Prop where
  notebooks : ∀ n ∈ r.notebooks, n.analysis.IsBounded
  total : r.totals.notebooks < limit64
  failed : r.totals.failed < limit64
  code : r.totals.cells.code < limit64
  markdown : r.totals.cells.markdown < limit64
  unparsed : r.totals.cells.unparsed < limit64
  milliseconds : r.record.milliseconds < limit64
  rate : r.record.rate = 0.0

namespace Report.IsBounded

variable {r : Report} {n : Nat}

theorem fits_notebook {b : NotebookReport} (bounded : b.analysis.IsBounded) : Fits (n + 4) b.toDocument := by
  refine .record fun x mem => ?_
  rcases List.mem_cons.mp mem with rfl | mem
  · exact .text _
  · exact bounded.fits_fields x mem

theorem fits_failure (b : NotebookFailure) : Fits (n + 2) b.toDocument := by
  refine .record fun x mem => ?_
  simp only [List.mem_cons, List.not_mem_nil, or_false] at mem
  rcases mem with rfl | rfl <;> exact .text _

theorem fits_totals (bounded : r.IsBounded) : Fits (n + 2) r.totals.toDocument := by
  refine .record fun x mem => ?_
  simp only [CellCounts.fields, List.mem_cons, List.not_mem_nil, or_false] at mem
  rcases mem with rfl | rfl | rfl | rfl | rfl
  · exact .natural bounded.total
  · exact .natural bounded.failed
  · exact .natural bounded.code
  · exact .natural bounded.markdown
  · exact .natural bounded.unparsed

theorem fits_record (bounded : r.IsBounded) : Fits (n + 2) r.record.toDocument := by
  refine .record fun x mem => ?_
  simp only [List.mem_cons, List.not_mem_nil, or_false] at mem
  rcases mem with rfl | rfl | rfl | rfl
  · exact .natural bounded.milliseconds
  · rw [bounded.rate]
    exact .zero
  · exact .text _
  · exact .text _

theorem fits (bounded : r.IsBounded) : Fits (n + 6) r.toDocument := by
  refine .record fun x mem => ?_
  simp only [List.mem_append, List.mem_cons, List.not_mem_nil, or_false] at mem
  rcases mem with ((rfl | rfl | rfl | rfl | rfl) | mem) | rfl | rfl
  · exact .text _
  · refine .list fun d mem => ?_
    obtain ⟨b, held, rfl⟩ := List.mem_map.mp mem
    exact fits_notebook (bounded.notebooks b held)
  · exact fits_texts _
  · exact fits_texts _
  · exact fits_texts _
  · split at mem
    · cases mem
    · obtain rfl := List.mem_singleton.mp mem
      refine .list fun d mem => ?_
      obtain ⟨b, -, rfl⟩ := List.mem_map.mp mem
      exact fits_failure b
  · exact bounded.fits_totals
  · exact bounded.fits_record

end Report.IsBounded

/-! ### Texts -/

/-- A text is JSON and is read as a document. -/
def Document.IsText (d : Document) (s : String) : Prop := IsValue s.toList ∧ Document.ofJson s = .ok d

def IsLayout (l : Layout) : Prop := l = .pretty ∨ l = .compact

theorem IsLayout.isText {d : Document} (layout : IsLayout l) (fits : Fits depthLimit d) : d.IsText (d.toJson l) := by
  rcases layout with rfl | rfl
  · exact ofJson_toJson Layout.isWhite_pretty fits
  · exact ofJson_toJson Layout.isWhite_compact fits

/-- A text is read as one document, in whichever layout it was written. -/
theorem IsLayout.eq_of_toJson_eq {l' : Layout} {d e : Document} (layout : IsLayout l) (layout' : IsLayout l')
    (fits : Fits depthLimit d) (fits' : Fits depthLimit e) (same : d.toJson l = e.toJson l') : d = e :=
  Except.ok.inj ((layout.isText fits).2.symm.trans (same ▸ (layout'.isText fits').2))

/-- Analyses and reports are read back from both of their texts, which are JSON and stand for one document. Texts of
two of them are the same only if the two differ in nothing but the positions of refused cells. -/
theorem toJson_lossless :
    (∀ a : Analysis, a.IsBounded → ∃ fields,
      fields.map Prod.fst = ["cells", "imports", "files_read", "files_written"] ∧
      (∀ l, IsLayout l → (Document.record fields).IsText (a.toDocument.toJson l)) ∧
      Analysis.ofDocument? (.record fields) = some { a with unparsed := [] }) ∧
    (∀ r : Report, r.IsBounded → ∃ d : Document,
      (∀ l, IsLayout l → d.IsText (r.toDocument.toJson l)) ∧ Report.ofDocument? d = some r.written) ∧
    (∀ a b : Analysis, a.IsBounded → b.IsBounded → ∀ l l', IsLayout l → IsLayout l' →
      a.toDocument.toJson l = b.toDocument.toJson l' → { a with unparsed := [] } = { b with unparsed := [] }) ∧
    ∀ r r' : Report, r.IsBounded → r'.IsBounded → ∀ l l', IsLayout l → IsLayout l' →
      r.toDocument.toJson l = r'.toDocument.toJson l' → r.written = r'.written := by
  refine ⟨fun a bounded => ?_, fun r bounded => ?_, fun a b ha hb l l' hl hl' same => ?_,
    fun r r' hr hr' l l' hl hl' same => ?_⟩
  · exact ⟨a.fields, rfl, fun l layout => layout.isText bounded.fits, a.ofDocument?_toDocument⟩
  · exact ⟨r.toDocument, fun l layout => layout.isText bounded.fits, r.ofDocument?_toDocument⟩
  · have document := hl.eq_of_toJson_eq hl' ha.fits hb.fits same
    exact Option.some.inj ((a.ofDocument?_toDocument.symm.trans (congrArg _ document)).trans b.ofDocument?_toDocument)
  · have document := hl.eq_of_toJson_eq hl' hr.fits hr'.fits same
    exact Option.some.inj ((r.ofDocument?_toDocument.symm.trans (congrArg _ document)).trans r'.ofDocument?_toDocument)

/-- A quote, a line break, a control character and a character beyond the first plane, in a cell that was refused. -/
theorem toJson_lossless_refused :
    let a : Analysis := ⟨[⟨7, .code, "\"\n\x01😀"⟩], ∅, ∅, ∅, [7]⟩
    let r : Report := .ofNotebooks ⟨"."⟩ [⟨⟨"a.ipynb"⟩, a⟩] [⟨⟨"b.ipynb"⟩, "\\"⟩] ⟨0, 0.0, "", version⟩
    a.IsBounded ∧ r.IsBounded ∧
      (∃ fields, (∀ l, IsLayout l → (Document.record fields).IsText (a.toDocument.toJson l)) ∧
        Analysis.ofDocument? (.record fields) = some { a with unparsed := [] }) ∧
      ∃ d : Document, (∀ l, IsLayout l → d.IsText (r.toDocument.toJson l)) ∧ Report.ofDocument? d = some r.written := by
  intro a r
  have boundedA : a.IsBounded := by
    intro c mem
    obtain rfl := List.mem_singleton.mp mem
    decide
  have boundedR : r.IsBounded := by
    refine ⟨fun n mem => ?_, by decide, by decide, by decide, by decide, by decide, by decide, rfl⟩
    obtain rfl := List.mem_singleton.mp mem
    exact boundedA
  obtain ⟨fields, -, texts, read⟩ := toJson_lossless.1 a boundedA
  exact ⟨boundedA, boundedR, ⟨fields, texts, read⟩, toJson_lossless.2.1 r boundedR⟩

end Footprint
