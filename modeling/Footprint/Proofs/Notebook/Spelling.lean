import Footprint.Notebook.Reader
import Footprint.Proofs.Json.Collections

/-!
# Spellings of a notebook

All ways to write cells as JSON, and that each of them is read back. A cell is an object with one field
for its kind and at most one for its source, among any others; a source is one string or a list of
strings that make it up. Nothing but the cells bears on what is read, so a notebook has as many
spellings as one likes and they all yield the same.
-/

namespace Footprint

open Json

/-- Ways to write a source: as one string, or piece by piece. -/
inductive SpellsSource : String → List Char → Prop
  | text {s : String} {v : List Char} : SpellsText s v → SpellsSource s v
  | pieces {ps : List String} {v : List Char} : SpellsList SpellsText ps v → SpellsSource (String.join ps) v

inductive CellField where
  | kind (name : String)
  | source (text : String)
  /-- Nothing that counts. -/
  | other

def CellField.kind? : CellField → Option String
  | kind name => some name
  | _ => none

def CellField.source? : CellField → Option String
  | source s => some s
  | _ => none

inductive SpellsCellField : CellField → List Char → Prop
  | kind {name : String} {v : List Char} : SpellsField "cell_type" (SpellsText name) v →
      SpellsCellField (.kind name) v
  | source {s : String} {v : List Char} : SpellsField "source" (SpellsSource s) v →
      SpellsCellField (.source s) v
  | other {key : String} {v : List Char} : key ≠ "cell_type" → key ≠ "source" → SpellsField key IsValue v →
      SpellsCellField .other v

/-- Ways to write a cell of some kind and source: fields in any order, one for the kind and one for the
source, which may be missing if it is empty. -/
inductive SpellsCell : String × String → List Char → Prop
  | fields {kind source : String} {fs : List CellField} {v : List Char} :
      fs.filterMap CellField.kind? = [kind] →
      fs.filterMap CellField.source? = [source] ∨ fs.filterMap CellField.source? = [] ∧ source = "" →
      SpellsObject SpellsCellField fs v → SpellsCell (kind, source) v

inductive NotebookField where
  | cells (contents : List (String × String))
  /-- Nothing that counts. -/
  | other

def NotebookField.cells? : NotebookField → Option (List (String × String))
  | cells contents => some contents
  | other => none

inductive SpellsNotebookField : NotebookField → List Char → Prop
  | cells {contents : List (String × String)} {v : List Char} :
      SpellsField "cells" (SpellsList SpellsCell contents) v → SpellsNotebookField (.cells contents) v
  | other {key : String} {v : List Char} : key ≠ "cells" → SpellsField key IsValue v →
      SpellsNotebookField .other v

/-- Ways to write a notebook whose cells have these names of kinds and these sources. -/
inductive SpellsNotebook : List (String × String) → List Char → Prop
  | fields {contents : List (String × String)} {fs : List NotebookField} {u v w : List Char} :
      fs.filterMap NotebookField.cells? = [contents] → IsSpacing u → IsSpacing w →
      SpellsObject SpellsNotebookField fs v → SpellsNotebook contents (u ++ (v ++ w))

namespace Notebook.Reader

variable {text w v : List Char}

theorem reads_value_text {s : String} {depth : Nat} (h : SpellsText s v) (hw : IsSpacing w) :
    Reads (value (depth + 1)) (w ++ (v ++ text)) (.text s) text := by
  cases h with
  | quoted chars =>
    simp only [List.cons_append, List.append_assoc, List.nil_append]
    exact (reads_peekToken_cons hw rfl).bind
      ((reads_advance '"').bind ((reads_text chars).bind reads_pure))

theorem head_of_spellsText {s : String} (h : SpellsText s v) :
    ∃ a as, v = a :: as ∧ Cursor.isSpace a = false ∧ a ≠ ']' := by
  cases h
  exact ⟨'"', _, rfl, rfl, by decide⟩

theorem readsItems_text (depth : Nat) : ReadsItems SpellsText (value (depth + 1)) Document.text where
  head := head_of_spellsText
  reads := fun spelled _ => reads_value_text (w := []) spelled .nil

theorem reads_value_texts {ps : List String} {depth : Nat} (h : SpellsList SpellsText ps v)
    (hw : IsSpacing w) : Reads (value (depth + 2)) (w ++ (v ++ text)) (.list (ps.map .text)) text := by
  have list : Reads (enclosed closeList (items (value (depth + 1)))) (v ++ text) _ text :=
    (readsItems_text depth).reads_list h
  cases h with
  | brackets _ => exact (reads_peekToken_cons hw rfl).bind (list.bind reads_pure)

theorem mapM_text? (ps : List String) : (ps.map Document.text).mapM Document.text? = some ps := by
  induction ps with
  | nil => rfl
  | cons p ps ih => simp [List.mapM_cons, ih, Document.text?]

theorem reads_source {s : String} (h : SpellsSource s v) (hw : IsSpacing w) :
    Reads source (w ++ (v ++ text)) s text := by
  cases h with
  | text spelled => exact Reads.bind (r := value (124 + 1)) (reads_value_text spelled hw) reads_pure
  | @pieces ps _ spelled =>
    have known : source? (.list (ps.map .text)) = some (String.join ps) := by
      rw [source?, mapM_text?]; rfl
    refine Reads.bind (r := value (123 + 2)) (reads_value_texts spelled hw) ?_
    simp only [known]
    exact reads_pure

theorem reads_kind {name : String} (h : SpellsText name v) (hw : IsSpacing w) :
    Reads kind (w ++ (v ++ text)) (.ofName name) text := by
  cases h with
  | quoted chars =>
    simp only [List.cons_append, List.append_assoc, List.nil_append]
    exact (reads_peekToken_cons hw rfl).bind
      ((reads_advance '"').bind ((reads_text chars).bind reads_pure))

def cellStep (read : CellFields) : CellField → Option CellFields
  | .kind name => if read.kind.isSome then none else some { read with kind := some (.ofName name) }
  | .source s => if read.source.isSome then none else some { read with source := some s }
  | .other => some read

theorem readsEntries_cell : ReadsEntries SpellsCellField cellField cellStep where
  reads := by
    intro x v spelled
    cases spelled with
    | kind spelled =>
      obtain ⟨vs, rfl, u, w, v', hu, hw, hv, read⟩ := spelled.reads
      refine ⟨vs, rfl, fun {s s' text} goes stops => read ?_⟩
      simp only [cellStep, Option.ite_none_left_eq_some, Option.some.injEq] at goes
      obtain ⟨fresh, rfl⟩ := goes
      rw [cellField, if_pos rfl, if_neg fresh]
      exact (reads_colon hu).bind ((reads_kind hv hw).bind reads_pure)
    | source spelled =>
      obtain ⟨vs, rfl, u, w, v', hu, hw, hv, read⟩ := spelled.reads
      refine ⟨vs, rfl, fun {s s' text} goes stops => read ?_⟩
      simp only [cellStep, Option.ite_none_left_eq_some, Option.some.injEq] at goes
      obtain ⟨fresh, rfl⟩ := goes
      rw [cellField, if_neg (by decide), if_pos rfl, if_neg fresh]
      exact (reads_colon hu).bind ((reads_source hv hw).bind reads_pure)
    | other notKind notSource spelled =>
      obtain ⟨vs, rfl, u, w, v', hu, hw, hv, read⟩ := spelled.reads
      refine ⟨vs, rfl, fun {s s' text} goes stops => read ?_⟩
      obtain rfl : s = s' := Option.some.inj goes
      rw [cellField, if_neg notKind, if_neg notSource]
      exact (reads_colon hu).bind ((reads_skip hv hw stops).bind reads_pure)

/-- Fields that tell a kind at most once and a source at most once are read without objection. -/
theorem foldlM_cellStep (fs : List CellField) (read : CellFields)
    (oneKind : (read.kind.toList ++ (fs.filterMap CellField.kind?).map CellKind.ofName).length ≤ 1)
    (oneSource : (read.source.toList ++ fs.filterMap CellField.source?).length ≤ 1) :
    fs.foldlM cellStep read =
      some ⟨(read.kind.toList ++ (fs.filterMap CellField.kind?).map CellKind.ofName).head?,
        (read.source.toList ++ fs.filterMap CellField.source?).head?⟩ := by
  induction fs generalizing read with
  | nil =>
    obtain ⟨kind, source⟩ := read
    cases kind <;> cases source <;> rfl
  | cons f fs ih =>
    obtain ⟨kind, source⟩ := read
    rw [List.foldlM_cons]
    cases f with
    | kind name =>
      cases kind with
      | some k => simp [CellField.kind?] at oneKind
      | none => exact ih ⟨some (.ofName name), source⟩ oneKind oneSource
    | source s =>
      cases source with
      | some t => simp [CellField.source?] at oneSource
      | none => exact ih ⟨kind, some s⟩ oneKind oneSource
    | other => exact ih ⟨kind, source⟩ oneKind oneSource

theorem foldlM_cellStep_empty {fs : List CellField} {kind source : String}
    (oneKind : fs.filterMap CellField.kind? = [kind])
    (oneSource : fs.filterMap CellField.source? = [source] ∨
      fs.filterMap CellField.source? = [] ∧ source = "") :
    ∃ read : CellFields, fs.foldlM cellStep {} = some read ∧ read.kind = some (.ofName kind) ∧
      read.source.getD "" = source := by
  refine ⟨_, foldlM_cellStep fs {} (by simp [oneKind]) ?_, by simp [oneKind], ?_⟩
  · rcases oneSource with one | ⟨none, -⟩
    · simp [one]
    · simp [none]
  · rcases oneSource with one | ⟨none, rfl⟩
    · simp [one]
    · simp [none]

theorem readsItems_cell : ReadsItems SpellsCell cell fun c => (.ofName c.1, c.2) where
  head := by
    rintro x v (⟨-, -, ⟨-⟩⟩)
    exact ⟨'\x7b', _, rfl, rfl, by decide⟩
  reads := by
    intro x v text spelled _
    cases spelled with
    | @fields kind source fs _ oneKind oneSource object =>
      obtain ⟨read, goes, isKind, isSource⟩ := foldlM_cellStep_empty oneKind oneSource
      cases object with
      | braces all =>
        simp only [List.cons_append, List.append_assoc, List.nil_append]
        refine (reads_peekToken_cons (w := []) .nil rfl).bind (reads_enclosed_object ?_)
        refine (readsEntries_cell.reads_entries all goes).bind ?_
        simp only [isKind, isSource]
        exact reads_pure

theorem reads_cells {contents : List (String × String)} (h : SpellsList SpellsCell contents v)
    (hw : IsSpacing w) :
    Reads cells (w ++ (v ++ text)) (some (contents.map fun c => (.ofName c.1, c.2))) text := by
  have list : Reads (enclosed closeList (items cell)) (v ++ text) _ text := readsItems_cell.reads_list h
  cases h with
  | brackets _ => exact (reads_peekToken_cons hw rfl).bind (list.bind reads_pure)

def notebookStep (found : Cells) : NotebookField → Option Cells
  | .cells contents =>
    if found.isSome then none else some (some (some (contents.map fun c => (.ofName c.1, c.2))))
  | .other => some found

theorem readsEntries_notebook : ReadsEntries SpellsNotebookField notebookField notebookStep where
  reads := by
    intro x v spelled
    cases spelled with
    | cells spelled =>
      obtain ⟨vs, rfl, u, w, v', hu, hw, hv, read⟩ := spelled.reads
      refine ⟨vs, rfl, fun {s s' text} goes stops => read ?_⟩
      simp only [notebookStep, Option.ite_none_left_eq_some, Option.some.injEq] at goes
      obtain ⟨fresh, rfl⟩ := goes
      rw [notebookField, if_pos rfl, if_neg fresh]
      exact (reads_colon hu).bind ((reads_cells hv hw).bind reads_pure)
    | other notCells spelled =>
      obtain ⟨vs, rfl, u, w, v', hu, hw, hv, read⟩ := spelled.reads
      refine ⟨vs, rfl, fun {s s' text} goes stops => read ?_⟩
      obtain rfl : s = s' := Option.some.inj goes
      rw [notebookField, if_neg notCells]
      exact (reads_colon hu).bind ((reads_skip hv hw stops).bind reads_pure)

theorem foldlM_notebookStep (fs : List NotebookField) (found : Cells)
    (once : (found.toList ++ (fs.filterMap NotebookField.cells?).map fun contents =>
      some (contents.map fun c => (CellKind.ofName c.1, c.2))).length ≤ 1) :
    fs.foldlM notebookStep found = some (found.toList ++ (fs.filterMap NotebookField.cells?).map
      fun contents => some (contents.map fun c => (CellKind.ofName c.1, c.2))).head? := by
  induction fs generalizing found with
  | nil => cases found <;> rfl
  | cons f fs ih =>
    rw [List.foldlM_cons]
    cases f with
    | cells contents =>
      cases found with
      | some cs => simp [NotebookField.cells?] at once
      | none => exact ih (some (some (contents.map fun c => (.ofName c.1, c.2)))) once
    | other => exact ih found once

theorem reads_atEnd (hw : IsSpacing w) : Reads atEnd w () [] := by
  have token : Reads peekToken (w ++ []) none [] := reads_peekToken hw (by simp [StartsSolid])
  rw [List.append_nil] at token
  exact token.bind reads_pure

theorem reads_whole {contents : List (String × String)} (h : SpellsNotebook contents text) :
    Reads whole text (some (some (contents.map fun c => (.ofName c.1, c.2)))) [] := by
  cases h with
  | @fields fs u v w once hu hw object =>
    have goes := foldlM_notebookStep fs none (by simp [once])
    rw [once] at goes
    cases object with
    | braces all =>
      simp only [List.cons_append, List.append_assoc, List.nil_append]
      have object : Reads (enclosed closeObject (entries notebookField none)) _ _ w :=
        reads_enclosed_object (readsEntries_notebook.reads_entries all goes)
      have read : Reads notebook _ (some (some (contents.map fun c => (CellKind.ofName c.1, c.2)))) w :=
        (reads_peekToken_cons hu rfl).bind object
      exact read.bind ((reads_atEnd hw).bind reads_pure)

end Notebook.Reader

namespace Notebook

/-- Each way to write cells as JSON is read back: as these cells in this order, each with its position, the
kind of this name and this source. -/
theorem ofJson_of_spellsNotebook {contents : List (String × String)} {text : String}
    (spelled : SpellsNotebook contents text.toList) :
    ofJson text = .ok ⟨contents.mapIdx fun i c => ⟨i, .ofName c.1, c.2⟩⟩ := by
  obtain ⟨d, -, read⟩ := Reader.reads_whole spelled ⟨text.toList, 1, 0⟩ rfl
  have run : Json.run Reader.whole text = .ok (some (some (contents.map fun c => (.ofName c.1, c.2)))) := by
    rw [Json.run, read]
  simp only [ofJson, run, ofContents]
  have same : (contents.map fun c => (CellKind.ofName c.1, c.2)).mapIdx (fun i c => (⟨i, c.1, c.2⟩ : Cell)) =
      contents.mapIdx fun i c => ⟨i, .ofName c.1, c.2⟩ := by
    refine List.ext_getElem? fun i => ?_
    simp [Function.comp_def]
  rw [same]

/-- A cell written with its source in two pieces, one of them an escape, and another field before the
cells. -/
theorem ofJson_pieces :
    ofJson "\x7b\"v\":[0], \"cells\":[\x7b\"source\":[\"a\",\"\\u0062\"],\"cell_type\":\"code\"\x7d]\x7d" =
      .ok ⟨[⟨0, .code, "ab"⟩]⟩ := by
  have plain (s : String) (h : ∀ c ∈ s.toList, 0x20 ≤ c.toNat ∧ c ≠ '"' ∧ c ≠ '\\') :
      SpellsText s ('"' :: (s.toList ++ ['"'])) := .quoted (spellsChars_self h)
  have code : SpellsCode 'b'.toNat ['0', '0', '6', '2'] := ⟨rfl, by decide, by decide⟩
  have b : SpellsText "b" _ := .quoted (.cons (.code code) .nil)
  have source : SpellsField "source" (SpellsSource "ab") _ := .mk (plain "source" (by decide)) .nil .nil
    (.pieces (.brackets (.cons .nil (plain "a" (by decide)) .nil (.one .nil b .nil))))
  have kind : SpellsField "cell_type" (SpellsText "code") _ :=
    .mk (plain "cell_type" (by decide)) .nil .nil (plain "code" (by decide))
  have cell : SpellsCell ("code", "ab") _ := .fields rfl (.inl rfl)
    (.braces (.cons .nil (.source source) .nil (.one .nil (.kind kind) .nil)))
  have zero : IsValue ['[', '0', ']'] :=
    .list .nil (.one (.number (.mk (.inl rfl) .zero .none .none)) .nil)
  have other : SpellsField "v" IsValue _ := .mk (plain "v" (by decide)) .nil .nil zero
  have cells : SpellsField "cells" (SpellsList SpellsCell [("code", "ab")]) _ :=
    .mk (plain "cells" (by decide)) .nil .nil (.brackets (.one .nil cell .nil))
  have space : IsSpacing [' '] := by simp [IsSpacing]
  have notebook : SpellsNotebook [("code", "ab")] _ := .fields rfl .nil .nil
    (.braces (.cons .nil (.other (by decide) other) .nil (.one space (.cells cells) .nil)))
  exact @ofJson_of_spellsNotebook [("code", "ab")] _ notebook

end Notebook

end Footprint
