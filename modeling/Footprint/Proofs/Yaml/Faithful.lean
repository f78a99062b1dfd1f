import Footprint.Format
import Footprint.Proofs.Yaml.Scalar

/-!
# Analyses are told apart by their YAML

A cell is three lines or more and begins with a dash, a finding is one line or more and begins with a dash, and a key
does not; so where one part ends and the next one begins shows, and no source or finding passes for anything but itself.
-/

namespace Footprint.Yaml

variable {α : Type} {r s : List Char}

/-- A text that begins neither with a blank nor with a line break nor with a dash. -/
def EndsList (r : List Char) : Prop := Solid r ∧ r.head? ≠ some '-'

theorem endsList_nil : EndsList [] := ⟨solid_nil, nofun⟩

theorem solid_items {write : α → List Char} (dash : ∀ a, ∃ cs, write a = '-' :: cs) (as : List α) (hr : Solid r) :
    Solid (as.flatMap write ++ r) := by
  cases as with
  | nil => exact hr
  | cons a as =>
    obtain ⟨cs, written⟩ := dash a
    rw [List.flatMap_cons, written]
    exact solid_cons (by decide) rfl

/-- Items that begin with a dash are told apart if each of them is. The induction is on the items. -/
theorem unambiguous_items {write : α → List Char} (dash : ∀ a, ∃ cs, write a = '-' :: cs)
    (each : Unambiguous Solid write) : Unambiguous EndsList fun as : List α => as.flatMap write := by
  intro as
  induction as with
  | nil =>
    intro bs r s hr hs same
    cases bs with
    | nil => exact ⟨rfl, same⟩
    | cons b bs =>
      obtain ⟨cs, written⟩ := dash b
      simp only [List.flatMap_cons, written] at same
      obtain rfl : r = _ := same
      exact absurd rfl hr.2
  | cons a as ih =>
    intro bs r s hr hs same
    cases bs with
    | nil =>
      obtain ⟨cs, written⟩ := dash a
      simp only [List.flatMap_cons, written] at same
      obtain rfl : _ = s := same
      exact absurd rfl hs.2
    | cons b bs =>
      simp only [List.flatMap_cons, List.append_assoc] at same
      obtain ⟨rfl, others⟩ := each a b _ _ (solid_items dash as hr.1) (solid_items dash bs hs.1) same
      obtain ⟨rfl, rest⟩ := ih bs r s hr hs others
      exact ⟨rfl, rest⟩

def writeList (write : α → List Char) (as : List α) : List Char :=
  if as.isEmpty then [' ', '[', ']', '\n'] else '\n' :: as.flatMap write

theorem unambiguous_writeList {write : α → List Char} (dash : ∀ a, ∃ cs, write a = '-' :: cs)
    (each : Unambiguous Solid write) : Unambiguous EndsList (writeList write) := by
  intro as bs r s hr hs same
  cases as with
  | nil =>
    cases bs with
    | nil => exact ⟨rfl, List.append_cancel_left same⟩
    | cons b bs => cases same
  | cons a as =>
    cases bs with
    | nil => cases same
    | cons b bs => exact unambiguous_items dash each _ _ _ _ hr hs (List.cons.inj same).2

/-! ### The parts of an analysis -/

def behind (key : String) (cs : List Char) : List Char := key.toList ++ cs

theorem behind_append (key : String) (cs r : List Char) : behind key cs ++ r = behind key (cs ++ r) :=
  List.append_assoc _ _ _

theorem behind_inj {key : String} (same : behind key r = behind key s) : r = s := List.append_cancel_left same

theorem endsList_behind {key : String} {c : Char} {cs : List Char} (head : key.toList = c :: cs)
    (first : c ≠ ' ' ∧ isBreak c = false ∧ c ≠ '-') : EndsList (behind key r) := by
  rw [behind, head]
  exact ⟨solid_cons first.1 first.2.1, fun same => first.2.2 (Option.some.inj same)⟩

def writeFinding (x : String) : List Char := '-' :: ' ' :: writeText 2 x.toList

theorem unambiguous_writeFinding : Unambiguous Solid writeFinding := by
  intro x y r s hr hs same
  simp only [writeFinding, List.cons_append, List.cons.injEq, true_and] at same
  obtain ⟨texts, rest⟩ := unambiguous_writeText (by decide) _ _ r s hr hs same
  exact ⟨String.toList_injective texts, rest⟩

def writeCell (c : Cell) : List Char :=
  '-' :: ' ' :: behind "index: " (Decimal.digits c.position ++ '\n' :: behind "  type: "
    (writeText 4 c.kind.name.toList ++ behind "  source: " (writeText 4 c.source.toList)))

theorem styleOf_name (k : CellKind) : styleOf k.name.toList = .plain := by
  cases k <;> decide

theorem digits_inj {m n : Nat} (same : Decimal.digits m = Decimal.digits n) : m = n := by
  have value (k : Nat) : Nat.ofDigitChars 10 (Decimal.digits k) 0 = k := Nat.ofDigitChars_ten_toDigits
  rw [← value m, same, value]

theorem not_mem_digits (n : Nat) : '\n' ∉ Decimal.digits n := by
  intro mem
  have digit : ('\n').isDigit = true := Nat.isDigit_of_mem_toDigits (by decide) (by decide) mem
  cases digit

theorem unambiguous_writeCell : Unambiguous Solid writeCell := by
  intro c d r s hr hs same
  simp only [writeCell, List.cons_append, behind_append, List.append_assoc, List.cons.injEq, true_and] at same
  obtain ⟨positions, same⟩ := append_cons_inj (not_mem_digits _) (not_mem_digits _) (behind_inj same)
  obtain ⟨kinds, same⟩ := writeText_inj_of_plain (styleOf_name _) (behind_inj same)
  obtain ⟨sources, rest⟩ := unambiguous_writeText (by decide) _ _ r s hr hs (behind_inj same)
  have kind : c.kind = d.kind := by
    rw [← c.kind.ofName_name, String.toList_injective kinds, d.kind.ofName_name]
  refine ⟨?_, rest⟩
  cases c
  cases d
  cases digits_inj positions
  cases kind
  cases String.toList_injective sources
  rfl

/-! ### The text of an analysis -/

theorem items_texts (xs : List String) : items 0 (xs.map Document.text) = xs.flatMap writeFinding := by
  induction xs with
  | nil => rfl
  | cons x xs ih =>
    rw [List.map_cons, items, List.flatMap_cons, ih]
    rfl

theorem behindKey_texts (xs : List String) : behindKey 0 (.texts xs) = writeList writeFinding xs := by
  cases xs with
  | nil => rfl
  | cons x xs => exact congrArg (List.cons '\n') (items_texts (x :: xs))

theorem writeScalar_natural (indent p : Nat) : writeScalar indent (.natural p) = Decimal.digits p ++ ['\n'] := by
  have negative : decide ((p : Int) < 0) = false := decide_eq_false (Int.not_lt.mpr (Int.natCast_nonneg p))
  rw [Document.natural, writeScalar, negative]
  rfl

theorem fields_cons (indent : Nat) (k : String) (d : Document) (fs : List (String × Document)) :
    fields indent ((k, d) :: fs) = indentation indent ++ behind k (':' :: (behindKey indent d ++ fields indent fs)) := by
  rw [fields, List.append_assoc, List.append_assoc]
  rfl

theorem behindDash_cell (c : Cell) : '-' :: ' ' :: behindDash 2 c.toDocument = writeCell c := by
  have index : behindKey 2 (.natural c.position) = ' ' :: (Decimal.digits c.position ++ ['\n']) := by
    rw [← writeScalar_natural 4]
    rfl
  have text (x : String) : behindKey 2 (.text x) = ' ' :: writeText 4 x.toList := rfl
  have none : fields 2 [] = [] := rfl
  rw [Cell.toDocument, behindDash, fields_cons, fields_cons, fields_cons, index, text, text, none, List.append_nil]
  simp only [List.cons_append, List.append_assoc, List.nil_append]
  rfl

theorem items_cells (cs : List Cell) : items 0 (cs.map Cell.toDocument) = cs.flatMap writeCell := by
  induction cs with
  | nil => rfl
  | cons c cs ih =>
    rw [List.map_cons, items, List.flatMap_cons, ih, ← behindDash_cell]
    rfl

theorem behindKey_cells (cs : List Cell) :
    behindKey 0 (.list (cs.map Cell.toDocument)) = writeList writeCell cs := by
  cases cs with
  | nil => rfl
  | cons c cs => exact congrArg (List.cons '\n') (items_cells (c :: cs))

end Yaml

open Yaml

/-- The text of an analysis, part by part. -/
theorem Analysis.toYaml_eq (a : Analysis) :
    a.toDocument.toYaml = String.ofList (behind "cells:" (writeList writeCell a.cells ++
      behind "imports:" (writeList writeFinding a.imports.elements ++
        behind "files_read:" (writeList writeFinding a.filesRead.elements ++
          behind "files_written:" (writeList writeFinding a.filesWritten.elements))))) := by
  have none : Yaml.fields 0 [] = [] := rfl
  rw [toDocument, fields, Document.toYaml, fields_cons, fields_cons, fields_cons, fields_cons, behindKey_cells,
    TextSet.toDocument, TextSet.toDocument, TextSet.toDocument, behindKey_texts, behindKey_texts, behindKey_texts, none,
    List.append_nil]
  rfl

theorem TextSet.eq_of_elements {s t : TextSet} (same : s.elements = t.elements) : s = t := by
  cases s
  cases t
  cases same
  rfl

/-- The YAML of an analysis shows its cells, in order, and its three sets: analyses with the same text differ at most
in what is not written. -/
theorem Analysis.toYaml_eq_iff (a b : Analysis) : a.toDocument.toYaml = b.toDocument.toYaml ↔
    a.cells = b.cells ∧ a.imports = b.imports ∧ a.filesRead = b.filesRead ∧ a.filesWritten = b.filesWritten := by
  have cellLists := unambiguous_writeList (fun c => ⟨_, rfl⟩) unambiguous_writeCell
  have findingLists := unambiguous_writeList (fun x => ⟨_, rfl⟩) unambiguous_writeFinding
  have imports (r : List Char) : EndsList (behind "imports:" r) := endsList_behind rfl (by decide)
  have read (r : List Char) : EndsList (behind "files_read:" r) := endsList_behind rfl (by decide)
  have written (r : List Char) : EndsList (behind "files_written:" r) := endsList_behind rfl (by decide)
  constructor
  · intro same
    rw [toYaml_eq, toYaml_eq] at same
    have texts := behind_inj (String.ofList_injective same)
    obtain ⟨cells, texts⟩ := cellLists _ _ _ _ (imports _) (imports _) texts
    obtain ⟨imported, texts⟩ := findingLists _ _ _ _ (read _) (read _) (behind_inj texts)
    obtain ⟨filesRead, texts⟩ := findingLists _ _ _ _ (written _) (written _) (behind_inj texts)
    have last : writeList writeFinding a.filesWritten.elements ++ [] =
        writeList writeFinding b.filesWritten.elements ++ [] := congrArg (· ++ []) (behind_inj texts)
    obtain ⟨filesWritten, -⟩ := findingLists _ _ _ _ endsList_nil endsList_nil last
    exact ⟨cells, TextSet.eq_of_elements imported, TextSet.eq_of_elements filesRead,
      TextSet.eq_of_elements filesWritten⟩
  · rintro ⟨cells, imported, filesRead, filesWritten⟩
    rw [toYaml_eq, toYaml_eq, cells, imported, filesRead, filesWritten]

end Footprint
