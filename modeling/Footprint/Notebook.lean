/-!
Notebooks: cells in order, each of some kind and with a source. A kind decides what becomes of its
cells.
-/

namespace Footprint

inductive CellKind where
  | code | markdown | raw
  /-- Any kind of another name. -/
  | unknown
  deriving DecidableEq, Repr

def CellKind.ofName (s : String) : CellKind :=
  if s = "code" then code
  else if s = "markdown" then markdown
  else if s = "raw" then raw
  else unknown

def CellKind.name : CellKind → String
  | code => "code"
  | markdown => "markdown"
  | raw => "raw"
  | unknown => "unknown"

@[simp] theorem CellKind.ofName_name (k : CellKind) : ofName k.name = k := by
  cases k <;> decide

/-- What an analysis does with a cell. -/
inductive Treatment where
  /-- Its source is read, and it is listed. -/
  | analyze
  /-- It is listed only. -/
  | pass
  | drop
  deriving DecidableEq, Repr

def CellKind.treatment : CellKind → Treatment
  | code => .analyze
  | markdown => .pass
  | raw | unknown => .drop

structure Cell where
  /-- How many cells stand before it in its notebook. -/
  position : Nat
  kind : CellKind
  source : String
  deriving DecidableEq, Repr

structure Notebook where
  cells : List Cell
  deriving DecidableEq, Repr

def Notebook.ofContents (contents : List (CellKind × String)) : Notebook :=
  ⟨contents.mapIdx fun i c => ⟨i, c.1, c.2⟩⟩

@[simp] theorem Notebook.length_cells_ofContents (contents : List (CellKind × String)) :
    (ofContents contents).cells.length = contents.length := by simp [ofContents]

@[simp] theorem Notebook.getElem?_cells_ofContents (contents : List (CellKind × String)) (i : Nat) :
    (ofContents contents).cells[i]? = contents[i]?.map fun c => ⟨i, c.1, c.2⟩ := by
  simp [ofContents]

end Footprint
