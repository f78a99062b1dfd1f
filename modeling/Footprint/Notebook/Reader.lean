import Footprint.Json.Value
import Footprint.Notebook

/-!
Reading a notebook from JSON text. Only the kind and the source of a cell count; what else stands in
the text has to be JSON. A record may also be written as a list of its fields in order.
-/

namespace Footprint

inductive Notebook.Error where
  | json (error : Json.Error)
  | noCells
  deriving DecidableEq, Repr

def Notebook.Error.message : Notebook.Error → String
  | json error => "Failed to parse notebook JSON: " ++ error.message
  | noCells => "Invalid notebook format: missing \"cells\" array"

namespace Notebook.Reader

open Json

def unit : Reader Unit := do
  match ← peekToken with
  | some 'n' => advance; word ['u', 'l', 'l']
  | _ => mismatch "unit"

/-- Reads the name of a cell kind that stands as the one key of an object. -/
def kindKey : Reader CellKind := do
  match ← peekToken with
  | some '"' => do
    advance
    let name ← text
    colon
    unit
    match ← peekToken with
    | some '\x7d' => advance; return .ofName name
    | some _ => failHere .expectedValue
    | none => failHere .endInObject
  | _ => mismatch "variant identifier"

/-- Reads a cell kind: its name, or an object that holds nothing under that name. -/
def kind : Reader CellKind := do
  match ← peekToken with
  | some '"' => do
    advance
    return .ofName (← text)
  | some '\x7b' => advance; kindKey
  | some _ => failNext .expectedValue
  | none => failHere .endInValue

/-- The source that a document writes: a text, or texts one after the other. -/
def source? : Document → Option String
  | .text s => some s
  | .list ds => (ds.mapM Document.text?).map String.join
  | _ => none

/-- A source stands three levels deep, and no more than 128 are read. -/
def sourceDepth : Nat := 125

def source : Reader String := do
  match source? (← value sourceDepth) with
  | some s => return s
  | none => failUnplaced (.noVariant "RawSource")

structure CellFields where
  kind : Option CellKind := none
  source : Option String := none

def cellField (key : String) (fields : CellFields) : Reader CellFields :=
  if key = "cell_type" then
    if fields.kind.isSome then failUnplaced (.duplicateField "cell_type")
    else do
      colon
      return { fields with kind := some (← kind) }
  else if key = "source" then
    if fields.source.isSome then failUnplaced (.duplicateField "source")
    else do
      colon
      return { fields with source := some (← source) }
  else do
    colon
    skip
    return fields

def cellRecord : Reader (CellKind × String) := do
  let fields ← entries cellField {}
  match fields.kind with
  | some kind => return (kind, fields.source.getD "")
  | none => failUnplaced (.missingField "cell_type")

def cellList : Reader (CellKind × String) := do
  if ← nextItem true then
    let kind ← kind
    if ← nextItem false then return (kind, ← source)
    else return (kind, "")
  else failUnplaced (.invalidLength 0 "struct RawCell with 2 elements")

def cell : Reader (CellKind × String) := do
  match ← peekToken with
  | some '\x7b' => enclosed closeObject cellRecord
  | some '[' => enclosed closeList cellList
  | _ => mismatch "struct RawCell"

def cells : Reader (Option (List (CellKind × String))) := do
  match ← peekToken with
  | some 'n' => advance; word ['u', 'l', 'l']; return none
  | some '[' => do
    return some (← enclosed closeList (items cell))
  | _ => mismatch "a sequence"

abbrev Cells := Option (Option (List (CellKind × String)))

def notebookField (key : String) (found : Cells) : Reader Cells :=
  if key = "cells" then
    if found.isSome then failUnplaced (.duplicateField "cells")
    else do
      colon
      return some (← cells)
  else do
    colon
    skip
    return found

def notebookList : Reader Cells := do
  if ← nextItem true then return some (← cells)
  else failUnplaced (.invalidLength 0 "struct RawNotebook with 1 element")

def notebook : Reader Cells := do
  match ← peekToken with
  | some '\x7b' => enclosed closeObject (entries notebookField none)
  | some '[' => enclosed closeList notebookList
  | _ => mismatch "struct RawNotebook"

def whole : Reader Cells := do
  let found ← notebook
  atEnd
  return found

end Notebook.Reader

def Notebook.ofJson (s : String) : Except Notebook.Error Notebook :=
  match Json.run Reader.whole s with
  | .ok (some (some contents)) => .ok (ofContents contents)
  | .ok _ => .error .noCells
  | .error e => .error (.json e)

end Footprint
