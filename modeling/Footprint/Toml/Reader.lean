import Footprint.Toml.Node
import Footprint.Toml.Scalar

/-!
Reading TOML text. Fields come one to a line, and each goes into the table whose header was read last.
-/

namespace Footprint.Toml

def passBy (after? : List Char → Option (List Char)) : Reader Unit := fun cs =>
  (after? cs).map ((), ·)

/-- Reads items with commas between them, up to the end; there may be a comma behind the last one. The
fuel bounds their number. -/
def itemsFrom (item : Reader α) : Nat → Reader (List α)
  | 0 => failure
  | f + 1 => do
    skipLayout
    if (← peek) = some ']' then return []
    else
      let x ← item
      skipLayout
      if (← peek) = some ',' then
        pass ','
        return x :: (← itemsFrom item f)
      else return [x]

def field (value : Reader Node) : Reader (List String × Node) := do
  let key ← key
  pass '='
  skipBlanks
  return (key, ← value)

/-- Reads fields on one line with commas between them. The fuel bounds their number. -/
def fieldsFrom (value : Reader Node) : Nat → Reader (List (List String × Node))
  | 0 => failure
  | f + 1 => do
    let x ← field value
    skipBlanks
    if (← peek) = some ',' then
      pass ','
      return x :: (← fieldsFrom value f)
    else return [x]

def inlineTable (fields : List (List String × Node)) : Option Node := do
  let (_, fs) ← fields.foldlM (fun (o, fs) (k, n) => Fields.insert k n o fs) (Origin.inline, [])
  return .table .inline fs

def remaining : Reader Nat := fun cs => some (cs.length, cs)

def list (value : Reader Node) : Reader Node := do
  pass '['
  let items ← itemsFrom value (← remaining)
  skipLayout
  pass ']'
  return .list items

def braces (value : Reader Node) : Reader Node := do
  pass '{'
  skipBlanks
  let fields ← if (← peek) = some '}' then pure [] else fieldsFrom value (← remaining)
  skipBlanks
  pass '}'
  inlineTable fields

def plain : Reader Node := do
  match ← peek with
  | some '"' | some '\'' => return .text (← text)
  | some 't' => passBy (afterWord? ['t', 'r', 'u', 'e']); return .scalar
  | some 'f' => passBy (afterWord? ['f', 'a', 'l', 's', 'e']); return .scalar
  | _ => (do passBy afterMoment?; return .moment) <|> (do passBy afterNumber?; return .scalar)

/-- Reads a value of less than this depth. -/
def value : Nat → Reader Node
  | 0 => plain
  | depth + 1 => do
    match ← peek with
    | some '[' => if depth = 0 then failure else list (value depth)
    | some '{' => if depth = 0 then failure else braces (value depth)
    | _ => plain

structure Draft where
  fields : Fields := []
  /-- The key in the header read last. -/
  header : List String := []

/-- Reads a header, of which the first bracket is passed. -/
def header (d : Draft) : Reader Draft := do
  let double := (← peek) = some '['
  if double then pass '['
  let key ← key
  pass ']'
  if double then pass ']'
  lineEnd
  let change := if double then Fields.openNext? else Fields.open?
  let (_, fs) ← Fields.within false (change (key.getLastD "")) key.dropLast .header d.fields
  return ⟨fs, key⟩

def fieldLine (d : Draft) : Reader Draft := do
  let (key, n) ← field (value depthLimit)
  lineEnd
  let (_, fs) ← Fields.within false (Fields.insert key n) d.header .header d.fields
  return { d with fields := fs }

def line (d : Draft) : Reader Draft := do
  match ← peek with
  | some '[' => pass '['; header d
  | some x => if x = '#' ∨ x = '\n' ∨ x = '\r' then do lineEnd; return d else fieldLine d
  | none => return d

/-- Reads all lines. The fuel bounds their number. -/
def linesFrom : Nat → Draft → Reader Draft
  | 0, _ => failure
  | f + 1, d => do
    skipBlanks
    match ← peek with
    | none => return d
    | some _ => do linesFrom f (← line d)

/-- Drops the mark that a text may begin with. -/
def dropMark : List Char → List Char
  | '\ufeff' :: cs => cs
  | cs => cs

def Fields.ofText? (s : String) : Option Fields :=
  let cs := dropMark s.toList
  (linesFrom (cs.length + 1) {} cs).map fun (d, _) => d.fields

end Footprint.Toml
