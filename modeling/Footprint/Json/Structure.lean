import Footprint.Json.Text

/-!
Lists and objects of JSON, item by item. What goes wrong inside one without a place of its own is
placed where the list or object ends, or where reading its end stops.
-/

namespace Footprint.Json

/-- Whether another item of a list comes; the comma before it is passed. -/
def nextItem (first : Bool) : Reader Bool := do
  match ← peekToken with
  | none => failHere .endInList
  | some ']' => return false
  | some x =>
    if x = ',' && !first then
      advance
      match ← peekToken with
      | some ']' => failNext .trailingComma
      | some _ => return true
      | none => failHere .endInValue
    else if first then return true
    else failNext .expectedListComma

/-- Reads the items of a list behind its bracket, which is left unread at the end. There are no more of
them than characters left. -/
def itemsFrom (item : Reader α) : List Char → Bool → Reader (List α)
  | [], _ => failHere .endInList
  | _ :: f, first => do
    if ← nextItem first then
      let x ← item
      return x :: (← itemsFrom item f false)
    else return []

def items (item : Reader α) : Reader (List α) := do itemsFrom item (← remaining) true

/-- Whether another key of an object comes; the comma before it and the quote that opens it are
passed. -/
def nextKey (first : Bool) : Reader Bool := do
  match ← peekToken with
  | none => failHere .endInObject
  | some '\x7d' => return false
  | some x =>
    let next : Option Char ←
      if x = ',' && !first then do
        advance
        peekToken
      else if first then pure (some x)
      else failNext .expectedObjectComma
    match next with
    | some '"' => advance; return true
    | some '\x7d' => failNext .trailingComma
    | some _ => failNext .keyNotString
    | none => failHere .endInValue

def colon : Reader Unit := do
  match ← peekToken with
  | some ':' => advance
  | some _ => failNext .expectedColon
  | none => failHere .endInObject

/-- Reads the entries of an object behind its brace, which is left unread at the end: a state goes
from entry to entry, and each entry is read behind its key. -/
def entriesFrom (entry : String → σ → Reader σ) : List Char → Bool → σ → Reader σ
  | [], _, _ => failHere .endInObject
  | _ :: f, first, s => do
    if ← nextKey first then
      let key ← text
      let s ← entry key s
      entriesFrom entry f false s
    else return s

def entries (entry : String → σ → Reader σ) (s : σ) : Reader σ := do
  entriesFrom entry (← remaining) true s

/-- Passes the end of a list, and says how far it came and whether it failed. -/
def closeList (c : Cursor) : Cursor × Option Failure :=
  let c := c.skipSpace
  match c.rest with
  | ']' :: _ => (c.next, none)
  | ',' :: _ =>
    let c := c.next.skipSpace
    (c, some (c.failNext (if c.rest.head? = some ']' then .trailingComma else .trailingCharacters)))
  | _ :: _ => (c, some (c.failNext .trailingCharacters))
  | [] => (c, some (c.failHere .endInList))

def closeObject (c : Cursor) : Cursor × Option Failure :=
  let c := c.skipSpace
  match c.rest with
  | '\x7d' :: _ => (c.next, none)
  | ',' :: _ => (c, some (c.failNext .trailingComma))
  | _ :: _ => (c, some (c.failNext .trailingCharacters))
  | [] => (c, some (c.failHere .endInObject))

def enclosed (close : Cursor → Cursor × Option Failure) (body : Reader α) : Reader α := fun c =>
  match body c.next with
  | .ok (x, c) =>
    match close c with
    | (c, none) => .ok (x, c)
    | (_, some failure) => .error failure
  | .error (.unplaced p c) => .error ((close c).1.failHere p)
  | .error failure => .error failure

end Footprint.Json
