import Footprint.Json.Number
import Footprint.Json.Structure
import Footprint.Text.Quoted

/-!
JSON values: read as documents up to a depth, or passed over at any depth.
-/

namespace Footprint.Json

open Text (isDigit)

def value : Nat → Reader Document
  | 0 => failNext .tooDeep
  | depth + 1 => do
    match ← peekToken with
    | none => failHere .endInValue
    | some 'n' => advance; word ['u', 'l', 'l']; return .null
    | some 't' => advance; word ['r', 'u', 'e']; return .bool true
    | some 'f' => advance; word ['a', 'l', 's', 'e']; return .bool false
    | some '-' => advance; number false
    | some '"' => do
      advance
      return .text (← text)
    | some '[' =>
      if depth = 0 then failNext .tooDeep
      else return .list (← enclosed closeList (items (value depth)))
    | some '\x7b' =>
      if depth = 0 then failNext .tooDeep
      else
        let field (key : String) (fields : List (String × Document)) : Reader (List (String × Document)) := do
          colon
          return (key, ← value depth) :: fields
        return .record (← enclosed closeObject (entries field [])).reverse
    | some x => if isDigit x then number true else failNext .expectedValue

/-- What a value that is passed over stands in. -/
inductive Frame where
  | list | object
  deriving DecidableEq, Repr

def Frame.closes : Frame → Char → Bool
  | list, x => x == ']'
  | object, x => x == '\x7d'

/-- Passes a value that is no list or object; for one of these, passes its opening bracket. -/
def skipScalar : Reader (Option Frame) := do
  match ← peekToken with
  | none => failHere .endInValue
  | some 'n' => advance; word ['u', 'l', 'l']; return none
  | some 't' => advance; word ['r', 'u', 'e']; return none
  | some 'f' => advance; word ['a', 'l', 's', 'e']; return none
  | some '-' => advance; skipNumber; return none
  | some '"' => advance; skipText; return none
  | some '[' => advance; return some .list
  | some '\x7b' => advance; return some .object
  | some x =>
    if isDigit x then
      skipNumber
      return none
    else failNext .expectedValue

/-- Closes frames as far as they are closed here, and passes the comma before the next item. The frames
left are those around that item; none is left behind the outermost value. -/
def closeFrames : (full : Bool) → List Frame → Reader (List Frame)
  | _, [] => return []
  | full, frame :: frames => do
    match ← peekToken with
    | none => failHere (match frame with | .list => .endInList | .object => .endInObject)
    | some x =>
      if x = ',' && full then
        advance
        return frame :: frames
      else if frame.closes x then
        advance
        closeFrames true frames
      else if full then failNext (match frame with | .list => .expectedListComma | .object => .expectedObjectComma)
      else return frame :: frames

def skipKey : Frame → Reader Unit
  | .list => return
  | .object => do
    match ← peekToken with
    | some '"' => advance; skipText; colon
    | some _ => failNext .keyNotString
    | none => failHere .endInObject

/-- Passes the rest of a value inside frames, the innermost first. -/
def skipFrom : List Char → List Frame → Reader Unit
  | [], _ => failHere .endInValue
  | _ :: f, frames => do
    let opened ← skipScalar
    let frames ← closeFrames opened.isNone (opened.toList ++ frames)
    match frames with
    | [] => return
    | frame :: _ => do
      skipKey frame
      skipFrom f frames

def skip : Reader Unit := do skipFrom (← remaining) []

/-- What stands where something else was expected. -/
def describe : Document → String
  | .null => "null"
  | .bool b => "boolean `" ++ toString b ++ "`"
  | .integer n => "integer `" ++ toString n ++ "`"
  | .real f => "floating point `" ++ (numbers.write? (.ofFloat f)).getD "" ++ "`"
  | .text s => "string " ++ Text.quoted s
  | .list _ => "sequence"
  | .record _ => "map"

/-- Refuses the next value, which is not of the shape expected. Only a scalar is read before that. -/
def mismatch (expected : String) : Reader α := do
  let refuse (found : Document) : Reader α := failHere (.invalidType (describe found) expected)
  match ← peekToken with
  | none => failHere .endInValue
  | some 'n' => advance; word ['u', 'l', 'l']; refuse .null
  | some 't' => advance; word ['r', 'u', 'e']; refuse (.bool true)
  | some 'f' => advance; word ['a', 'l', 's', 'e']; refuse (.bool false)
  | some '-' => do
    advance
    refuse (← number false)
  | some '"' => do
    advance
    refuse (.text (← text))
  | some '[' => refuse (.list [])
  | some '\x7b' => refuse (.record [])
  | some x =>
    if isDigit x then do
      refuse (← number true)
    else failNext .expectedValue

def depthLimit : Nat := 128

def atEnd : Reader Unit := do
  match ← peekToken with
  | none => return
  | some _ => failNext .trailingCharacters

end Json

def Document.ofJson (s : String) : Except Json.Error Document :=
  Json.run (do let d ← Json.value Json.depthLimit; Json.atEnd; return d) s

end Footprint
