import Footprint.Json.Cursor

/-!
JSON strings. Read as text, every escape has to stand for a character; passed over, an escape has only
to look like one.
-/

namespace Footprint.Json

open Text

def hexEscape : Reader Nat := fun c =>
  let digits := c.rest.take 4
  if byteLength digits < 4 then .error ((c.afterBytes 4 c.rest).failHere .endInString)
  else
    if digits.all isHex then
      .ok (digitsValue 16 digits, { c with rest := c.rest.drop 4, column := c.column + 4 })
    else .error ((c.afterBytes 4 c.rest).failHere .invalidEscape)

/-- The character that a letter behind a backslash stands for. -/
def simpleEscape? : Char → Option Char
  | '"' => some '"'
  | '\\' => some '\\'
  | '/' => some '/'
  | 'b' => some '\x08'
  | 'f' => some '\x0c'
  | 'n' => some '\n'
  | 'r' => some '\r'
  | 't' => some '\t'
  | _ => none

/-- Reads the character of a code escape: two escapes if the first is half of a surrogate pair. -/
def codeEscape : Reader Char := do
  let n ← hexEscape
  if 0xDC00 ≤ n && n ≤ 0xDFFF then failHere .loneSurrogate
  else if n < 0xD800 || 0xDBFF < n then return Char.ofNat n
  else
    match ← peek with
    | none => failHere .endInString
    | some x =>
      if x ≠ '\\' then failNext .missingSurrogate
      else
        advance
        match ← peek with
        | none => failHere .endInString
        | some x =>
          if x ≠ 'u' then failNext .missingSurrogate
          else
            advance
            let m ← hexEscape
            if m < 0xDC00 || 0xDFFF < m then failHere .loneSurrogate
            else return Char.ofNat ((n - 0xD800) * 0x400 + (m - 0xDC00) + 0x10000)

def escape : Reader Char := do
  match ← peek with
  | none => failHere .endInString
  | some 'u' => advance; codeEscape
  | some x =>
    match simpleEscape? x with
    | some y => advance; return y
    | none => failNext .invalidEscape

/-- Reads a string behind its opening quote, after characters already read, last first. -/
def textFrom : List Char → List Char → Reader (List Char)
  | [], _ => failHere .endInString
  | _ :: f, read => do
    match ← peek with
    | none => failHere .endInString
    | some '"' => advance; return read.reverse
    | some '\\' => do
      advance
      let x ← escape
      textFrom f (x :: read)
    | some x =>
      if x.toNat < 0x20 then failNext .controlCharacter
      else
        advance
        textFrom f (x :: read)

def text : Reader String := do return String.ofList (← textFrom (← remaining) [])

def skipEscape : Reader Unit := do
  match ← peek with
  | none => failHere .endInString
  | some 'u' => advance; let _ ← hexEscape; return
  | some x => if (simpleEscape? x).isSome then advance else failNext .invalidEscape

def skipTextFrom : List Char → Reader Unit
  | [] => failHere .endInString
  | _ :: f => do
    match ← peek with
    | none => failHere .endInString
    | some '"' => advance
    | some '\\' => do
      advance
      skipEscape
      skipTextFrom f
    | some x =>
      if x.toNat < 0x20 then failHere .controlCharacter
      else
        advance
        skipTextFrom f

def skipText : Reader Unit := do skipTextFrom (← remaining)

end Footprint.Json
