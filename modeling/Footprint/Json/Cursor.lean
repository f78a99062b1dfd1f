import Footprint.Text.Digits

/-!
Reading JSON text: the place reached, the ways in which a text is no JSON of the expected shape, and
the smallest steps. Lines are counted from one, columns in UTF-8 bytes.
-/

namespace Footprint.Json

structure Cursor where
  rest : List Char
  line : Nat := 1
  column : Nat := 0
  deriving Repr

inductive Problem where
  | endInValue | endInList | endInObject | endInString
  | expectedColon | expectedListComma | expectedObjectComma | expectedWord | expectedValue
  | keyNotString | trailingComma | trailingCharacters
  | invalidNumber | numberOutOfRange | invalidEscape | controlCharacter
  | loneSurrogate | missingSurrogate | tooDeep
  | missingField (name : String)
  | duplicateField (name : String)
  | invalidLength (length : Nat) (expected : String)
  | invalidType (found expected : String)
  | noVariant (name : String)
  deriving DecidableEq, Repr

def Problem.message : Problem → String
  | endInValue => "EOF while parsing a value"
  | endInList => "EOF while parsing a list"
  | endInObject => "EOF while parsing an object"
  | endInString => "EOF while parsing a string"
  | expectedColon => "expected `:`"
  | expectedListComma => "expected `,` or `]`"
  | expectedObjectComma => "expected `,` or `\x7d`"
  | expectedWord => "expected ident"
  | expectedValue => "expected value"
  | keyNotString => "key must be a string"
  | trailingComma => "trailing comma"
  | trailingCharacters => "trailing characters"
  | invalidNumber => "invalid number"
  | numberOutOfRange => "number out of range"
  | invalidEscape => "invalid escape"
  | controlCharacter => "control character (\\u0000-\\u001F) found while parsing a string"
  | loneSurrogate => "lone leading surrogate in hex escape"
  | missingSurrogate => "unexpected end of hex escape"
  | tooDeep => "recursion limit exceeded"
  | missingField name => "missing field `" ++ name ++ "`"
  | duplicateField name => "duplicate field `" ++ name ++ "`"
  | invalidLength n expected => "invalid length " ++ toString n ++ ", expected " ++ expected
  | invalidType found expected => "invalid type: " ++ found ++ ", expected " ++ expected
  | noVariant name => "data did not match any variant of untagged enum " ++ name

/-- A problem with a place, or one that takes its place from the list or object around it. -/
inductive Failure where
  | placed (problem : Problem) (line column : Nat)
  | unplaced (problem : Problem) (reached : Cursor)
  deriving Repr

structure Error where
  problem : Problem
  line : Nat
  column : Nat
  deriving DecidableEq, Repr

def Error.message (e : Error) : String :=
  e.problem.message ++ " at line " ++ toString e.line ++ " column " ++ toString e.column

abbrev Reader := StateT Cursor (Except Failure)

namespace Cursor

def after (c : Cursor) (x : Char) : Cursor :=
  { c with
    line := if x = '\n' then c.line + 1 else c.line
    column := if x = '\n' then 0 else c.column + x.utf8Size }

def next (c : Cursor) : Cursor :=
  match c.rest with
  | x :: xs => { c.after x with rest := xs }
  | [] => c

def isSpace (x : Char) : Bool := x == ' ' || x == '\n' || x == '\t' || x == '\r'

def skipSpaceFrom (c : Cursor) : List Char → Cursor
  | x :: xs => if isSpace x then skipSpaceFrom (c.after x) xs else { c with rest := x :: xs }
  | [] => { c with rest := [] }

def skipSpace (c : Cursor) : Cursor := c.skipSpaceFrom c.rest

def failHere (c : Cursor) (p : Problem) : Failure := .placed p c.line c.column

def failNext (c : Cursor) (p : Problem) : Failure :=
  match c.rest with
  | '\n' :: _ => .placed p (c.line + 1) 0
  | _ :: _ => .placed p c.line (c.column + 1)
  | [] => .placed p c.line c.column

/-- The cursor so many bytes further on, as far as a place can tell. -/
def afterBytes : Nat → List Char → Cursor → Cursor
  | _, [], c => c
  | n, x :: xs, c =>
    if n = 0 then c
    else if x.utf8Size ≤ n then afterBytes (n - x.utf8Size) xs (c.after x)
    else { c with column := c.column + n }

end Cursor

def failHere (p : Problem) : Reader α := fun c => .error (c.failHere p)

def failNext (p : Problem) : Reader α := fun c => .error (c.failNext p)

def failUnplaced (p : Problem) : Reader α := fun c => .error (.unplaced p c)

def peek : Reader (Option Char) := fun c => .ok (c.rest.head?, c)

def peekToken : Reader (Option Char) := do
  modify Cursor.skipSpace
  peek

def advance : Reader Unit := modify Cursor.next

/-- The characters that are left. A loop that passes one at least each time it goes round can go round
no more often than there are. -/
def remaining : Reader (List Char) := fun c => .ok (c.rest, c)

def word : List Char → Reader Unit
  | [] => pure ()
  | x :: xs => do
    match ← peek with
    | some y => if y = x then advance; word xs else failNext .expectedWord
    | none => failHere .endInValue

def Failure.error : Failure → Error
  | placed p line column => ⟨p, line, column⟩
  | unplaced p c => ⟨p, c.line, c.column⟩

def run (r : Reader α) (s : String) : Except Error α :=
  match r { rest := s.toList } with
  | .ok (x, _) => .ok x
  | .error f => .error f.error

end Footprint.Json
