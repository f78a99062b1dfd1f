import Footprint.Json.Number

/-!
Writing documents as JSON text, on one line or with every item on a line of its own. The two layouts
differ in white space only.
-/

namespace Footprint.Json

structure Layout where
  /-- What stands before an item or a closing bracket at this depth. -/
  newline : Nat → List Char
  /-- What parts a key from its value. -/
  colon : List Char

namespace Layout

def compact : Layout := ⟨fun _ => [], [':']⟩

/-- Items are indented by two blanks a level. -/
def pretty : Layout := ⟨fun depth => '\n' :: List.replicate (2 * depth) ' ', [':', ' ']⟩

end Layout

def hexDigit (n : Nat) : Char := Nat.digitChar n

def escaped (c : Char) : List Char :=
  if c = '"' then ['\\', '"']
  else if c = '\\' then ['\\', '\\']
  else if c = '\x08' then ['\\', 'b']
  else if c = '\x0c' then ['\\', 'f']
  else if c = '\n' then ['\\', 'n']
  else if c = '\r' then ['\\', 'r']
  else if c = '\t' then ['\\', 't']
  else if c.toNat < 0x20 then
    ['\\', 'u', '0', '0', hexDigit (c.toNat / 16), hexDigit (c.toNat % 16)]
  else [c]

def printText (s : String) : List Char := '"' :: s.toList.flatMap escaped ++ ['"']

def printInteger (n : Int) : List Char := Decimal.sign (n < 0) ++ Decimal.digits n.natAbs

/-- A fraction, or `null` if it is not finite. -/
def printReal (f : Float) : List Char := ((numbers.write? (.ofFloat f)).getD "null").toList

mutual

def print (l : Layout) (depth : Nat) : Document → List Char
  | .null => ['n', 'u', 'l', 'l']
  | .bool true => ['t', 'r', 'u', 'e']
  | .bool false => ['f', 'a', 'l', 's', 'e']
  | .integer n => printInteger n
  | .real f => printReal f
  | .text s => printText s
  | .list [] => ['[', ']']
  | .list (d :: ds) =>
    '[' :: l.newline (depth + 1) ++ print l (depth + 1) d ++ printItems l (depth + 1) ds ++
      l.newline depth ++ [']']
  | .record [] => ['{', '}']
  | .record ((k, d) :: fs) =>
    '{' :: l.newline (depth + 1) ++ printText k ++ l.colon ++ print l (depth + 1) d ++
      printFields l (depth + 1) fs ++ l.newline depth ++ ['}']

def printItems (l : Layout) (depth : Nat) : List Document → List Char
  | [] => []
  | d :: ds => ',' :: l.newline depth ++ print l depth d ++ printItems l depth ds

def printFields (l : Layout) (depth : Nat) : List (String × Document) → List Char
  | [] => []
  | (k, d) :: fs =>
    ',' :: l.newline depth ++ printText k ++ l.colon ++ print l depth d ++ printFields l depth fs

end

end Json

def Document.toJson (l : Json.Layout) (d : Document) : String := String.ofList (Json.print l 0 d)

end Footprint
