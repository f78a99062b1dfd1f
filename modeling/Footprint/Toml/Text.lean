import Footprint.Text.Digits
import Footprint.Toml.Line

/-!
Strings and keys of TOML. A string between three quotes may span lines; its line breaks are line
feeds, however they are written.
-/

namespace Footprint.Toml

open Text

def letterEscape? : Char → Option Char
  | '"' => some '"'
  | '\\' => some '\\'
  | 'b' => some '\x08'
  | 'f' => some '\x0c'
  | 'n' => some '\n'
  | 'r' => some '\r'
  | 't' => some '\t'
  | _ => none

def hexEscape? (ds : List Char) : Option Char :=
  if ds.all isHex then charOf? (digitsValue 16 ds) else none

/-- A character before the rest of what is read. -/
def prepend (c : Char) : Option (List Char × List Char) → Option (List Char × List Char) :=
  Option.map fun (text, rest) => (c :: text, rest)

/-- Reads the rest of a basic string: its text, and what follows the quote that closes it. -/
def basicFrom : List Char → Option (List Char × List Char)
  | [] => none
  | c :: cs =>
    if c = '"' then some ([], cs)
    else if c = '\\' then
      match cs with
      | 'u' :: d₁ :: d₂ :: d₃ :: d₄ :: cs =>
        (hexEscape? [d₁, d₂, d₃, d₄]).bind fun x => prepend x (basicFrom cs)
      | 'U' :: d₁ :: d₂ :: d₃ :: d₄ :: d₅ :: d₆ :: d₇ :: d₈ :: cs =>
        (hexEscape? [d₁, d₂, d₃, d₄, d₅, d₆, d₇, d₈]).bind fun x => prepend x (basicFrom cs)
      | e :: cs => (letterEscape? e).bind fun x => prepend x (basicFrom cs)
      | [] => none
    else if isVerbatim c then prepend c (basicFrom cs)
    else none

def literalFrom : List Char → Option (List Char × List Char)
  | [] => none
  | c :: cs =>
    if c = '\'' then some ([], cs)
    else if isVerbatim c then prepend c (literalFrom cs)
    else none

/-- What follows three quotes: up to two more are text. -/
def closing (quote : Char) : List Char → List Char × List Char
  | c :: d :: cs =>
    if c = quote then
      if d = quote then ([c, d], cs) else ([c], d :: cs)
    else ([], c :: d :: cs)
  | [c] => if c = quote then ([c], []) else ([], [c])
  | [] => ([], [])

/-- The rest behind a backslash that joins lines: it ends a line, and the blanks and line breaks behind
it do not count. -/
def afterJoin? (cs : List Char) : Option (List Char) :=
  (afterBreak? (cs.dropWhile isBlank)).map fun cs => dropBlankLines cs
where
  dropBlankLines : List Char → List Char
    | [] => []
    | c :: cs =>
      if isBlank c || c == '\n' then dropBlankLines cs
      else if c = '\r' then
        match cs with
        | '\n' :: cs => dropBlankLines cs
        | _ => c :: cs
      else c :: cs

/-- Reads the rest of a basic string of several lines. The fuel bounds the number of characters. -/
def longBasicFrom : Nat → List Char → Option (List Char × List Char)
  | 0, _ => none
  | _ + 1, [] => none
  | f + 1, c :: cs =>
    match c, cs with
    | '"', '"' :: '"' :: cs => some (closing '"' cs)
    | '\\', 'u' :: d₁ :: d₂ :: d₃ :: d₄ :: cs =>
      (hexEscape? [d₁, d₂, d₃, d₄]).bind fun x => prepend x (longBasicFrom f cs)
    | '\\', 'U' :: d₁ :: d₂ :: d₃ :: d₄ :: d₅ :: d₆ :: d₇ :: d₈ :: cs =>
      (hexEscape? [d₁, d₂, d₃, d₄, d₅, d₆, d₇, d₈]).bind fun x => prepend x (longBasicFrom f cs)
    | '\\', cs =>
      match afterJoin? cs, cs with
      | some cs, _ => longBasicFrom f cs
      | none, e :: cs => (letterEscape? e).bind fun x => prepend x (longBasicFrom f cs)
      | none, [] => none
    | '\r', '\n' :: cs => prepend '\n' (longBasicFrom f cs)
    | c, cs => if c = '\n' || isVerbatim c then prepend c (longBasicFrom f cs) else none

def longLiteralFrom : List Char → Option (List Char × List Char)
  | [] => none
  | c :: cs =>
    match c, cs with
    | '\'', '\'' :: '\'' :: cs => some (closing '\'' cs)
    | '\r', '\n' :: cs => prepend '\n' (longLiteralFrom cs)
    | c, cs => if c = '\n' || isVerbatim c then prepend c (longLiteralFrom cs) else none

/-- A line break that follows three quotes at once does not count. -/
def dropBreak (cs : List Char) : List Char := (afterBreak? cs).getD cs

def shortText? : List Char → Option (List Char × List Char)
  | '"' :: cs => basicFrom cs
  | '\'' :: cs => literalFrom cs
  | _ => none

def text? : List Char → Option (List Char × List Char)
  | '"' :: '"' :: '"' :: cs => longBasicFrom (cs.length + 1) (dropBreak cs)
  | '\'' :: '\'' :: '\'' :: cs => longLiteralFrom (dropBreak cs)
  | cs => shortText? cs

def asString (read? : List Char → Option (List Char × List Char)) : Reader String := fun cs =>
  (read? cs).map fun (text, rest) => (String.ofList text, rest)

def text : Reader String := asString text?

/-- Whether a character may stand in a key without quotes. -/
def isBare (c : Char) : Bool :=
  isDigit c || ('a' ≤ c && c ≤ 'z') || ('A' ≤ c && c ≤ 'Z') || c == '_' || c == '-'

def keyPart : Reader String := asString fun cs =>
  match cs with
  | '"' :: _ | '\'' :: _ => shortText? cs
  | _ => if cs.takeWhile isBare = [] then none else some (cs.takeWhile isBare, cs.dropWhile isBare)

/-- Keys and values nest less deep than this. -/
def depthLimit : Nat := 80

/-- Reads the parts of a key, with blanks around each. The fuel bounds their number. -/
def keyFrom : Nat → Reader (List String)
  | 0 => failure
  | f + 1 => do
    skipBlanks
    let part ← keyPart
    skipBlanks
    if (← peek) = some '.' then
      pass '.'
      return part :: (← keyFrom f)
    else return [part]

def key : Reader (List String) := keyFrom (depthLimit - 1)

end Footprint.Toml
