/-!
What stands between the tokens of TOML text: blanks, comments and line breaks. A carriage return is
part of a line break or an error.
-/

namespace Footprint.Toml

/-- Reads from the head of a text, and leaves the rest. -/
abbrev Reader := StateT (List Char) Option

def peek : Reader (Option Char) := fun cs => some (cs.head?, cs)

def pass (x : Char) : Reader Unit := fun
  | c :: cs => if c = x then some ((), cs) else none
  | [] => none

def isBlank (c : Char) : Bool := c == ' ' || c == '\t'

/-- Whether a comment or a string may hold a character as it is. -/
def isVerbatim (c : Char) : Bool := c == '\t' || (' ' ≤ c && c != '\x7f')

def skipBlanks : Reader Unit := modify (·.dropWhile isBlank)

def afterBreak? : List Char → Option (List Char)
  | '\n' :: cs => some cs
  | '\r' :: '\n' :: cs => some cs
  | _ => none

def dropComment : List Char → List Char
  | '#' :: cs => cs.dropWhile isVerbatim
  | cs => cs

/-- Passes the rest of a line, on which only a comment may stand. -/
def lineEnd : Reader Unit := fun cs =>
  match dropComment (cs.dropWhile isBlank) with
  | [] => some ((), [])
  | cs => (afterBreak? cs).map ((), ·)

/-- Drops blanks, line breaks and comments, first those of a comment that is open. -/
def dropLayout : (inComment : Bool) → List Char → List Char
  | _, [] => []
  | inComment, c :: cs =>
    if c = '\n' then dropLayout false cs
    else if c = '\r' then
      match cs with
      | '\n' :: cs => dropLayout false cs
      | _ => c :: cs
    else if inComment then
      if isVerbatim c then dropLayout true cs else c :: cs
    else if isBlank c then dropLayout false cs
    else if c = '#' then dropLayout true cs
    else c :: cs

def skipLayout : Reader Unit := modify (dropLayout false)

end Footprint.Toml
