import Footprint.Glob.Reader
import Footprint.Text.Blank

/-!
Ignore rules, one to a line. A rule holds for a path as a whole if it has a slash that is not its last
character, else for names in any directory. A rule with an exclamation mark keeps what it matches.
-/

namespace Footprint

structure IgnoreRule where
  glob : Glob
  /-- Whether paths that match are kept. -/
  keeps : Bool
  onlyDirectories : Bool
  deriving Repr

namespace IgnoreRule

/-- Drops blanks at the end of a line, unless the last one stands behind a backslash. -/
def trimEnd (cs : List Char) : List Char :=
  if ['\\', ' '].isSuffixOf cs then cs else (cs.reverse.dropWhile Text.isBlank).reverse

/-- The marks at the head of a line: whether it keeps, and whether it begins at the root. -/
def takeMarks : List Char → Bool × Bool × List Char
  | '\\' :: '!' :: cs => (false, false, '!' :: cs)
  | '\\' :: '#' :: cs => (false, false, '#' :: cs)
  | '!' :: '/' :: cs => (true, true, cs)
  | '!' :: cs => (true, false, cs)
  | '/' :: cs => (false, true, cs)
  | cs => (false, false, cs)

/-- The slash at the end, with a backslash before it: whether there is one. -/
def takeSlash (cs : List Char) : Bool × List Char :=
  match cs.reverse with
  | '/' :: '\\' :: ds => (true, ds.reverse)
  | '/' :: ds => (true, ds.reverse)
  | _ => (false, cs)

/-- A glob without slashes matches in any directory. -/
def anywhere (atRoot : Bool) (cs : List Char) : List Char :=
  if atRoot || cs.contains '/' || cs = ['*', '*'] then cs else '*' :: '*' :: '/' :: cs

/-- Two stars at the end match what a directory holds, and not the directory. -/
def withinLast (cs : List Char) : List Char :=
  if ['/', '*', '*'].isSuffixOf cs then cs ++ ['/', '*'] else cs

/-- The rule in a line that is neither blank nor a comment. -/
def ofText (cs : List Char) : Except Glob.Error IgnoreRule :=
  let (keeps, atRoot, body) := takeMarks cs
  let (onlyDirectories, body) := takeSlash body
  match Glob.readPieces true (withinLast (anywhere atRoot body)) with
  | .ok pieces => .ok ⟨⟨pieces, true⟩, keeps, onlyDirectories⟩
  | .error p => .error ⟨String.ofList cs, p⟩

def ofLine (line : String) : Except Glob.Error (Option IgnoreRule) :=
  let cs := line.toList
  if cs.head? = some '#' ∨ trimEnd cs = [] then .ok none else some <$> ofText (trimEnd cs)

def holdsFor (r : IgnoreRule) (path : String) (isDirectory : Bool) : Bool :=
  r.glob.isMatch path && (isDirectory || !r.onlyDirectories)

end IgnoreRule

end Footprint
