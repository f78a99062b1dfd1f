import Footprint.Text.Split

/-!
Paths as texts: parts between slashes, of which empty ones and inner dots do not count.
-/

namespace Footprint

structure Path where
  text : String
  deriving DecidableEq, Repr

namespace Path

def parts (p : Path) : List (List Char) := Text.split '/' p.text.toList

inductive Component where
  | root
  /-- The dot that a path begins with. -/
  | here
  | up
  | name (text : String)
  deriving DecidableEq, Repr

def isAbsolute (p : Path) : Bool := p.text.toList.head? = some '/'

/-- The component of a part, if it counts wherever it stands. -/
def component? (part : List Char) : Option Component :=
  if part = [] ∨ part = ['.'] then none
  else if part = ['.', '.'] then some .up
  else some (.name (String.ofList part))

def components (p : Path) : List Component :=
  let named := p.parts.filterMap component?
  if p.isAbsolute then .root :: named
  else if p.parts.head? = some ['.'] then .here :: named
  else named

def startsWith (p q : Path) : Bool := q.components.isPrefixOf p.components

def join (p q : Path) : Path :=
  if q.isAbsolute then q
  else if p.text = "" ∨ p.text.toList.getLast? = some '/' then ⟨p.text ++ q.text⟩
  else ⟨p.text ++ "/" ++ q.text⟩

def below (p : Path) (names : List String) : Path := names.foldl (fun p n => p.join ⟨n⟩) p

def Component.text : Component → String
  | root => ""
  | here => "."
  | up => ".."
  | name s => s

def relativeTo? (p root : Path) : Option Path :=
  if p.startsWith root then
    some ⟨"/".intercalate ((p.components.drop root.components.length).map Component.text)⟩
  else none

def fileName? (p : Path) : Option String :=
  match p.components.getLast? with
  | some (.name s) => some s
  | _ => none

/-- What follows the last dot of the last name, unless that dot begins the name. -/
def extension? (p : Path) : Option String :=
  p.fileName?.bind fun s =>
    let (after, before) := s.toList.reverse.span (· ≠ '.')
    match before with
    | _ :: _ :: _ => some (String.ofList after.reverse)
    | _ => none

/-- Texts of the path without its last part that counts, without the last two, and so on; the last one
is empty. The path is relative. -/
def parents (p : Path) : List Path :=
  let counts (i : Nat) (part : List Char) : Bool := part ≠ [] && (i = 0 || part ≠ ['.'])
  let ends := (p.parts.zipIdx.filter fun (part, i) => counts i part).map Prod.snd
  let shorter := ends.reverse.tail.map fun i => (⟨String.ofList (Text.joinBy '/' (p.parts.take (i + 1)))⟩ : Path)
  if ends.isEmpty then [] else shorter ++ [⟨""⟩]

end Path

end Footprint
