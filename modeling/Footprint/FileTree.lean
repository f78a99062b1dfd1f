import Footprint.Path

/-!
File trees: a working directory with everything in it, and what happens when a path is followed in
it. Nothing but the tree exists. Links are followed at most forty times.
-/

namespace Footprint

inductive Content where
  | text (s : String)
  | bytes (bs : List UInt8)
  deriving DecidableEq

namespace Content

def text? : Content → Option String
  | text s => some s
  | bytes bs => String.fromUTF8? ⟨bs.toArray⟩

def ofBytes (bs : List UInt8) : Content :=
  match String.fromUTF8? ⟨bs.toArray⟩ with
  | some s => text s
  | none => bytes bs

def toBytes : Content → List UInt8
  | text s => s.toList.flatMap String.utf8EncodeChar
  | bytes bs => bs

/-- The lines of a file; nothing stands for one that is no text. -/
def lines : Content → List (Option String)
  | text s => (Text.lines '\n' '\r' s.toList).map fun line => some (String.ofList line)
  | bytes bs => (Text.lines 0x0A 0x0D bs).map fun line => String.fromUTF8? ⟨line.toArray⟩

end Content

inductive Entry where
  | file (content : Content)
  | link (target : Path)
  | directory (entries : List (String × Entry))

inductive FileError where
  | missing | notDirectory | isDirectory | tooManyLinks | nameTooLong | nulInName
  /-- The bytes are no text. -/
  | notText
  deriving DecidableEq, Repr

def FileError.message : FileError → String
  | missing => "No such file or directory (os error 2)"
  | notDirectory => "Not a directory (os error 20)"
  | isDirectory => "Is a directory (os error 21)"
  | tooManyLinks => "Too many levels of symbolic links (os error 40)"
  | nameTooLong => "File name too long (os error 36)"
  | nulInName => "file name contained an unexpected NUL byte"
  | notText => "stream did not contain valid UTF-8"

/-- The entries of the working directory. -/
structure FileTree where
  entries : List (String × Entry)

namespace Entry

def child? (e : Entry) (name : String) : Option Entry :=
  match e with
  | directory entries => entries.lookup name
  | _ => none

/-- Puts an entry in the place of the one of its name, or behind all others. -/
def put (name : String) (e : Entry) : List (String × Entry) → List (String × Entry)
  | [] => [(name, e)]
  | (n, e') :: es => if n = name then (n, e) :: es else (n, e') :: put name e es

/-- Puts an entry at the end of names below another one. Directories that are missing are created. -/
def replace (new : Entry) : List String → Entry → Entry
  | [], _ => new
  | n :: ns, directory entries =>
    directory (put n (replace new ns ((entries.lookup n).getD (directory []))) entries)
  | _ :: _, e => e

end Entry

namespace FileTree

def root (t : FileTree) : Entry := .directory t.entries

/-- The entry at the end of names, which are no links. -/
def at? (t : FileTree) (names : List String) : Option Entry :=
  names.foldl (fun e n => e.bind (·.child? n)) (some t.root)

def replace (t : FileTree) (names : List String) (new : Entry) : FileTree :=
  match Entry.replace new names t.root with
  | .directory entries => ⟨entries⟩
  | _ => t

inductive Place where
  /-- An entry, at the end of these names. -/
  | found (names : List String) (entry : Entry)
  /-- A name that a directory does not hold. -/
  | vacant (directory : List String) (name : String)

inductive Step where
  | here | up
  | child (name : String)
  deriving DecidableEq, Repr

/-- Empty parts are no steps; a slash at the end asks for a directory. -/
def steps (p : Path) : List Step :=
  let step? (part : List Char) : Option Step :=
    if part = [] then none
    else if part = ['.'] then some .here
    else if part = ['.', '.'] then some .up
    else some (.child (String.ofList part))
  p.parts.filterMap step? ++ if p.parts.getLast? = some [] ∧ p.text ≠ "" then [.here] else []

/-- Goes on from a directory. A link that is not the end, or that is to be followed there, is left to
`onLink`. -/
def walkFrom (t : FileTree) (follow : Bool)
    (onLink : List String → Path → List Step → Except FileError Place) :
    List String → List Step → Except FileError Place
  | names, [] =>
    match t.at? names with
    | some e => .ok (.found names e)
    | none => .error .missing
  | names, .here :: ss => walkFrom t follow onLink names ss
  | names, .up :: ss => walkFrom t follow onLink names.dropLast ss
  | names, .child n :: ss =>
    if 255 < n.utf8ByteSize then .error .nameTooLong
    else
      match (t.at? names).bind (·.child? n) with
      | none => if ss.isEmpty then .ok (.vacant names n) else .error .missing
      | some (.directory _) => walkFrom t follow onLink (names ++ [n]) ss
      | some (.file c) =>
        if ss.isEmpty then .ok (.found (names ++ [n]) (.file c)) else .error .notDirectory
      | some (.link target) =>
        if ss.isEmpty && !follow then .ok (.found (names ++ [n]) (.link target))
        else onLink names target ss

def locateFrom (t : FileTree) (follow : Bool) : Nat → List String → List Step → Except FileError Place
  | 0 => walkFrom t follow fun _ _ _ => .error .tooManyLinks
  | links + 1 =>
    walkFrom t follow fun names target ss =>
      if target.isAbsolute || target.text = "" then .error .missing
      else locateFrom t follow links names (steps target ++ ss)

def linkLimit : Nat := 40

/-- Where a path leads, a link at its end being followed or not. -/
def locate (t : FileTree) (follow : Bool) (p : Path) : Except FileError Place :=
  if p.text.toList.contains '\x00' then .error .nulInName
  else if p.text = "" || p.isAbsolute then .error .missing
  else locateFrom t follow linkLimit [] (steps p)

def entry (t : FileTree) (follow : Bool) (p : Path) : Except FileError Entry :=
  match t.locate follow p with
  | .ok (.found _ e) => .ok e
  | .ok (.vacant _ _) => .error .missing
  | .error e => .error e

def exists? (t : FileTree) (p : Path) : Bool := (t.entry true p).toBool

def isDirectory (t : FileTree) (p : Path) : Bool := t.entry true p matches .ok (.directory _)

def read (t : FileTree) (p : Path) : Except FileError Content :=
  match t.entry true p with
  | .ok (.file c) => .ok c
  | .ok _ => .error .isDirectory
  | .error e => .error e

def readText (t : FileTree) (p : Path) : Except FileError String :=
  match t.read p with
  | .ok c =>
    match c.text? with
    | some s => .ok s
    | none => .error .notText
  | .error e => .error e

/-- Where a file to be written lies. A name with a slash behind it is never a file. -/
def target (t : FileTree) (p : Path) : Except FileError Place :=
  match t.locate true p, (steps p).reverse, p.text.toList.getLast? with
  | .error e, .here :: .child _ :: ss, some '/' =>
    match locateFrom t true linkLimit [] ss.reverse with
    | .ok (.found _ (.directory _)) => .error .isDirectory
    | _ => .error e
  | place, _, _ => place

/-- Makes a text all that the file at a path holds. The file is created if only its name is missing. -/
def write (t : FileTree) (p : Path) (s : String) : Except FileError FileTree :=
  match t.target p with
  | .ok (.found names (.file _)) => .ok (t.replace names (.file (.text s)))
  | .ok (.found _ _) => .error .isDirectory
  | .ok (.vacant names n) => .ok (t.replace (names ++ [n]) (.file (.text s)))
  | .error e => .error e

/-- Puts an entry at a path of names, whose directories are created. -/
def add (t : FileTree) (p : Path) (e : Entry) : FileTree :=
  t.replace (p.components.filterMap fun c => match c with | .name n => some n | _ => none) e

def makeDirectory (t : FileTree) (p : Path) : FileTree :=
  if t.isDirectory p then t else t.add p (.directory [])

end FileTree

end Footprint
