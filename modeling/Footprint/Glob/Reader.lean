import Footprint.Glob

/-!
Reading globs. Braces hold branches and nest, a backslash takes the next character literally, and two
stars count as directories only if they are a whole part of the path.
-/

namespace Footprint.Glob

inductive Problem where
  | unclosedClass
  | invalidRange (lo hi : Char)
  | unopenedGroup | unclosedGroup
  | danglingEscape
  deriving DecidableEq, Repr

def Problem.message : Problem → String
  | unclosedClass => "unclosed character class; missing ']'"
  | invalidRange lo hi => "invalid range; '" ++ lo.toString ++ "' > '" ++ hi.toString ++ "'"
  | unopenedGroup => "unopened alternate group; missing '\x7b' (maybe escape '\x7d' with '[\x7d]'?)"
  | unclosedGroup => "unclosed alternate group; missing '\x7d' (maybe escape '\x7b' with '[\x7b]'?)"
  | danglingEscape => "dangling '\\'"

structure Error where
  text : String
  problem : Problem
  deriving DecidableEq, Repr

def Error.message (e : Error) : String :=
  "error parsing glob '" ++ e.text ++ "': " ++ e.problem.message

/-- Reads a character class behind its bracket and a sign. `first` holds for the first character, which
is never the end, and `pending` if a hyphen waits for the end of its range. The ranges come last first.
Nothing is read if the class has no end. -/
def readRanges : (first pending : Bool) → List (Char × Char) → List Char →
    Except Problem (Option (List (Char × Char) × List Char))
  | _, _, _, [] => .ok none
  | first, pending, ranges, c :: cs =>
    if c = ']' ∧ first = false then
      .ok (some ((if pending then ('-', '-') :: ranges else ranges).reverse, cs))
    else if pending then
      match ranges with
      | (lo, _) :: ranges =>
        if c < lo then .error (.invalidRange lo c)
        else readRanges false false ((lo, c) :: ranges) cs
      | [] => readRanges false false [(c, c)] cs
    else if c = '-' ∧ first = false then readRanges false true ranges cs
    else readRanges false false ((c, c) :: ranges) cs

def readClass (cs : List Char) : Except Problem (Option (Piece × List Char)) :=
  let negated := cs.head? = some '!' ∨ cs.head? = some '^'
  match readRanges true false [] (if negated then cs.tail else cs) with
  | .ok (some (ranges, rest)) => .ok (some (.oneOf negated ranges, rest))
  | .ok none => .ok none
  | .error p => .error p

structure Draft where
  /-- The pieces of the innermost branch, last first. -/
  pieces : List Piece := []
  /-- The open groups, innermost first: their branches that are read already, last first, and the
  pieces before them. -/
  groups : List (List (List Piece) × List Piece) := []

def Draft.push (d : Draft) (p : Piece) : Draft := { d with pieces := p :: d.pieces }

def Draft.opened (d : Draft) : Draft := ⟨[], ([], d.pieces) :: d.groups⟩

/-- Two stars behind a slash take its place. -/
def Draft.pushDirectories (d : Draft) (atEnd : Bool) : Draft :=
  match d.pieces with
  | .leading :: _ | .trailing :: _ => d
  | _ :: ps => { d with pieces := (if atEnd then .trailing else .between) :: ps }
  | [] => d

inductive Stars where
  /-- Directories; the slash behind them is passed. -/
  | directories (rest : List Char)
  /-- All that is left. -/
  | end_
  /-- Two single stars. -/
  | plain

/-- What two stars stand for, from what is read, the character before them and those behind. -/
def stars (d : Draft) (before : Option Char) (cs : List Char) : Stars :=
  let wholePart := before = some '/' ∨
    (d.groups ≠ [] ∧ (before = some ',' ∨ before = some '{'))
  if d.pieces.isEmpty then
    match cs with
    | [] => .end_
    | c :: cs => if c = '/' then .directories cs else .plain
  else if wholePart then
    match cs with
    | [] => .end_
    | c :: rest =>
      if c = '/' then .directories rest
      else if (c = ',' ∨ c = '}') ∧ d.groups ≠ [] then .end_
      else .plain
  else .plain

/-- Reads the rest of a glob behind a character. In `lenient` reading a class without an end is no class,
and after it brackets are plain characters. The fuel bounds the number of characters. -/
def readFrom : Nat → (lenient brackets : Bool) → Option Char → Draft → List Char → Except Problem Draft
  | 0, _, _, _, d, _ => .ok d
  | _ + 1, _, _, _, d, [] => .ok d
  | f + 1, lenient, brackets, before, d, c :: cs =>
    let read := readFrom f lenient brackets
    if c = '?' then read (some c) (d.push .any) cs
    else if c = '*' then
      match cs with
      | '*' :: cs =>
        match stars d before cs with
        | .plain => read (some c) ((d.push .many).push .many) cs
        | .end_ =>
          read (some c) (if d.pieces.isEmpty then d.push .leading else d.pushDirectories true) cs
        | .directories cs =>
          read (some '/') (if d.pieces.isEmpty then d.push .leading else d.pushDirectories false) cs
      | _ => read (some c) (d.push .many) cs
    else if c = '[' ∧ brackets then
      match readClass cs with
      | .error p => .error p
      | .ok (some (piece, cs)) => read (some ']') (d.push piece) cs
      | .ok none =>
        if lenient then readFrom f lenient false (some c) (d.push (.literal c)) cs
        else .error .unclosedClass
    else if c = '{' then read (some c) d.opened cs
    else if c = '}' then
      match d.groups with
      | [] => .error .unopenedGroup
      | (branches, outer) :: groups =>
        read (some c) ⟨.either (d.pieces.reverse :: branches).reverse :: outer, groups⟩ cs
    else if c = ',' then
      match d.groups with
      | [] => read (some c) (d.push (.literal c)) cs
      | (branches, outer) :: groups =>
        read (some c) ⟨[], (d.pieces.reverse :: branches, outer) :: groups⟩ cs
    else if c = '\\' then
      match cs with
      | [] => .error .danglingEscape
      | x :: cs => read (some x) (d.push (.literal x)) cs
    else read (some c) (d.push (.literal c)) cs

def readPieces (lenient : Bool) (cs : List Char) : Except Problem (List Piece) :=
  match readFrom (cs.length + 1) lenient true none {} cs with
  | .error p => .error p
  | .ok d => if d.groups.isEmpty then .ok d.pieces.reverse else .error .unclosedGroup

/-- Reads a glob that is matched with whole paths. -/
def ofText (s : String) : Except Error Glob :=
  match readPieces false s.toList with
  | .ok pieces => .ok ⟨pieces, false⟩
  | .error p => .error ⟨s, p⟩

end Footprint.Glob
