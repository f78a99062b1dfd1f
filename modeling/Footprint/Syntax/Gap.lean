import Footprint.Syntax.Tree

/-!
The gap before a token: blanks, line breaks, comments and explicit line joins. Scanning a gap collects
its comments and joins and notes how far each comment or token that comes first on its line is
indented; what a line break means is decided by the grammar.
-/

namespace Footprint.Syntax

structure Gap where
  /-- Comments and line joins, in order. -/
  extras : List Tree := []
  /-- Indentation of each comment, and last of the next token, that follows a line break. -/
  stops : List Nat := []
  /-- What follows the gap. -/
  rest : List Char
  here : Position

def isFormatBlank (c : Char) : Bool :=
  c == '\uFEFF' || c == '\u2060' || c == '\u200B'

def isStringPrefix (c : Char) : Bool :=
  c == 'r' || c == 'R' || c == 'u' || c == 'U' || c == 'b' || c == 'B' || c == 'f' || c == 'F'

def isQuoteMark (c : Char) : Bool :=
  c == '\'' || c == '"' || c == '`'

def beginsString (cs : List Char) : Bool :=
  match cs.dropWhile isStringPrefix with
  | [] => false
  | c :: _ => isQuoteMark c

namespace Gap

/-- Progress of a scan. Indentation and line breaks are counted afresh after each comment. -/
structure Progress where
  extras : List Tree := []
  joins : List Tree := []
  stops : List Nat := []
  indent : Nat := 0
  broken : Bool := false
  /-- A blank that is no indentation has been passed: later breaks no longer count. -/
  frozen : Bool := false
  comment : Option Position := none

def Progress.closed (g : Progress) : List Nat :=
  if g.broken then g.stops ++ [g.indent] else g.stops

def Progress.breakLine (g : Progress) : Progress :=
  if g.frozen then g else { g with indent := 0, broken := true }

def Progress.indentBy (g : Progress) (n : Nat) : Progress :=
  if g.frozen then g else { g with indent := g.indent + n }

def Progress.unindent (g : Progress) : Progress :=
  if g.frozen then g else { g with indent := 0 }

def Progress.join (g : Progress) (p : Position) : Progress :=
  { g with joins := g.joins ++ [.node .lineJoin none p [] []] }

def Progress.beginComment (g : Progress) (p : Position) : Progress :=
  { extras := g.extras ++ g.joins, stops := g.closed, comment := some p }

def Progress.endComment (g : Progress) (p : Position) : Progress :=
  { extras := g.extras ++ [.node .comment none p [] []], stops := g.stops }

/-- The gap ends before a token. Joins in front of a string literal are blanks like any other. -/
def Progress.finish (g : Progress) (rest : List Char) (here : Position) : Gap :=
  { extras := g.extras ++ if beginsString rest then [] else g.joins
    stops := g.closed, rest, here }

/-- The text ends: that closes a line, and nothing is indented after it. -/
def Progress.finishText (g : Progress) (here : Position) : Gap :=
  let g := match g.comment with
    | some p => g.endComment p
    | none => g
  { extras := g.extras ++ g.joins, stops := g.stops ++ [0], rest := [], here }

def scanFrom (g : Progress) (here : Position) : List Char → Gap
  | [] => g.finishText here
  | c :: cs =>
    match g.comment with
    | some p =>
      if c = '\n' then scanFrom (g.endComment p).breakLine (here.after c) cs
      -- A null character ends a comment, and no token begins with it.
      else if c = '\x00' then (g.endComment p).finish (c :: cs) here
      else scanFrom g (here.after c) cs
    | none =>
      if c = '\n' then scanFrom g.breakLine (here.after c) cs
      else if c = ' ' then scanFrom (g.indentBy 1) (here.after c) cs
      else if c = '\t' then scanFrom (g.indentBy 8) (here.after c) cs
      else if c = '\r' ∨ c = '\x0c' then scanFrom g.unindent (here.after c) cs
      else if isFormatBlank c then scanFrom { g with frozen := true } (here.after c) cs
      else if c = '#' then scanFrom (g.beginComment here) (here.after c) cs
      else if c = '\\' then
        match cs with
        | [] => (g.join here).finishText (here.after c)
        | '\n' :: ds => scanFrom (g.join here) ((here.after c).after '\n') ds
        | '\r' :: '\n' :: ds => scanFrom (g.join here) (((here.after c).after '\r').after '\n') ds
        | '\x00' :: ds => scanFrom (g.join here) ((here.after c).after '\x00') ds
        | _ => g.finish (c :: cs) here
      else g.finish (c :: cs) here

end Gap

def Gap.scan (cs : List Char) (here : Position) : Gap :=
  Gap.scanFrom {} here cs

/-- Whether the gap holds a line break, or ends the text. -/
def Gap.isBroken (g : Gap) : Bool := !g.stops.isEmpty

/-- Whether the next token comes first on a line indented less than the given suite. -/
def Gap.leaves (g : Gap) (suite : Nat) : Bool :=
  match g.stops.getLast? with
  | some n => n < suite
  | none => false

/-- Whether a comment or token in a place where no suite can end is indented less than the suite. A
quote at the end is let pass. -/
def Gap.breaksOut (g : Gap) (suite : Nat) : Bool :=
  let tokenPasses := match g.rest with
    | c :: _ => isQuoteMark c
    | [] => false
  (if tokenPasses then g.stops.dropLast else g.stops).any (· < suite)

end Footprint.Syntax
