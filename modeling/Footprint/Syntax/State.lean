import Footprint.Syntax.Quote

/-!
The state of a parse: the text that is left, where it stands, the open suites and strings, and what a
line break means here.
-/

namespace Footprint.Syntax

/-- What a line break does. In brackets, and between statements, it is a blank. In the header of a
compound statement it is one too, as long as the next line is not indented less than the suite. In
a simple statement it is the end. -/
inductive Region where
  | free | header | line
  deriving DecidableEq, Repr

structure State where
  rest : List Char
  here : Position := {}
  /-- Indentation of the open suites, innermost first. -/
  suites : List Nat := []
  /-- The open formatted strings, innermost first. -/
  quotes : List Quote := []
  region : Region := .free

namespace State

/-- Indentation of the innermost suite. -/
def suite (s : State) : Nat := s.suites.headD 0

def advance (s : State) (n : Nat) : State :=
  { s with rest := s.rest.drop n, here := s.here.afterAll (s.rest.take n) }

def gap (s : State) : Gap := Gap.scan s.rest s.here

def past (s : State) (g : Gap) : State := { s with rest := g.rest, here := g.here }

/-- Passes the gap before a token that may come next. -/
def lead? (s : State) : Option (List Tree × State) :=
  let g := s.gap
  let stops := match s.region with
    | .free => false
    | .header => g.breaksOut s.suite
    | .line => g.isBroken
  if stops then none else some (g.extras, s.past g)

/-- Passes the gap before a token that has to come next, where no statement can end. -/
def glue? (s : State) : Option (List Tree × State) :=
  let g := s.gap
  if g.breaksOut s.suite then none else some (g.extras, s.past g)

/-- Passes the gap before a statement of the innermost suite. -/
def line? (s : State) : Option (List Tree × State) :=
  let g := s.gap
  if g.leaves s.suite || g.rest.isEmpty then none else some (g.extras, s.past g)

/-- The end of a statement: a line break, which is not passed. -/
def newline? (s : State) : Option (List Tree × State) :=
  if s.gap.isBroken then some ([], s) else none

/-- The beginning of a suite: the next line is indented more. -/
def indent? (s : State) : Option (List Tree × State) :=
  match s.gap.stops.getLast? with
  | some n => if s.suite < n then some ([], { s with suites := n :: s.suites }) else none
  | none => none

/-- The end of a suite: the next line is indented less. -/
def dedent? (s : State) : Option (List Tree × State) :=
  if s.gap.leaves s.suite then some ([], { s with suites := s.suites.tail }) else none

def finish? (s : State) : Option (List Tree × State) :=
  let g := s.gap
  if g.rest.isEmpty then some (g.extras, s.past g) else none

end State

end Footprint.Syntax
