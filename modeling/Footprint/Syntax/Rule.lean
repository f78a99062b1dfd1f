import Footprint.Syntax.Token

/-!
Parsing expression grammars as data, and their interpreter. A rule reads a prefix of the text and
yields a forest; choices are ordered, and a refused alternative leaves no trace. The names of a
grammar are a type of its own, so that a grammar is a function from names to rules.
-/

namespace Footprint.Syntax

inductive Rule (N : Type) where
  | token (t : Token)
  | layout (l : Layout)
  /-- The rule of this name. -/
  | phrase (n : N)
  /-- These rules, one after the other. -/
  | each (rs : List (Rule N))
  /-- The first of these rules that reads. -/
  | first (rs : List (Rule N))
  /-- As often as it reads. -/
  | many (r : Rule N)
  /-- Reads nothing, where the rule would read. -/
  | ahead (r : Rule N)
  /-- Reads nothing, where the rule would not read. -/
  | absent (r : Rule N)
  | within (g : Region) (r : Rule N)
  | node (k : Kind) (r : Rule N)
  | inRole (ro : Role) (r : Rule N)
  /-- A rule whose node is of one of these kinds. -/
  | only (ks : List Kind) (r : Rule N)
  /-- The base, then steps as often as one reads: each makes a node of all before it, with its first
  part in a role, and of what it reads. -/
  | chain (base : Rule N) (steps : List (Kind × Option Role × Rule N))
  /-- The front, then the first end that reads: the kind of the node depends on the end. -/
  | choose (front : Rule N) (ends : List (Kind × Rule N))

namespace Rule

variable {N : Type}

def none : Rule N := each []

def opt (r : Rule N) : Rule N := first [r, none]

/-- One or more, with a separator between them. -/
def sep (separator r : Rule N) : Rule N := each [r, many (each [separator, r])]

/-- A keyword if it is a word, and a mark otherwise. -/
def text (s : String) : Rule N :=
  match s.toList with
  | c :: cs => token (if c.isAlpha || c == '_' then .keyword (c :: cs) else .mark (c :: cs))
  | [] => none

instance : Coe String (Rule N) := ⟨text⟩

def anyOf (ws : List String) : Rule N := first (ws.map text)

def name (except : List String) : Rule N := node .identifier (token (.name (except.map String.toList)))

def maybeComma : Rule N := opt (text ",")

end Rule

/-- What a rule says of a text: it reads a prefix, it does not, or the interpreter gave up. -/
inductive Reply where
  | accept (forest : List Tree) (state : State)
  | refuse
  | starve

def Reply.ofOption : Option (List Tree × State) → Reply
  | some (ts, s) => .accept ts s
  | none => .refuse

/-- Kinds of nodes that keep their spelling. -/
def Kind.isSpelled : Kind → Bool
  | .identifier | .string => true
  | _ => false

def State.spelling (s t : State) : List Char := s.rest.take (t.here.offset - s.here.offset)

/-- Gives each tree but the extras a role. -/
def Tree.assign (r : Role) (ts : List Tree) : List Tree :=
  ts.map fun t => if t.IsExtra then t else t.withRole r

def Tree.soleKind? (ts : List Tree) : Option Kind :=
  match ts.filter fun t => !decide t.IsExtra with
  | [t] => some t.kind
  | _ => none

/-- A node over a forest, behind extras that stand before its first token. -/
def Reply.wrap (k : Kind) (extras : List Tree) (from_ : State) : Reply → Reply
  | accept ts s =>
    accept (extras ++ [.node k none from_.here (if k.isSpelled then from_.spelling s else []) ts]) s
  | r => r

def Reply.prepend (ts : List Tree) : Reply → Reply
  | accept us s => accept (ts ++ us) s
  | r => r

def Reply.restore (g : Region) : Reply → Reply
  | accept ts s => accept ts { s with region := g }
  | r => r

section Interpreter

variable {N : Type} (grammar : N → Rule N)

mutual

/-- Reads by a rule. The fuel bounds how deep rules nest. -/
def run : Nat → Rule N → State → Reply
  | 0, _, _ => .starve
  | _ + 1, .token t, s => .ofOption (t.read? s)
  | _ + 1, .layout l, s => .ofOption (l.read? s)
  | f + 1, .phrase n, s => run f (grammar n) s
  | _ + 1, .each [], s => .accept [] s
  | f + 1, .each (r :: rs), s =>
    match run f r s with
    | .accept ts s' => (run f (.each rs) s').prepend ts
    | reply => reply
  | _ + 1, .first [], _ => .refuse
  | f + 1, .first (r :: rs), s =>
    match run f r s with
    | .refuse => run f (.first rs) s
    | reply => reply
  | f + 1, .many r, s =>
    match run f r s with
    | .accept ts s' => (run f (.many r) s').prepend ts
    | .refuse => .accept [] s
    | .starve => .starve
  | f + 1, .ahead r, s =>
    match run f r s with
    | .accept _ _ => .accept [] s
    | reply => reply
  | f + 1, .absent r, s =>
    match run f r s with
    | .accept _ _ => .refuse
    | .refuse => .accept [] s
    | .starve => .starve
  | f + 1, .within g r, s => (run f r { s with region := g }).restore s.region
  | f + 1, .node k r, s =>
    match s.lead? with
    | some (extras, s') => (run f r s').wrap k extras s'
    | none => .refuse
  | f + 1, .inRole ro r, s =>
    match run f r s with
    | .accept ts s' => .accept (Tree.assign ro ts) s'
    | reply => reply
  | f + 1, .only ks r, s =>
    match run f r s with
    | .accept ts s' => if (Tree.soleKind? ts).any ks.contains then .accept ts s' else .refuse
    | reply => reply
  | f + 1, .chain base steps, s =>
    match s.lead? with
    | none => .refuse
    | some (extras, s') =>
      match run f base s' with
      | .accept ts t => (grow f steps s' ts t).prepend extras
      | reply => reply
  | f + 1, .choose front ends, s =>
    match s.lead? with
    | none => .refuse
    | some (extras, s') =>
      match run f front s' with
      | .accept ts t => (finish f ends s' ts t).prepend extras
      | reply => reply

def grow : Nat → List (Kind × Option Role × Rule N) → State → List Tree → State → Reply
  | 0, _, _, _, _ => .starve
  | f + 1, steps, start, ts, s =>
    match step f steps start ts s with
    | .accept us s' => grow f steps start us s'
    | .refuse => .accept ts s
    | .starve => .starve

def step : Nat → List (Kind × Option Role × Rule N) → State → List Tree → State → Reply
  | 0, _, _, _, _ => .starve
  | _ + 1, [], _, _, _ => .refuse
  | f + 1, (k, ro, r) :: steps, start, ts, s =>
    match run f r s with
    | .accept us s' =>
      Reply.wrap k [] start (.accept ((ro.elim ts fun ro => Tree.assign ro ts) ++ us) s')
    | .refuse => step f steps start ts s
    | .starve => .starve

def finish : Nat → List (Kind × Rule N) → State → List Tree → State → Reply
  | 0, _, _, _, _ => .starve
  | _ + 1, [], _, _, _ => .refuse
  | f + 1, (k, r) :: ends, start, ts, s =>
    match run f r s with
    | .accept us s' => Reply.wrap k [] start (.accept (ts ++ us) s')
    | .refuse => finish f ends start ts s
    | .starve => .starve

end

end Interpreter

end Footprint.Syntax
