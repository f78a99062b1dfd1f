import Footprint.StringLiteral
import Footprint.Syntax.Tree

/-!
The constructs of a cell that an analysis looks at: imports and calls, in the order in which their
nodes stand in the tree, each reduced to names and constant arguments.
-/

namespace Footprint

inductive Argument where
  /-- A text constant. -/
  | text (value : String)
  /-- Any other constant. -/
  | constant
  | name (name : String)
  | other
  deriving DecidableEq, Repr

inductive Callee where
  /-- A member of some object. -/
  | member (method : String)
  | name (name : String)
  | other
  deriving DecidableEq, Repr

inductive Construct where
  | importModules (names : List String)
  /-- Names from a module, which is unnamed if it is only a number of packages up. -/
  | importFrom (module : Option String) (names : List String)
  /-- A call with its positional arguments. -/
  | call (callee : Callee) (arguments : List Argument)
  | other
  deriving DecidableEq, Repr

def Argument.text? : Argument → Option String
  | .text value => some value
  | _ => none

@[simp] theorem Argument.text?_eq_some_iff {a : Argument} {v : String} :
    a.text? = some v ↔ a = .text v := by
  cases a <;> simp [Argument.text?]

namespace Syntax

namespace Tree

mutual

/-- The node inside any number of parentheses. Empty ones are left. -/
def unparenthesized : Tree → Tree
  | node k r p s ts =>
    if k = .parenthesized then (innermost? ts).getD (node k r p s ts) else node k r p s ts

/-- The first node that is no comment, without its parentheses. -/
def innermost? : List Tree → Option Tree
  | [] => none
  | t :: ts => if t.kind = .comment then innermost? ts else some t.unparenthesized

end

/-- The identifiers of a dotted name with dots between them: blanks and comments are left out. -/
def dotted (t : Tree) : String :=
  if t.kind = .dottedName then
    ".".intercalate ((t.children.filter (·.kind = .identifier)).map fun c => String.ofList c.spelling)
  else String.ofList t.spelling

/-- The names that an import binds or renames, as written. -/
def importedNames (t : Tree) : List String :=
  (t.childrenIn .name).filterMap fun c =>
    match c.kind with
    | .dottedName => some c.dotted
    | .renamedImport => (c.child? .name).map dotted
    | _ => none

/-- The module of a from-import without its leading dots. -/
def fromModule? (t : Tree) : Option String :=
  (t.child? .moduleName).bind fun m =>
    match m.kind with
    | .dottedName => some m.dotted
    | .relativeModule => (m.children.find? (·.kind = .dottedName)).map dotted
    | _ => none

def callee (t : Tree) : Callee :=
  match (t.child? .callee).map unparenthesized with
  | some f =>
    match f.kind with
    | .attribute => ((f.child? .member).map fun m => Callee.member (String.ofList m.spelling)).getD .other
    | .identifier => .name (String.ofList f.spelling)
    | _ => .other
  | none => .other

def parts (t : Tree) : List (Option StringLiteral) :=
  (t.children.filter (·.kind = .string)).map fun c => StringLiteral.ofToken? c.spelling

/-- Folds adjacent literals into one: text as long as all are text, and no constant with a field. -/
def concatenation : List (Option StringLiteral) → Argument
  | ls =>
    if ls.all fun l => l matches some (.text _) | some .bytes then
      if ls.contains (some .bytes) then .constant
      else .text (String.join (ls.map fun l => match l with | some (.text v) => v | _ => ""))
    else .other

def bareArgument (t : Tree) : Argument :=
  match t.kind with
  | .string =>
    match StringLiteral.ofToken? t.spelling with
    | some (.text value) => .text value
    | some .bytes => .constant
    | _ => .other
  | .concatenatedString => concatenation t.parts
  | .constant => .constant
  | .identifier => .name (String.ofList t.spelling)
  | _ => .other

def argument (t : Tree) : Argument := t.unparenthesized.bareArgument

/-- The positional arguments of a call. A comprehension is one argument. -/
def positional (t : Tree) : List Argument :=
  match t.child? .arguments with
  | some a =>
    if a.kind = .argumentList then
      (a.children.filter fun c => c.kind ≠ .comment ∧ c.kind ≠ .keywordArgument ∧ c.kind ≠ .dictionarySplat).map
        argument
    else [.other]
  | none => []

/-- The construct of a node, if its kind is one that counts. -/
def construct? (t : Tree) : Option Construct :=
  match t.kind with
  | .importStatement => some (.importModules t.importedNames)
  | .fromImport =>
    some (.importFrom t.fromModule?
      (t.importedNames ++ if t.children.any (·.kind = .wildcard) then ["*"] else []))
  | .futureImport => some (.importFrom (some "__future__") t.importedNames)
  | .call => some (.call t.callee t.positional)
  | _ => none

def constructs (t : Tree) : List Construct := t.preorder.filterMap construct?

end Tree

end Syntax

end Footprint
