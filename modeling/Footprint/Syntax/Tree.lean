import Footprint.Syntax.Position

/-!
Concrete syntax trees of code cells. A tree keeps the nodes that carry meaning, in source order, with
the comments and explicit line joins that stand among them; brackets, keywords and commas are not
nodes. Names and string literals keep their spelling.
-/

namespace Footprint.Syntax

inductive Kind where
  | module | block | comment | lineJoin
  | importStatement | fromImport | futureImport | dottedName | relativeModule | renamedImport | wildcard
  | expressionStatement | printStatement | execStatement | simpleStatement | compoundStatement | clause
  | assignment | namedExpression | operation | conditional | lambda | asPattern
  | identifier | string | concatenatedString | interpolation | constant
  | attribute | call | subscript | argumentList | keywordArgument | listSplat | dictionarySplat
  | parenthesized | collection | comprehension | parameters | pattern
  deriving DecidableEq, Repr

inductive Role where
  | callee | arguments | member | name | moduleName
  deriving DecidableEq, Repr

inductive Tree where
  | node (kind : Kind) (role : Option Role) (start : Position) (spelling : List Char)
      (children : List Tree)
  deriving Repr

namespace Tree

def kind : Tree → Kind
  | node k _ _ _ _ => k

def role : Tree → Option Role
  | node _ r _ _ _ => r

def start : Tree → Position
  | node _ _ p _ _ => p

def spelling : Tree → List Char
  | node _ _ _ s _ => s

def children : Tree → List Tree
  | node _ _ _ _ ts => ts

def withRole (r : Role) : Tree → Tree
  | node k _ p s ts => node k (some r) p s ts

/-- Comments and line joins stand between any two tokens and belong to no construct. -/
def IsExtra (t : Tree) : Prop := t.kind = .comment ∨ t.kind = .lineJoin

instance (t : Tree) : Decidable t.IsExtra := inferInstanceAs (Decidable (_ ∨ _))

def child? (r : Role) (t : Tree) : Option Tree :=
  t.children.find? (·.role = some r)

def childrenIn (r : Role) (t : Tree) : List Tree :=
  t.children.filter (·.role = some r)

mutual

/-- A node and all below it, each before its children, children from left to right. -/
def preorder : Tree → List Tree
  | node k r p s ts => node k r p s ts :: preorders ts

def preorders : List Tree → List Tree
  | [] => []
  | t :: ts => t.preorder ++ preorders ts

end

theorem preorders_eq_flatMap (ts : List Tree) : preorders ts = ts.flatMap preorder := by
  induction ts with
  | nil => simp [preorders]
  | cons t ts ih => simp [preorders, ih]

theorem preorder_eq (t : Tree) : t.preorder = t :: t.children.flatMap preorder := by
  cases t; simp [preorder, children, preorders_eq_flatMap]

theorem mem_preorder_self (t : Tree) : t ∈ t.preorder := by
  rw [preorder_eq]; exact List.mem_cons_self ..

@[simp] theorem kind_withRole (r : Role) (t : Tree) : (t.withRole r).kind = t.kind := by
  cases t; rfl

@[simp] theorem role_withRole (r : Role) (t : Tree) : (t.withRole r).role = some r := by
  cases t; rfl

@[simp] theorem children_withRole (r : Role) (t : Tree) : (t.withRole r).children = t.children := by
  cases t; rfl

end Tree

end Footprint.Syntax
