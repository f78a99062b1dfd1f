import Footprint.Proofs.Calls.Literal
import Footprint.Proofs.Syntax.Gaps

/-!
# A language of calls

Expressions of names, literals, members, calls and parentheses, how they are written, and which calls they
hold. In a line only blanks may stand between tokens; within brackets anything may that is no token.
-/

namespace Footprint.Calls

open Syntax

inductive Slot where
  | plain
  | splat
  | keyword (n : List Char)
  | doubleSplat

mutual

inductive Expr where
  | name (n : List Char)
  | text (l : Literal)
  | integer (ds : List Char)
  | member (e : Expr) (n : List Char)
  | call (e : Expr) (as : Arguments)
  | group (e : Expr)

inductive Arguments where
  | nil
  | cons (slot : Slot) (e : Expr) (as : Arguments)

end

/-- Members can be taken of all expressions but integers. -/
def Expr.IsPrimary : Expr → Prop
  | .integer _ => False
  | _ => True

/-- No positional argument stands behind a keyword or two stars, and no star behind two. -/
def Arguments.IsOrdered : (keyword doubleSplat : Bool) → Arguments → Prop
  | _, _, .nil => True
  | k, d, .cons .plain _ as => (k = false ∧ d = false) ∧ as.IsOrdered k d
  | k, d, .cons .splat _ as => d = false ∧ as.IsOrdered k d
  | _, d, .cons (.keyword _) _ as => as.IsOrdered true d
  | k, _, .cons .doubleSplat _ as => as.IsOrdered k true

/-! ### How expressions are written -/

mutual

/-- A text spells an expression, with such gaps between its tokens. -/
inductive Spells : (gap : List Char → Prop) → Expr → List Char → Prop
  | name {gap : List Char → Prop} {n : List Char} : IsName n → Spells gap (.name n) n
  | text {gap : List Char → Prop} {l : Literal} : l.IsProper → Spells gap (.text l) l.token
  | integer {gap : List Char → Prop} {ds : List Char} : IsInteger ds → Spells gap (.integer ds) ds
  | member {gap : List Char → Prop} {e : Expr} {n cs v w : List Char} : e.IsPrimary → IsName n →
    Spells gap e cs → gap v → gap w → Spells gap (.member e n) (cs ++ (v ++ '.' :: (w ++ n)))
  | call {gap : List Char → Prop} {e : Expr} {as : Arguments} {cs ds v w : List Char} : e.IsPrimary →
    as.IsOrdered false false → Spells gap e cs → gap v → SpellsAll as ds → IsFiller w →
    Spells gap (.call e as) (cs ++ (v ++ '(' :: (ds ++ (w ++ [')']))))
  | group {gap : List Char → Prop} {e : Expr} {cs v w : List Char} : IsFiller v → Spells IsFiller e cs →
    IsFiller w → Spells gap (.group e) ('(' :: (v ++ (cs ++ (w ++ [')']))))

inductive SpellsOne : Slot → Expr → List Char → Prop
  | plain {e : Expr} {cs : List Char} : Spells IsFiller e cs → SpellsOne .plain e cs
  | splat {e : Expr} {cs w : List Char} : e.IsPrimary → IsFiller w → Spells IsFiller e cs →
    SpellsOne .splat e ('*' :: (w ++ cs))
  | keyword {e : Expr} {n cs v w : List Char} : IsName n → IsFiller v → IsFiller w → Spells IsFiller e cs →
    SpellsOne (.keyword n) e (n ++ (v ++ '=' :: (w ++ cs)))
  | doubleSplat {e : Expr} {cs w : List Char} : e.IsPrimary → IsFiller w → Spells IsFiller e cs →
    SpellsOne .doubleSplat e ('*' :: '*' :: (w ++ cs))

inductive SpellsAll : Arguments → List Char → Prop
  | nil : SpellsAll .nil []
  | cons {slot : Slot} {e : Expr} {as : Arguments} {cs ds w : List Char} : IsFiller w → SpellsOne slot e cs →
    SpellsMore as ds → SpellsAll (.cons slot e as) (w ++ (cs ++ ds))

inductive SpellsMore : Arguments → List Char → Prop
  | nil : SpellsMore .nil []
  | cons {slot : Slot} {e : Expr} {as : Arguments} {cs ds v w : List Char} : IsFiller v → IsFiller w →
    SpellsOne slot e cs → SpellsMore as ds → SpellsMore (.cons slot e as) (v ++ ',' :: (w ++ (cs ++ ds)))

end

inductive SpellsLines : List Expr → List Char → Prop
  | nil : SpellsLines [] []
  | last {e : Expr} {cs : List Char} : Spells IsBlank e cs → SpellsLines [e] cs
  | cons {e : Expr} {es : List Expr} {cs b ds : List Char} : Spells IsBlank e cs → IsLineEnd b →
    SpellsLines es ds → SpellsLines (e :: es) (cs ++ (b ++ ds))

/-! ### Which calls they hold -/

def Expr.innermost : Expr → Expr
  | .group e => e.innermost
  | e => e

def Expr.callee (e : Expr) : Callee :=
  match e.innermost with
  | .member _ n => .member (String.ofList n)
  | .name n => .name (String.ofList n)
  | _ => .other

def Expr.argument (e : Expr) : Argument :=
  match e.innermost with
  | .text l => .text l.value
  | .integer _ => .constant
  | .name n => .name (String.ofList n)
  | _ => .other

def Arguments.positional : Arguments → List Argument
  | .nil => []
  | .cons .plain e as => e.argument :: as.positional
  | .cons .splat _ as => .other :: as.positional
  | .cons (.keyword _) _ as => as.positional
  | .cons .doubleSplat _ as => as.positional

mutual

/-- The calls of an expression: each before those in its callee, and those before those in its arguments. -/
def Expr.calls : Expr → List Construct
  | .name _ | .text _ | .integer _ => []
  | .member e _ => e.calls
  | .call e as => .call e.callee as.positional :: (e.calls ++ as.calls)
  | .group e => e.calls

def Arguments.calls : Arguments → List Construct
  | .nil => []
  | .cons _ e as => e.calls ++ as.calls

end

end Footprint.Calls
