import Footprint.Proofs.Syntax.Lines

/-!
# A language of imports

Programs of import statements, one in a line, in suites of conditions, functions and classes nested to any
depth: how they are written, and what they import. Two words have blanks between them; other tokens may.
-/

namespace Footprint.Imports

open Syntax

def IsSpace (w : List Char) : Prop := IsBlank w ∧ w ≠ []

/-- What is imported: a dotted name, perhaps under another name. -/
structure Item where
  first : List Char
  more : List (List Char)
  alias? : Option (List Char)

/-- Where names are imported from: a module, or one so many packages up, counted from one. -/
inductive Origin where
  | absolute (first : List Char) (more : List (List Char))
  | package (ups : Nat)
  | relative (ups : Nat) (first : List Char) (more : List (List Char))

inductive Import where
  | modules (first : Item) (more : List Item)
  | names (o : Origin) (first : Item) (more : List Item)
  | all (o : Origin)
  | future (first : Item) (more : List Item)

inductive Heading where
  | condition (n : List Char)
  | function (n : List Char)
  | ofClass (n : List Char)

mutual

inductive Statement where
  | line (i : Import)
  | suite (h : Heading) (b : Block)

/-- Statements of one suite, which is not empty. -/
inductive Block where
  | last (s : Statement)
  | cons (s : Statement) (b : Block)

end

/-! ### How imports are written -/

inductive SpellsParts : List (List Char) → List Char → Prop
  | nil : SpellsParts [] []
  | cons {n cs v w : List Char} {ns : List (List Char)} : IsBlank v → IsBlank w → IsName n → SpellsParts ns cs →
    SpellsParts (n :: ns) (v ++ '.' :: (w ++ (n ++ cs)))

inductive SpellsItem : Item → List Char → Prop
  | plain {n cs : List Char} {ns : List (List Char)} : IsName n → SpellsParts ns cs → SpellsItem ⟨n, ns, none⟩ (n ++ cs)
  | renamed {n cs v w a : List Char} {ns : List (List Char)} : IsName n → SpellsParts ns cs → IsSpace v → IsSpace w →
    IsName a → SpellsItem ⟨n, ns, some a⟩ (n ++ cs ++ (v ++ ("as".toList ++ (w ++ a))))

inductive SpellsItems : List Item → List Char → Prop
  | nil : SpellsItems [] []
  | cons {i : Item} {is : List Item} {cs ds v w : List Char} : IsBlank v → IsBlank w → SpellsItem i cs →
    SpellsItems is ds → SpellsItems (i :: is) (v ++ ',' :: (w ++ (cs ++ ds)))

inductive IsTrailing : List Char → Prop
  | none : IsTrailing []
  | comma {w : List Char} : IsBlank w → IsTrailing (w ++ [','])

/-- The items of an import behind its last word, perhaps in parentheses. -/
inductive SpellsList (i : Item) (is : List Item) : List Char → Prop
  | plain {cs ds v : List Char} : IsSpace v → SpellsItem i cs → SpellsItems is ds → SpellsList i is (v ++ (cs ++ ds))
  | group {b cs ds v u w : List Char} : IsBlank v → IsBlank u → SpellsItem i cs → SpellsItems is ds → IsTrailing b →
    IsBlank w → SpellsList i is (v ++ '(' :: (u ++ (cs ++ (ds ++ (b ++ (w ++ [')']))))))

inductive SpellsOrigin : Origin → List Char → Prop
  | absolute {n cs v w : List Char} {ns : List (List Char)} : n ≠ "__future__".toList → IsSpace v → IsName n →
    SpellsParts ns cs → IsSpace w → SpellsOrigin (.absolute n ns) (v ++ (n ++ cs ++ w))
  | package {ups : Nat} {v w : List Char} : IsBlank v → IsBlank w →
    SpellsOrigin (.package ups) (v ++ (List.replicate (ups + 1) '.' ++ w))
  | relative {ups : Nat} {n cs v u w : List Char} {ns : List (List Char)} : IsBlank v → IsBlank u → IsName n →
    SpellsParts ns cs → IsSpace w →
    SpellsOrigin (.relative ups n ns) (v ++ (List.replicate (ups + 1) '.' ++ (u ++ (n ++ cs)) ++ w))

inductive SpellsImport : Import → List Char → Prop
  | modules {i : Item} {is : List Item} {cs ds v : List Char} : IsSpace v → SpellsItem i cs → SpellsItems is ds →
    SpellsImport (.modules i is) ("import".toList ++ (v ++ (cs ++ ds)))
  | names {o : Origin} {i : Item} {is : List Item} {cs ds : List Char} : SpellsOrigin o cs → SpellsList i is ds →
    SpellsImport (.names o i is) ("from".toList ++ (cs ++ ("import".toList ++ ds)))
  | all {o : Origin} {cs v : List Char} : SpellsOrigin o cs → IsBlank v →
    SpellsImport (.all o) ("from".toList ++ (cs ++ ("import".toList ++ (v ++ ['*']))))
  | future {i : Item} {is : List Item} {ds v w : List Char} : IsSpace v → IsSpace w → SpellsList i is ds →
    SpellsImport (.future i is) ("from".toList ++ (v ++ ("__future__".toList ++ (w ++ ("import".toList ++ ds)))))

/-! ### How programs are written -/

inductive SpellsHeading : Heading → List Char → Prop
  | condition {n v w : List Char} : IsName n → IsSpace v → IsBlank w →
    SpellsHeading (.condition n) ("if".toList ++ (v ++ (n ++ (w ++ [':']))))
  | function {n v u w x : List Char} : IsName n → IsSpace v → IsBlank u → IsBlank w → IsBlank x →
    SpellsHeading (.function n) ("def".toList ++ (v ++ (n ++ (u ++ '(' :: (w ++ ')' :: (x ++ [':']))))))
  | ofClass {n v w : List Char} : IsName n → IsSpace v → IsBlank w →
    SpellsHeading (.ofClass n) ("class".toList ++ (v ++ (n ++ (w ++ [':']))))

mutual

/-- A statement in a line, or with a suite that is indented more. -/
inductive SpellsStatement : (column : Nat) → Statement → List Char → Prop
  | line {n : Nat} {i : Import} {cs : List Char} : SpellsImport i cs → SpellsStatement n (.line i) cs
  | suite {n m : Nat} {h : Heading} {b : Block} {cs e ds : List Char} : SpellsHeading h cs → IsLineEnd e → n < m →
    SpellsBlock m b ds → SpellsStatement n (.suite h b) (cs ++ (e ++ (List.replicate m ' ' ++ ds)))

/-- Statements from the first one on, each of the others in a line that is indented to their column. -/
inductive SpellsBlock : (column : Nat) → Block → List Char → Prop
  | last {n : Nat} {s : Statement} {cs : List Char} : SpellsStatement n s cs → SpellsBlock n (.last s) cs
  | cons {n : Nat} {s : Statement} {b : Block} {cs e ds : List Char} : SpellsStatement n s cs → IsLineEnd e →
    SpellsBlock n b ds → SpellsBlock n (.cons s b) (cs ++ (e ++ (List.replicate n ' ' ++ ds)))

end

def Program : Type := Option Block

/-- A whole text. The last line may end. -/
inductive SpellsProgram : Program → List Char → Prop
  | empty : SpellsProgram none []
  | bare {b : Block} {cs : List Char} : SpellsBlock 0 b cs → SpellsProgram (some b) cs
  | ended {b : Block} {cs e : List Char} : SpellsBlock 0 b cs → IsLineEnd e → SpellsProgram (some b) (cs ++ e)

/-! ### What they import -/

def pointed (n : List Char) (ns : List (List Char)) : String := ".".intercalate ((n :: ns).map String.ofList)

def Item.name (i : Item) : String := pointed i.first i.more

/-- The module of an origin, if that is more than a number of packages up. -/
def Origin.module? : Origin → Option String
  | .absolute n ns | .relative _ n ns => some (pointed n ns)
  | .package _ => none

def Origin.qualify (o : Origin) (name : String) : String :=
  match o.module? with
  | some m => m ++ "." ++ name
  | none => name

def Import.imports : Import → List String
  | .modules i is => (i :: is).map Item.name
  | .names o i is => (i :: is).map fun i => o.qualify i.name
  | .all o => [o.qualify "*"]
  | .future i is => (i :: is).map fun i => "__future__." ++ i.name

mutual

def Statement.lines : Statement → List Import
  | .line i => [i]
  | .suite _ b => b.lines

/-- The imports of a block in the order of its lines. -/
def Block.lines : Block → List Import
  | .last s => s.lines
  | .cons s b => s.lines ++ b.lines

end

/-- What is imported, in the order in which it is written, as often as it is written. -/
def Block.imports (b : Block) : List String := b.lines.flatMap Import.imports

def Program.imports (p : Program) : List String := p.elim [] Block.imports

end Footprint.Imports
