import Footprint.Proofs.Toml.Spelling

/-!
# What TOML means

A document says what its paths lead to: a value, or a table, and how that came to be. Its rules are told in terms of
paths alone. A header opens a table once, though headers of tables below it may have implied it; double brackets open
one more table of an array, which begins empty; a field is told once, and the parts of its key but the last name tables
that only dotted keys write to. Values and tables in braces nest, and grammars are given for at most so many levels and
so many parts in a key.
-/

namespace Footprint.Toml

/-- Values. What numbers, dates and times stand for does not count. -/
inductive Value where
  | text (value : String)
  | scalar
  | moment
  | list (items : List Value)
  /-- A table in braces, with its fields. -/
  | table (fields : List (List String × Value))

/-- What a path leads to. -/
inductive Item where
  | value (v : Value)
  /-- A table with a header. -/
  | header
  /-- A table that has none, but one below it has. -/
  | implied
  /-- A table that dotted keys name. -/
  | dotted
  /-- An array of tables with headers in double brackets. What the path leads to next is in the last one. -/
  | array

abbrev Places := List String → Option Item

namespace Places

def none : Places := fun _ => .none

def isBelow (path place : List String) : Bool := path.isPrefixOf place && path != place

/-- Places with an item at a path. Where a way there is missing, this is made of tables. -/
def set (m : Places) (base key : List String) (way new : Item) : Places := fun place =>
  if place = base ++ key then some new
  else if isBelow base place && isBelow place (base ++ key) && (m place).isNone then some way
  else m place

/-- Places without those below a path. -/
def clear (m : Places) (path : List String) : Places := fun place =>
  if isBelow path place then .none else m place

/-- A path leads through tables, which may be missing so far. -/
def Passes (m : Places) (path : List String) : Prop :=
  ∀ p k ks, p ++ k :: ks = path → p ≠ [] → ∀ v, m p ≠ some (.value v)

/-- A table may have a header: it has none yet, nor is it written otherwise. -/
def MayOpen (m : Places) (path : List String) : Prop :=
  path ≠ [] ∧ m.Passes path ∧ (m path = .none ∨ m path = some .implied)

/-- An array of tables may have one more of these, or begin. -/
def MayOpenNext (m : Places) (path : List String) : Prop :=
  path ≠ [] ∧ m.Passes path ∧ (m path = .none ∨ m path = some .array)

/-- A field may be told in the table at a path: it is new, and its key names tables that dotted keys made. On the way
there it may name tables that are implied. -/
def MayTell (m : Places) (base key : List String) : Prop :=
  key ≠ [] ∧ m (base ++ key) = .none ∧ ∀ p k ks, p ++ k :: ks = key → p ≠ [] →
    m (base ++ p) = .none ∨ m (base ++ p) = some .dotted ∨ (m (base ++ p) = some .implied ∧ ks ≠ [])

section

variable {m : Places} {base : List String} {k : String}

theorem eq_nil_of_singleton {p ks : List String} {j : String} (h : p ++ j :: ks = [k]) : p = [] := by
  cases p with
  | nil => rfl
  | cons i p => simp at h

theorem mayTell_singleton (new : m (base ++ [k]) = .none) : m.MayTell base [k] :=
  ⟨List.cons_ne_nil k [], new, fun _ _ _ same hp => absurd (eq_nil_of_singleton same) hp⟩

theorem mayOpen_singleton (new : m [k] = .none) : m.MayOpen [k] :=
  ⟨List.cons_ne_nil k [], fun _ _ _ same hp => absurd (eq_nil_of_singleton same) hp, .inl new⟩

end

end Places

/-- Fields that are told one after the other in the table at a path. -/
inductive Tells (base : List String) : Places → List (List String × Value) → Places → Prop
  | nil {m : Places} : Tells base m [] m
  | cons {m n : Places} {key : List String} {v : Value} {fs : List (List String × Value)} : m.MayTell base key →
      Tells base (m.set base key .dotted (.value v)) fs n → Tells base m ((key, v) :: fs) n

/-! ### Values -/

inductive SpellsPlain : Value → List Char → Prop
  | text {s : String} {ts : List Char} : SpellsText s ts → SpellsPlain (.text s) ts
  | trueWord : SpellsPlain .scalar ['t', 'r', 'u', 'e']
  | falseWord : SpellsPlain .scalar ['f', 'a', 'l', 's', 'e']
  | integer {ts : List Char} : IsInteger ts → SpellsPlain .scalar ts
  | float {ts : List Char} : IsFloat ts → SpellsPlain .scalar ts
  | moment {ts : List Char} : IsMoment ts → SpellsPlain .moment ts

section

variable (limit : Nat) (Spells : Value → List Char → Prop)

inductive SpellsEntry : List String × Value → List Char → Prop
  | mk {key : List String} {v : Value} {ks w ts : List Char} : SpellsKey limit key ks → IsBlanks w → Spells v ts →
      SpellsEntry (key, v) (ks ++ '=' :: (w ++ ts))

/-- Ways to write the rest of a list, with the bracket that closes it. There may be a comma behind the last item. -/
inductive SpellsItems : List Value → List Char → Prop
  | close {w : List Char} : IsLayout w → SpellsItems [] (w ++ [']'])
  | last {v : Value} {u t w : List Char} : IsLayout u → Spells v t → IsLayout w →
      SpellsItems [v] (u ++ (t ++ (w ++ [']'])))
  | more {v : Value} {vs : List Value} {u t w ts : List Char} : IsLayout u → Spells v t → IsLayout w →
      SpellsItems vs ts → SpellsItems (v :: vs) (u ++ (t ++ (w ++ ',' :: ts)))

/-- Ways to write fields on one line, one at least, with the brace that closes a table. -/
inductive SpellsFields : List (List String × Value) → List Char → Prop
  | last {f : List String × Value} {t w : List Char} : SpellsEntry limit Spells f t → IsBlanks w →
      SpellsFields [f] (t ++ (w ++ ['\x7d']))
  | more {f : List String × Value} {fs : List (List String × Value)} {t w ts : List Char} :
      SpellsEntry limit Spells f t → IsBlanks w → SpellsFields fs ts →
      SpellsFields (f :: fs) (t ++ (w ++ ',' :: ts))

/-- Ways to write a value, given those of the values in it. -/
inductive SpellsNested : Value → List Char → Prop
  | plain {v : Value} {ts : List Char} : SpellsPlain v ts → SpellsNested v ts
  | list {vs : List Value} {ts : List Char} : SpellsItems Spells vs ts → SpellsNested (.list vs) ('[' :: ts)
  | empty {w : List Char} : IsBlanks w → SpellsNested (.table []) ('\x7b' :: (w ++ ['\x7d']))
  | table {fs : List (List String × Value)} {ts : List Char} {m : Places} : SpellsFields limit Spells fs ts →
      Tells [] .none fs m → SpellsNested (.table fs) ('\x7b' :: ts)

end

/-- Ways to write a value, of lists and tables in no more levels than this. -/
def SpellsValue (limit : Nat) : Nat → Value → List Char → Prop
  | 0 => SpellsPlain
  | depth + 1 => SpellsNested limit (SpellsValue limit depth)

/-! ### Documents -/

inductive Line where
  | blank
  | field (key : List String) (v : Value)
  /-- A header in brackets. -/
  | header (path : List String)
  /-- A header in double brackets. -/
  | next (path : List String)

/-- What lines say: from what paths lead to, and the path in the header read last, to what paths lead to at the end. -/
inductive Says : Places → List String → List Line → Places → Prop
  | nil {m : Places} {base : List String} : Says m base [] m
  | blank {m n : Places} {base : List String} {ls : List Line} : Says m base ls n → Says m base (.blank :: ls) n
  | field {m n : Places} {base key : List String} {v : Value} {ls : List Line} : m.MayTell base key →
      Says (m.set base key .dotted (.value v)) base ls n → Says m base (.field key v :: ls) n
  | header {m n : Places} {base path : List String} {ls : List Line} : m.MayOpen path →
      Says (m.set [] path .implied .header) path ls n → Says m base (.header path :: ls) n
  | next {m n : Places} {base path : List String} {ls : List Line} : m.MayOpenNext path →
      Says ((m.clear path).set [] path .implied .array) path ls n → Says m base (.next path :: ls) n

section

variable (limit : Nat)

inductive SpellsLine : Line → List Char → Prop
  | blank : SpellsLine .blank []
  | field {key : List String} {v : Value} {ts : List Char} :
      SpellsEntry limit (SpellsValue limit limit) (key, v) ts → SpellsLine (.field key v) ts
  | header {path : List String} {u ts : List Char} : IsBlanks u → SpellsKey limit path ts →
      SpellsLine (.header path) (u ++ '[' :: (ts ++ [']']))
  | next {path : List String} {u ts : List Char} : IsBlanks u → SpellsKey limit path ts →
      SpellsLine (.next path) (u ++ '[' :: '[' :: (ts ++ [']', ']']))

inductive IsRest : List Char → Prop
  | blanks {w : List Char} : IsBlanks w → IsRest w
  | comment {w c : List Char} : IsBlanks w → IsComment c → IsRest (w ++ c)

inductive SpellsLines : List Line → List Char → Prop
  | last {l : Line} {t r : List Char} : SpellsLine limit l t → IsRest r → SpellsLines [l] (t ++ r)
  | more {l : Line} {ls : List Line} {t r n ts : List Char} : SpellsLine limit l t → IsRest r → IsBreak n →
      SpellsLines ls ts → SpellsLines (l :: ls) (t ++ (r ++ (n ++ ts)))

inductive SpellsDocument : Places → List Char → Prop
  | mk {ls : List Line} {m : Places} {ts : List Char} : SpellsLines limit ls ts → Says .none [] ls m →
      SpellsDocument m ts

end

end Footprint.Toml
