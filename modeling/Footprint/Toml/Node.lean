/-!
The tree that TOML text writes. A table keeps how it came to be, for that decides whether more may be
put into it: a table is written in one place, and only headers and dotted keys that name tables on
their way leave them open.
-/

namespace Footprint.Toml

/-- How a table came to be. -/
inductive Origin where
  /-- It is written in braces. -/
  | inline
  /-- It has a header. -/
  | header
  /-- A header names a table below it. -/
  | implied
  /-- A dotted key names something in it. -/
  | dotted
  deriving DecidableEq, Repr

inductive Node where
  | text (value : String)
  /-- A number or a truth value. -/
  | scalar
  /-- A date or a time. -/
  | moment
  | list (items : List Node)
  | table (origin : Origin) (fields : List (String × Node))
  /-- Tables with headers in double brackets, the last one first. -/
  | tables (latest : List (String × Node)) (earlier : List (List (String × Node)))
  deriving Repr

abbrev Fields := List (String × Node)

namespace Fields

/-- Puts a node in the place of the one of its name, or behind all others. -/
def put (name : String) (n : Node) : Fields → Fields
  | [] => [(name, n)]
  | (k, m) :: fs => if k = name then (k, n) :: fs else (k, m) :: put name n fs

@[simp] theorem lookup_put_self (name : String) (n : Node) (fs : Fields) :
    (put name n fs).lookup name = some n := by
  induction fs with
  | nil => simp [put]
  | cons f fs ih =>
    obtain ⟨k, m⟩ := f
    simp only [put]
    split
    · simp_all
    · rename_i h
      simp [List.lookup_cons, beq_false_of_ne (Ne.symm h), ih]

@[simp] theorem lookup_put_of_ne {name other : String} (h : other ≠ name) (n : Node) (fs : Fields) :
    (put name n fs).lookup other = fs.lookup other := by
  induction fs with
  | nil => simp [put, h]
  | cons f fs ih =>
    obtain ⟨k, m⟩ := f
    simp only [put]
    split
    · rename_i hk
      subst hk
      simp [List.lookup_cons, beq_false_of_ne h]
    · simp [List.lookup_cons, ih]

/-- Changes the table at the end of a path, of which the first table has this origin. Tables that are
missing are created: `dotted` says whether by a dotted key. -/
def within (dotted : Bool) (change : Origin → Fields → Option (Origin × Fields)) :
    List String → Origin → Fields → Option (Origin × Fields)
  | [], origin, fs => change origin fs
  | k :: ks, origin, fs =>
    match fs.lookup k with
    | none => do
      let (o, gs) ← within dotted change ks (if dotted then .dotted else .implied) []
      return (origin, fs.put k (.table o gs))
    | some (.table o gs) =>
      if o = .inline ∨ (dotted ∧ o = .header) then none
      else do
        let (o, gs) ← within dotted change ks o gs
        return (origin, fs.put k (.table o gs))
    | some (.tables gs earlier) => do
      let (_, gs) ← within dotted change ks .header gs
      return (origin, fs.put k (.tables gs earlier))
    | some _ => none

/-- Puts a new field into a table. A dotted key does so only in a table that dotted keys made. -/
def add (dotted : Bool) (name : String) (n : Node) (origin : Origin) (fs : Fields) :
    Option (Origin × Fields) :=
  if (origin == .dotted) != dotted || (fs.lookup name).isSome then none
  else some (origin, fs.put name n)

/-- Puts a field at the end of a key into a table. -/
def insert (key : List String) (n : Node) (origin : Origin) (fs : Fields) : Option (Origin × Fields) :=
  let path := key.dropLast
  within true (add (!path.isEmpty) (key.getLastD "") n) path origin fs

def open? (name : String) (origin : Origin) (fs : Fields) : Option (Origin × Fields) :=
  match fs.lookup name with
  | none => some (origin, fs.put name (.table .header []))
  | some (.table .implied gs) => some (origin, fs.put name (.table .header gs))
  | some _ => none

def openNext? (name : String) (origin : Origin) (fs : Fields) : Option (Origin × Fields) :=
  match fs.lookup name with
  | none => some (origin, fs.put name (.tables [] []))
  | some (.tables gs earlier) => some (origin, fs.put name (.tables [] (gs :: earlier)))
  | some _ => none

end Fields

end Footprint.Toml
