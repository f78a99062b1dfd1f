import Footprint.Text.Case
import Footprint.Text.Infix

/-!
Telling file access from the name of a method: a method reads or writes if its name holds one of the
patterns for that, whatever the case. The lists of patterns only grow.
-/

namespace Footprint

structure Access where
  read : Bool
  write : Bool
  deriving DecidableEq, Repr

structure AccessPatterns where
  read : List String := ["read", "load"]
  write : List String :=
    ["write", "save", "to_csv", "to_excel", "to_parquet", "to_hdf", "savefig"]
  deriving DecidableEq, Repr

namespace AccessPatterns

/-- Adds a pattern in lower case behind the others, unless it is empty or there already. -/
def add (patterns : List String) (pattern : String) : List String :=
  let p := Text.lower pattern
  if p = "" ∨ p ∈ patterns then patterns else patterns ++ [p]

def addAll (patterns new : List String) : List String := new.foldl add patterns

theorem mem_add {patterns : List String} {pattern p : String} :
    p ∈ add patterns pattern ↔ p ∈ patterns ∨ (p = Text.lower pattern ∧ p ≠ "") := by
  simp only [add]
  split
  · rename_i h
    constructor
    · exact .inl
    · rintro (h' | ⟨rfl, h'⟩)
      · exact h'
      · exact h.resolve_left h'
  · rename_i h
    simp only [not_or] at h
    rw [List.mem_append, List.mem_singleton]
    constructor
    · rintro (h' | rfl)
      · exact .inl h'
      · exact .inr ⟨rfl, h.1⟩
    · rintro (h' | ⟨h', _⟩)
      · exact .inl h'
      · exact .inr h'

@[simp] theorem addAll_nil (patterns : List String) : addAll patterns [] = patterns := rfl

@[simp] theorem addAll_cons (patterns new : List String) (p : String) :
    addAll patterns (p :: new) = addAll (add patterns p) new := rfl

theorem mem_addAll {patterns new : List String} {p : String} :
    p ∈ addAll patterns new ↔ p ∈ patterns ∨ (p ∈ new.map Text.lower ∧ p ≠ "") := by
  induction new generalizing patterns with
  | nil => simp
  | cons q qs ih =>
    simp only [addAll_cons, ih, mem_add, List.map_cons, List.mem_cons]
    constructor
    · rintro ((h | h) | h)
      · exact .inl h
      · exact .inr ⟨.inl h.1, h.2⟩
      · exact .inr ⟨.inr h.1, h.2⟩
    · rintro (h | ⟨h | h, hp⟩)
      · exact .inl (.inl h)
      · exact .inl (.inr ⟨h, hp⟩)
      · exact .inr ⟨h, hp⟩

def addRead (a : AccessPatterns) (new : List String) : AccessPatterns :=
  { a with read := addAll a.read new }

def addWrite (a : AccessPatterns) (new : List String) : AccessPatterns :=
  { a with write := addAll a.write new }

def anyIn (patterns : List String) (text : String) : Bool :=
  patterns.any fun p => Text.isInfixOf p.toList text.toList

theorem anyIn_eq_true_iff {patterns : List String} {text : String} :
    anyIn patterns text = true ↔ ∃ p ∈ patterns, p.toList <:+: text.toList := by
  simp [anyIn, Text.isInfixOf_iff]

def classify (a : AccessPatterns) (method : String) : Access :=
  let m := Text.lower method
  ⟨anyIn a.read m, anyIn a.write m⟩

end AccessPatterns

/-- Whether a file opened in this mode is written. No mode is a mode to read. -/
def isWriteMode : Option String → Bool
  | some mode => mode.toList.any fun c => c == 'w' || c == 'a'
  | none => false

end Footprint
