import Footprint.Json.Cursor

/-!
# Spellings of JSON

The texts that JSON allows, told apart from any reader: insignificant white space, the ways to write
the characters of a string, and values of any shape and depth whose content does not matter. Braces
are written by their codes.
-/

namespace Footprint.Json

open Text

def IsSpacing (cs : List Char) : Prop := ∀ c ∈ cs, c = ' ' ∨ c = '\n' ∨ c = '\t' ∨ c = '\r'

theorem IsSpacing.nil : IsSpacing [] := by simp [IsSpacing]

/-- Four hexadecimal digits, in upper or lower case, for a number. -/
def SpellsCode (n : Nat) (ds : List Char) : Prop :=
  ds.length = 4 ∧ (∀ d ∈ ds, isHex d = true) ∧ digitsValue 16 ds = n

/-- Ways to write a character of a string. -/
inductive SpellsChar : Char → List Char → Prop
  | plain {c : Char} : 0x20 ≤ c.toNat → c ≠ '"' → c ≠ '\\' → SpellsChar c [c]
  | quote : SpellsChar '"' ['\\', '"']
  | backslash : SpellsChar '\\' ['\\', '\\']
  | slash : SpellsChar '/' ['\\', '/']
  | backspace : SpellsChar '\x08' ['\\', 'b']
  | feed : SpellsChar '\x0c' ['\\', 'f']
  | newline : SpellsChar '\n' ['\\', 'n']
  | return : SpellsChar '\r' ['\\', 'r']
  | tab : SpellsChar '\t' ['\\', 't']
  | code {c : Char} {ds : List Char} : SpellsCode c.toNat ds → SpellsChar c ('\\' :: 'u' :: ds)
  /-- A character beyond the first plane, by its two surrogates. -/
  | pair {c : Char} {high low : Nat} {ds es : List Char} :
      high < 0x400 → low < 0x400 → c.toNat = 0x10000 + high * 0x400 + low →
      SpellsCode (0xD800 + high) ds → SpellsCode (0xDC00 + low) es →
      SpellsChar c ('\\' :: 'u' :: (ds ++ '\\' :: 'u' :: es))

inductive SpellsChars : List Char → List Char → Prop
  | nil : SpellsChars [] []
  | cons {c : Char} {cs t ts : List Char} :
      SpellsChar c t → SpellsChars cs ts → SpellsChars (c :: cs) (t ++ ts)

inductive SpellsText : String → List Char → Prop
  | quoted {s : String} {ts : List Char} : SpellsChars s.toList ts → SpellsText s ('"' :: (ts ++ ['"']))

theorem spellsChars_self {cs : List Char} (h : ∀ c ∈ cs, 0x20 ≤ c.toNat ∧ c ≠ '"' ∧ c ≠ '\\') :
    SpellsChars cs cs := by
  induction cs with
  | nil => exact .nil
  | cons c cs ih =>
    rw [List.forall_mem_cons] at h
    exact .cons (.plain h.1.1 h.1.2.1 h.1.2.2) (ih h.2)

/-- What may stand within the quotes of a string, also if its codes are no characters. -/
inductive IsStringBody : List Char → Prop
  | nil : IsStringBody []
  | plain {c : Char} {ts : List Char} : 0x20 ≤ c.toNat → c ≠ '"' → c ≠ '\\' → IsStringBody ts →
      IsStringBody (c :: ts)
  | escape {c : Char} {ts : List Char} : c ∈ ['"', '\\', '/', 'b', 'f', 'n', 'r', 't'] → IsStringBody ts →
      IsStringBody ('\\' :: c :: ts)
  | code {ds ts : List Char} : ds.length = 4 → (∀ d ∈ ds, isHex d = true) → IsStringBody ts →
      IsStringBody ('\\' :: 'u' :: (ds ++ ts))

def IsDigits (ds : List Char) : Prop := ds ≠ [] ∧ ∀ d ∈ ds, isDigit d = true

/-- The digits of a whole number, of which only a lone one is zero. -/
inductive IsWhole : List Char → Prop
  | zero : IsWhole ['0']
  | positive {ds : List Char} : IsDigits ds → ds.head? ≠ some '0' → IsWhole ds

inductive IsFraction : List Char → Prop
  | none : IsFraction []
  | digits {ds : List Char} : IsDigits ds → IsFraction ('.' :: ds)

inductive IsExponent : List Char → Prop
  | none : IsExponent []
  | digits {e : Char} {sign ds : List Char} : e = 'e' ∨ e = 'E' → sign = [] ∨ sign = ['+'] ∨ sign = ['-'] →
      IsDigits ds → IsExponent (e :: (sign ++ ds))

inductive IsNumber : List Char → Prop
  | mk {sign whole fraction exponent : List Char} : sign = [] ∨ sign = ['-'] → IsWhole whole →
      IsFraction fraction → IsExponent exponent → IsNumber (sign ++ (whole ++ (fraction ++ exponent)))

inductive IsKey : List Char → Prop
  | mk {u w ts : List Char} : IsStringBody ts → IsSpacing u → IsSpacing w →
      IsKey ('"' :: (ts ++ '"' :: (u ++ ':' :: w)))

mutual

inductive IsValue : List Char → Prop
  | null : IsValue ['n', 'u', 'l', 'l']
  | trueWord : IsValue ['t', 'r', 'u', 'e']
  | falseWord : IsValue ['f', 'a', 'l', 's', 'e']
  | number {cs : List Char} : IsNumber cs → IsValue cs
  | text {ts : List Char} : IsStringBody ts → IsValue ('"' :: (ts ++ ['"']))
  | emptyList {w : List Char} : IsSpacing w → IsValue ('[' :: (w ++ [']']))
  | list {u cs : List Char} : IsSpacing u → AreItems cs → IsValue ('[' :: (u ++ cs ++ [']']))
  | emptyObject {w : List Char} : IsSpacing w → IsValue ('\x7b' :: (w ++ ['\x7d']))
  | object {u cs : List Char} : IsSpacing u → AreFields cs → IsValue ('\x7b' :: (u ++ cs ++ ['\x7d']))

/-- The items of a list with one at least, with commas between them. -/
inductive AreItems : List Char → Prop
  | one {v w : List Char} : IsValue v → IsSpacing w → AreItems (v ++ w)
  | cons {v w u cs : List Char} : IsValue v → IsSpacing w → IsSpacing u → AreItems cs →
      AreItems (v ++ (w ++ ',' :: (u ++ cs)))

/-- The fields of an object with one at least, with commas between them. -/
inductive AreFields : List Char → Prop
  | one {k v w : List Char} : IsKey k → IsValue v → IsSpacing w → AreFields (k ++ (v ++ w))
  | cons {k v w u cs : List Char} : IsKey k → IsValue v → IsSpacing w → IsSpacing u → AreFields cs →
      AreFields (k ++ (v ++ (w ++ ',' :: (u ++ cs))))

end

/-- Things in order, each spelled in some way, with commas between them and white space around them. -/
inductive SpellsAll {α : Type} (Spells : α → List Char → Prop) : List α → List Char → Prop
  | nil {w : List Char} : IsSpacing w → SpellsAll Spells [] w
  | one {x : α} {u v w : List Char} : IsSpacing u → Spells x v → IsSpacing w →
      SpellsAll Spells [x] (u ++ (v ++ w))
  | cons {x y : α} {xs : List α} {u v w cs : List Char} : IsSpacing u → Spells x v → IsSpacing w →
      SpellsAll Spells (y :: xs) cs → SpellsAll Spells (x :: y :: xs) (u ++ (v ++ (w ++ ',' :: cs)))

/-- A list of things that are spelled in some way. -/
inductive SpellsList {α : Type} (Spells : α → List Char → Prop) : List α → List Char → Prop
  | brackets {xs : List α} {cs : List Char} : SpellsAll Spells xs cs → SpellsList Spells xs ('[' :: (cs ++ [']']))

/-- An object with fields that are spelled in some way. -/
inductive SpellsObject {α : Type} (Spells : α → List Char → Prop) : List α → List Char → Prop
  | braces {xs : List α} {cs : List Char} : SpellsAll Spells xs cs →
      SpellsObject Spells xs ('\x7b' :: (cs ++ ['\x7d']))

/-- A field of an object: its key, a colon and its value. -/
inductive SpellsField (key : String) (Spells : List Char → Prop) : List Char → Prop
  | mk {k u w v : List Char} : SpellsText key k → IsSpacing u → IsSpacing w → Spells v →
      SpellsField key Spells (k ++ (u ++ ':' :: (w ++ v)))

end Footprint.Json
