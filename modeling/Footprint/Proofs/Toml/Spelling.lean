import Footprint.Toml.Scalar

/-!
# Spellings of TOML

The texts that TOML allows, told apart from any reader: what may stand between tokens, strings of all four kinds with
the text they stand for, keys of several parts, and numbers, dates and times, of which only counts that there is one.
Integers are those of 64 bits, and no fraction without a minus sign rounds to infinity.
-/

namespace Footprint.Toml

open Text

/-! ### Between tokens -/

def IsBlanks (w : List Char) : Prop := ∀ c ∈ w, isBlank c = true

instance (w : List Char) : Decidable (IsBlanks w) := inferInstanceAs (Decidable (∀ c ∈ w, isBlank c = true))

theorem isBlanks_nil : IsBlanks [] := by decide

inductive IsBreak : List Char → Prop
  | feed : IsBreak ['\n']
  | both : IsBreak ['\r', '\n']

/-- Characters that stand in a comment or a string as they are: none is a control character but the tab. -/
def AreVerbatim (cs : List Char) : Prop := ∀ c ∈ cs, isVerbatim c = true

inductive IsComment : List Char → Prop
  | mk {cs : List Char} : AreVerbatim cs → IsComment ('#' :: cs)

inductive IsLayout : List Char → Prop
  | nil : IsLayout []
  | blank {c : Char} {w : List Char} : isBlank c = true → IsLayout w → IsLayout (c :: w)
  | line {n w : List Char} : IsBreak n → IsLayout w → IsLayout (n ++ w)
  | comment {c n w : List Char} : IsComment c → IsBreak n → IsLayout w → IsLayout (c ++ (n ++ w))

inductive AreBlankLines : List Char → Prop
  | nil : AreBlankLines []
  | blank {c : Char} {w : List Char} : isBlank c = true → AreBlankLines w → AreBlankLines (c :: w)
  | line {n w : List Char} : IsBreak n → AreBlankLines w → AreBlankLines (n ++ w)

/-! ### Strings -/

/-- So many hexadecimal digits, in upper or lower case, for a number. -/
def SpellsCode (width n : Nat) (ds : List Char) : Prop :=
  ds.length = width ∧ (∀ d ∈ ds, isHex d = true) ∧ digitsValue 16 ds = n

inductive SpellsChar : Char → List Char → Prop
  | verbatim {c : Char} : isVerbatim c = true → c ≠ '"' → c ≠ '\\' → SpellsChar c [c]
  | quote : SpellsChar '"' ['\\', '"']
  | backslash : SpellsChar '\\' ['\\', '\\']
  | backspace : SpellsChar '\x08' ['\\', 'b']
  | tab : SpellsChar '\t' ['\\', 't']
  | feed : SpellsChar '\n' ['\\', 'n']
  | formFeed : SpellsChar '\x0c' ['\\', 'f']
  | return : SpellsChar '\r' ['\\', 'r']
  | short {c : Char} {ds : List Char} : SpellsCode 4 c.toNat ds → SpellsChar c ('\\' :: 'u' :: ds)
  | long {c : Char} {ds : List Char} : SpellsCode 8 c.toNat ds → SpellsChar c ('\\' :: 'U' :: ds)

inductive SpellsChars : List Char → List Char → Prop
  | nil : SpellsChars [] []
  | cons {c : Char} {cs t ts : List Char} : SpellsChar c t → SpellsChars cs ts → SpellsChars (c :: cs) (t ++ ts)

inductive SpellsShort : String → List Char → Prop
  | basic {s : String} {ts : List Char} : SpellsChars s.toList ts → SpellsShort s ('"' :: (ts ++ ['"']))
  | literal {s : String} : AreVerbatim s.toList → '\'' ∉ s.toList → SpellsShort s ('\'' :: (s.toList ++ ['\'']))

/-- Up to two quotes that are text though they stand right before three that close a string. -/
def AreFinal (quote : Char) (q : List Char) : Prop := q = [] ∨ q = [quote] ∨ q = [quote, quote]

/-- Up to two quotes that do not close a string, since something else follows. -/
def AreInner (quote : Char) (q ts : List Char) : Prop :=
  (q = [quote] ∨ q = [quote, quote]) ∧ ts.head? ≠ some quote

/-- The rest of a basic string of several lines, with the quotes that close it. -/
inductive SpellsLongBasic : List Char → List Char → Prop
  | close {q : List Char} : AreFinal '"' q → SpellsLongBasic q (q ++ ['"', '"', '"'])
  | char {c : Char} {cs t ts : List Char} : SpellsChar c t → SpellsLongBasic cs ts →
      SpellsLongBasic (c :: cs) (t ++ ts)
  | line {cs n ts : List Char} : IsBreak n → SpellsLongBasic cs ts → SpellsLongBasic ('\n' :: cs) (n ++ ts)
  | quotes {q cs ts : List Char} : AreInner '"' q ts → SpellsLongBasic cs ts → SpellsLongBasic (q ++ cs) (q ++ ts)
  /-- A backslash at the end of a line, with all blanks and line breaks behind it. -/
  | join {cs w n v ts : List Char} : IsBlanks w → IsBreak n → AreBlankLines v →
      (∀ c ∈ ts.head?, c ∉ [' ', '\t', '\n', '\r']) → SpellsLongBasic cs ts →
      SpellsLongBasic cs ('\\' :: (w ++ (n ++ (v ++ ts))))

/-- The rest of a literal string of several lines, with the quotes that close it. -/
inductive SpellsLongLiteral : List Char → List Char → Prop
  | close {q : List Char} : AreFinal '\'' q → SpellsLongLiteral q (q ++ ['\'', '\'', '\''])
  | char {c : Char} {cs ts : List Char} : isVerbatim c = true → c ≠ '\'' → SpellsLongLiteral cs ts →
      SpellsLongLiteral (c :: cs) (c :: ts)
  | line {cs n ts : List Char} : IsBreak n → SpellsLongLiteral cs ts → SpellsLongLiteral ('\n' :: cs) (n ++ ts)
  | quotes {q cs ts : List Char} : AreInner '\'' q ts → SpellsLongLiteral cs ts → SpellsLongLiteral (q ++ cs) (q ++ ts)

/-- A line break right behind the quotes that open a string, which does not count, or else no line break. -/
def Opens (n ts : List Char) : Prop := IsBreak n ∨ (n = [] ∧ ∀ c ∈ ts.head?, c ≠ '\n' ∧ c ≠ '\r')

inductive SpellsText : String → List Char → Prop
  | short {s : String} {ts : List Char} : SpellsShort s ts → SpellsText s ts
  | longBasic {s : String} {n ts : List Char} : Opens n ts → SpellsLongBasic s.toList ts →
      SpellsText s ('"' :: '"' :: '"' :: (n ++ ts))
  | longLiteral {s : String} {n ts : List Char} : Opens n ts → SpellsLongLiteral s.toList ts →
      SpellsText s ('\'' :: '\'' :: '\'' :: (n ++ ts))

/-! ### Keys -/

inductive SpellsPart : String → List Char → Prop
  | bare {k : String} : k.toList ≠ [] → (∀ c ∈ k.toList, isBare c = true) → SpellsPart k k.toList
  | quoted {k : String} {ts : List Char} : SpellsShort k ts → SpellsPart k ts

/-- Ways to write a key of at most so many parts, with the blanks before and behind it. -/
inductive SpellsKey : Nat → List String → List Char → Prop
  | last {n : Nat} {k : String} {u t w : List Char} : IsBlanks u → SpellsPart k t → IsBlanks w →
      SpellsKey (n + 1) [k] (u ++ (t ++ w))
  | more {n : Nat} {k : String} {ks : List String} {u t w ts : List Char} : IsBlanks u → SpellsPart k t → IsBlanks w →
      SpellsKey n ks ts → SpellsKey (n + 1) (k :: ks) (u ++ (t ++ (w ++ '.' :: ts)))

/-! ### Numbers -/

/-- Digits, between which single low lines may stand. -/
inductive SpellsDigits (ok : Char → Bool) : List Char → List Char → Prop
  | one {d : Char} : ok d = true → SpellsDigits ok [d] [d]
  | cons {d : Char} {ds ts : List Char} : ok d = true → SpellsDigits ok ds ts → SpellsDigits ok (d :: ds) (d :: ts)
  | low {d : Char} {ds ts : List Char} : ok d = true → SpellsDigits ok ds ts →
      SpellsDigits ok (d :: ds) (d :: '_' :: ts)

def IsSign (sign : List Char) : Prop := sign = [] ∨ sign = ['+'] ∨ sign = ['-']

/-- Digits in base ten of which only a lone one is a leading zero. -/
inductive SpellsWhole : List Char → List Char → Prop
  | mk {ds ts : List Char} : SpellsDigits isDigit ds ts → (ds.head? = some '0' → ds = ['0']) → SpellsWhole ds ts

inductive IsInteger : List Char → Prop
  | decimal {sign ds ts : List Char} : IsSign sign → SpellsWhole ds ts →
      digitsValue 10 ds ≤ (if sign = ['-'] then 0x8000000000000000 else 0x7FFFFFFFFFFFFFFF) → IsInteger (sign ++ ts)
  | hexadecimal {ds ts : List Char} : SpellsDigits isHex ds ts → digitsValue 16 ds < 0x8000000000000000 →
      IsInteger ('0' :: 'x' :: ts)
  | octal {ds ts : List Char} : SpellsDigits isOctal ds ts → digitsValue 8 ds < 0x8000000000000000 → IsInteger ('0' :: 'o' :: ts)
  | binary {ds ts : List Char} : SpellsDigits isBinary ds ts → digitsValue 2 ds < 0x8000000000000000 → IsInteger ('0' :: 'b' :: ts)

inductive SpellsFraction : List Char → List Char → Prop
  | none : SpellsFraction [] []
  | digits {ds ts : List Char} : SpellsDigits isDigit ds ts → SpellsFraction ds ('.' :: ts)

inductive SpellsExponent : Int → List Char → Prop
  | none : SpellsExponent 0 []
  | digits {e : Char} {sign ds ts : List Char} : e = 'e' ∨ e = 'E' → IsSign sign → SpellsDigits isDigit ds ts →
      SpellsExponent (if sign = ['-'] then -(digitsValue 10 ds : Int) else digitsValue 10 ds) (e :: (sign ++ ts))

inductive IsFloat : List Char → Prop
  | special {sign : List Char} : IsSign sign → IsFloat (sign ++ ['i', 'n', 'f'])
  | undefined {sign : List Char} : IsSign sign → IsFloat (sign ++ ['n', 'a', 'n'])
  | decimal {sign whole wholeText part partText exponentText : List Char} {exponent : Int} : IsSign sign →
      SpellsWhole whole wholeText → SpellsFraction part partText → SpellsExponent exponent exponentText →
      partText ++ exponentText ≠ [] →
      (sign ≠ ['-'] → Decimal.overflows (digitsValue 10 (whole ++ part)) (exponent - part.length) = false) →
      IsFloat (sign ++ (wholeText ++ (partText ++ exponentText)))

/-! ### Dates and times -/

/-- So many digits for a number between two bounds. -/
def SpellsField (width least most n : Nat) (ts : List Char) : Prop :=
  ts.length = width ∧ (∀ d ∈ ts, isDigit d = true) ∧ digitsValue 10 ts = n ∧ least ≤ n ∧ n ≤ most

inductive IsDate : List Char → Prop
  | mk {year month day : Nat} {y m d : List Char} : SpellsField 4 0 9999 year y → SpellsField 2 1 12 month m →
      SpellsField 2 1 (daysIn year month) day d → IsDate (y ++ ('-' :: (m ++ '-' :: d)))

inductive IsSecondFraction : List Char → Prop
  | none : IsSecondFraction []
  | digits {ds : List Char} : ds ≠ [] → (∀ d ∈ ds, isDigit d = true) → IsSecondFraction ('.' :: ds)

inductive IsTime : List Char → Prop
  | mk {hour minute second : Nat} {h m s f : List Char} : SpellsField 2 0 23 hour h → SpellsField 2 0 59 minute m →
      SpellsField 2 0 60 second s → IsSecondFraction f → IsTime (h ++ (':' :: (m ++ ':' :: (s ++ f))))

inductive IsOffset : List Char → Prop
  | zero {z : Char} : z = 'Z' ∨ z = 'z' → IsOffset [z]
  | hours {sign : Char} {hour minute : Nat} {h m : List Char} : isSign sign = true → SpellsField 2 0 23 hour h →
      SpellsField 2 0 59 minute m → IsOffset (sign :: (h ++ ':' :: m))

inductive IsMoment : List Char → Prop
  | date {d : List Char} : IsDate d → IsMoment d
  | time {t : List Char} : IsTime t → IsMoment t
  | local {d t : List Char} {x : Char} : IsDate d → x = 'T' ∨ x = 't' ∨ x = ' ' → IsTime t → IsMoment (d ++ x :: t)
  | offset {d t o : List Char} {x : Char} : IsDate d → x = 'T' ∨ x = 't' ∨ x = ' ' → IsTime t → IsOffset o →
      IsMoment (d ++ x :: (t ++ o))

end Footprint.Toml
