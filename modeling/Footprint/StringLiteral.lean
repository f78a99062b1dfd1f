import Footprint.Text.Digits

/-!
The value of a string literal: its prefix letters say what kind of literal it is, and its escape
sequences stand for other characters. An escape that is unknown or incomplete stands for itself.
-/

namespace Footprint

inductive StringLiteral where
  /-- A text constant and its value. -/
  | text (value : String)
  | bytes
  /-- A string with replacement fields, which is no constant. -/
  | formatted
  deriving DecidableEq, Repr

namespace StringLiteral

open Text

def letterEscape? : Char → Option Char
  | '\\' => some '\\'
  | '\'' => some '\''
  | '"' => some '"'
  | 'a' => some '\x07'
  | 'b' => some '\x08'
  | 'f' => some '\x0c'
  | 'n' => some '\n'
  | 'r' => some '\r'
  | 't' => some '\t'
  | 'v' => some '\x0b'
  | _ => none

/-- How many hexadecimal digits follow a letter. -/
def hexWidth? : Char → Option Nat
  | 'x' => some 2
  | 'u' => some 4
  | 'U' => some 8
  | _ => none

/-- The character of exactly so many hexadecimal digits. -/
def hexEscape? (width : Nat) (cs : List Char) : Option Char :=
  let ds := cs.take width
  if ds.length = width && ds.all isHex then charOf? (digitsValue 16 ds) else none

/-- What an escape stands for, given what follows the backslash, and how much of that belongs to it. -/
def escape : List Char → List Char × Nat
  | [] => (['\\'], 0)
  | '\n' :: _ => ([], 1)
  | '\r' :: '\n' :: _ => ([], 2)
  | '\r' :: _ => ([], 1)
  | c :: cs =>
    match letterEscape? c with
    | some d => ([d], 1)
    | none =>
      if isOctal c then
        let ds := (c :: cs.take 2).takeWhile isOctal
        ([Char.ofNat (digitsValue 8 ds)], ds.length)
      else
        match (hexWidth? c).bind fun w => (hexEscape? w cs).map (·, w) with
        | some (d, w) => ([d], w + 1)
        | none => (['\\', c], 1)

/-- Decodes a body of which the first characters belong to an escape already decoded. -/
def decodeFrom : Nat → List Char → List Char
  | _, [] => []
  | n + 1, _ :: cs => decodeFrom n cs
  | 0, c :: cs =>
    if c = '\\' then (escape cs).1 ++ decodeFrom (escape cs).2 cs else c :: decodeFrom 0 cs

/-- Replaces the escape sequences of a body. -/
def decode (body : List Char) : List Char := decodeFrom 0 body

def decodeEscapes (body : String) : String := String.ofList (decode body.toList)

/-- The body between two delimiters: three quotes on each side if there is room for them, else one. -/
def body? (quoted : List Char) (quote : Char) : Option (List Char) :=
  let triple := [quote, quote, quote]
  let delimiter := if 6 ≤ byteLength quoted && triple.isPrefixOf quoted then triple else [quote]
  if byteLength quoted < 2 * delimiter.length || !delimiter.isSuffixOf quoted then none
  else some ((quoted.drop delimiter.length).take (quoted.length - 2 * delimiter.length))

def isPrefixLetter (c : Char) : Bool :=
  let c := c.toLower
  c == 'r' || c == 'u' || c == 'b' || c == 'f' || c == 't'

def ofToken? (token : List Char) : Option StringLiteral :=
  let isQuote (c : Char) : Bool := c == '\'' || c == '"'
  let letters := token.takeWhile (!isQuote ·)
  let has (c : Char) : Bool := letters.any (·.toLower == c)
  match token.dropWhile (!isQuote ·) with
  | [] => none
  | quote :: rest =>
    if !letters.all isPrefixLetter then none
    else if has 'f' || has 't' then some formatted
    else if has 'b' then some bytes
    else
      (body? (quote :: rest) quote).map fun body =>
        text (String.ofList (if has 'r' then body else decode body))

@[simp] theorem decodeFrom_nil (n : Nat) : decodeFrom n [] = [] := by cases n <;> rfl

@[simp] theorem decodeFrom_succ_cons (n : Nat) (c : Char) (cs : List Char) :
    decodeFrom (n + 1) (c :: cs) = decodeFrom n cs := rfl

theorem decodeFrom_eq_drop (n : Nat) (cs : List Char) : decodeFrom n cs = decode (cs.drop n) := by
  induction n generalizing cs with
  | zero => rfl
  | succ n ih => cases cs with
    | nil => simp [decode]
    | cons c cs => simp [ih]

theorem decode_cons_of_ne {c : Char} (h : c ≠ '\\') (cs : List Char) :
    decode (c :: cs) = c :: decode cs := by
  simp [decode, decodeFrom, h]

theorem decode_backslash (cs : List Char) :
    decode ('\\' :: cs) = (escape cs).1 ++ decode (cs.drop (escape cs).2) := by
  rw [← decodeFrom_eq_drop]; simp [decode, decodeFrom]

end StringLiteral

end Footprint
