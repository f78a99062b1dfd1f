import Footprint.Syntax.State
import Footprint.Text.Digits
import Footprint.Text.Identifier

/-!
The tokens of the cell language and how far each reaches. A mark is read only where no longer mark of
the language begins; whether a word is a keyword is for the grammar to say, place by place.
-/

namespace Footprint.Syntax

inductive Token where
  /-- A punctuation mark or operator. -/
  | mark (text : List Char)
  /-- This word, as a keyword. -/
  | keyword (word : List Char)
  /-- Any word but these, as a name. -/
  | name (except : List (List Char))
  | number
  /-- A string literal without replacement fields, as a whole. -/
  | plainString
  /-- Prefix and quote of a formatted string. -/
  | openFormatted
  /-- Text of a formatted string between its fields. -/
  | formattedText
  | closeFormatted
  /-- `!r` and the like in a replacement field. -/
  | conversion
  /-- A colon, whatever follows it. -/
  | colon
  /-- Text of a format specification. -/
  | formatText

/-- The marks that have a shorter mark at their head. -/
def longMarks : List (List Char) :=
  ["**=", "//=", ">>=", "<<=", "...", "**", "//", ">>", "<<", "<=", ">=", "==", "!=", "<>", "->", ":=",
    "+=", "-=", "*=", "/=", "%=", "@=", "&=", "|=", "^="].map String.toList

def wordLength (cs : List Char) : Nat :=
  match cs with
  | c :: ds => if Text.isIdentifierStart c then 1 + (ds.takeWhile Text.isIdentifierRest).length else 0
  | [] => 0

namespace Number

open Text (isBinary isDigit isHex isOctal)

/-- Digits with single low lines after them: a count of characters. -/
def digitsAfter (wasDigit : Bool) : List Char → Nat
  | [] => 0
  | c :: cs =>
    if isDigit c then 1 + digitsAfter true cs
    else if c = '_' && wasDigit then 1 + digitsAfter false cs
    else 0

def digits (cs : List Char) : Nat := digitsAfter false cs

/-- Groups of digits of another base, each with a low line before it if there is one. -/
def groups (ok : Char → Bool) : List Char → Nat
  | [] => 0
  | '_' :: c :: cs => if ok c then 2 + groups ok cs else 0
  | c :: cs => if ok c then 1 + groups ok cs else 0

def exponent : List Char → Nat
  | e :: cs =>
    if e = 'e' ∨ e = 'E' then
      let sign := match cs with
        | c :: _ => if c = '+' ∨ c = '-' then 1 else 0
        | [] => 0
      match digits (cs.drop sign) with
      | 0 => 0
      | n => 1 + sign + n
    else 0
  | [] => 0

def suffix (ok : Char → Bool) : List Char → Nat
  | c :: _ => if ok c then 1 else 0
  | [] => 0

def isLong (c : Char) : Bool := c == 'l' || c == 'L'
def isImaginary (c : Char) : Bool := c == 'j' || c == 'J'

def based (ok : Char → Bool) (cs : List Char) : Nat :=
  match groups ok (cs.drop 2) with
  | 0 => 0
  | n => 2 + n + suffix isLong (cs.drop (2 + n))

/-- A decimal number: digits, a fraction, an exponent and a suffix, as far as they are there. -/
def decimal (cs : List Char) : Nat :=
  let whole := digits cs
  let afterWhole := cs.drop whole
  match afterWhole with
  | '.' :: ds =>
    let fraction := digits ds
    if whole = 0 && fraction = 0 then 0
    else
      let n := whole + 1 + fraction
      let n := n + exponent (cs.drop n)
      n + suffix isImaginary (cs.drop n)
  | _ =>
    if whole = 0 then 0
    else match exponent afterWhole with
      | 0 => whole + suffix (fun c => isLong c || isImaginary c) afterWhole
      | n => whole + n + suffix isImaginary (cs.drop (whole + n))

def length (cs : List Char) : Nat :=
  let inBase := match cs with
    | '0' :: b :: _ =>
      if b = 'x' ∨ b = 'X' then based isHex cs
      else if b = 'o' ∨ b = 'O' then based isOctal cs
      else if b = 'b' ∨ b = 'B' then based isBinary cs
      else 0
    | _ => 0
  if inBase = 0 then decimal cs else inBase

end Number

/-- Accepts a token of this length, if there is any of it. -/
def nonempty : Nat → Option Nat
  | 0 => none
  | n => some n

def Token.length? (quotes : List Quote) : Token → List Char → Option Nat
  | .mark m, cs =>
    if m.isPrefixOf cs && longMarks.all (fun l => l.length ≤ m.length || !l.isPrefixOf cs) then
      some m.length
    else none
  | .keyword w, cs => if cs.take (wordLength cs) = w then nonempty w.length else none
  | .name except, cs =>
    let n := wordLength cs
    if n = 0 || except.contains (cs.take n) then none else some n
  | .number, cs => nonempty (Number.length cs)
  | .plainString, cs => Quote.literalLength? cs
  | .openFormatted, cs =>
    match Quote.opening? cs with
    | some (q, n) => if q.formatted then some n else none
    | none => none
  | .formattedText, cs =>
    match quotes with
    | q :: _ => (q.bodyLength? 0 true cs).bind nonempty
    | [] => none
  | .closeFormatted, cs =>
    match quotes, cs with
    | q :: _, c :: ds => if c = q.mark && (!q.triple || doubled q.mark ds) then some q.closingLength else none
    | _, _ => none
  | .conversion, cs =>
    match cs with
    | '!' :: c :: _ => if 'a' ≤ c && c ≤ 'z' then some 2 else none
    | _ => none
  | .colon, cs => if cs.head? = some ':' then some 1 else none
  | .formatText, cs =>
    nonempty (cs.takeWhile fun c => c != '{' && c != '}' && c != '\x00').length

/-- Whether the gap before a token is passed first. The parts of a string follow each other directly. -/
def Token.isSpaced : Token → Bool
  | .formattedText | .closeFormatted | .formatText => false
  | _ => true

def Token.track (t : Token) (cs : List Char) (quotes : List Quote) : List Quote :=
  match t with
  | .openFormatted =>
    match Quote.opening? cs with
    | some (q, _) => q :: quotes
    | none => quotes
  | .closeFormatted => quotes.tail
  | _ => quotes

def Token.read? (t : Token) (s : State) : Option (List Tree × State) := do
  let (extras, s) ← if t.isSpaced then s.lead? else some ([], s)
  let n ← t.length? s.quotes s.rest
  some (extras, { s.advance n with quotes := t.track s.rest s.quotes })

inductive Layout where
  | lead | glue | line | newline | indent | dedent | finish

def Layout.read? : Layout → State → Option (List Tree × State)
  | .lead => State.lead?
  | .glue => State.glue?
  | .line => State.line?
  | .newline => State.newline?
  | .indent => State.indent?
  | .dedent => State.dedent?
  | .finish => State.finish?

end Footprint.Syntax
