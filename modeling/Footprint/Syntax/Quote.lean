import Footprint.Syntax.Gap

/-!
How far string literals reach. A literal is opened by prefix letters and a quote; its body runs to the
matching quote, and in formatted strings also up to the brace of a replacement field.
-/

namespace Footprint.Syntax

structure Quote where
  mark : Char
  triple : Bool
  raw : Bool
  bytes : Bool
  formatted : Bool
  deriving DecidableEq, Repr

def doubled (m : Char) : List Char → Bool
  | a :: b :: _ => a == m && b == m
  | _ => false

namespace Quote

/-- The quote that opens a string literal here, with the length of its prefix and mark. -/
def opening? (cs : List Char) : Option (Quote × Nat) :=
  let letters := cs.takeWhile isStringPrefix
  let has (c d : Char) := letters.any fun x => x == c || x == d
  match cs.dropWhile isStringPrefix with
  | [] => none
  | m :: rest =>
    if isQuoteMark m then
      let triple := m != '`' && doubled m rest
      some ({ mark := m, triple, raw := has 'r' 'R', bytes := has 'b' 'B', formatted := has 'f' 'F' },
        letters.length + if triple then 3 else 1)
    else none

def closingLength (q : Quote) : Nat := if q.triple then 3 else 1

def lineEndLength : List Char → Nat
  | '\r' :: '\n' :: _ => 2
  | '\r' :: _ => 1
  | '\n' :: _ => 1
  | _ => 0

/-- What a backslash takes with it in a raw literal: a quote or backslash, then a line end. -/
def rawEscapeLength (q : Quote) : List Char → Nat
  | c :: cs => if c = q.mark ∨ c = '\\' then 1 + lineEndLength cs else lineEndLength (c :: cs)
  | [] => 0

/-- What a backslash takes with it in other literals, as far as that could be taken for a quote, a
brace or a line break. -/
def escapeLength : List Char → Nat
  | '\r' :: '\n' :: _ => 2
  | 'N' :: '{' :: cs =>
    let name := cs.takeWhile (· != '}')
    if name.isEmpty || name.length == cs.length then 0 else name.length + 3
  | c :: _ => if c = '\n' ∨ c = '\'' ∨ c = '"' ∨ c = '\\' then 1 else 0
  | [] => 0

/-- Length of a literal's text up to its closing quote, or up to a replacement field. The first
number of characters belongs to an escape. `fresh` says that nothing stands between here and the
last quote, escape or field; only then may a line end in a literal with single quotes. -/
def bodyLength? (q : Quote) : Nat → Bool → List Char → Option Nat
  | _, _, [] => none
  | skip + 1, fresh, _ :: cs => (bodyLength? q skip fresh cs).map (· + 1)
  | 0, fresh, c :: cs =>
    if c = '\x00' then none
    else if q.formatted && c == '{' then
      if cs.head? = some '{' then (bodyLength? q 1 true cs).map (· + 1) else some 0
    else if q.formatted && c == '}' then
      if cs.head? = some '}' then (bodyLength? q 1 true cs).map (· + 1) else none
    else if c = '\\' then
      if q.raw then (bodyLength? q (q.rawEscapeLength cs) fresh cs).map (· + 1)
      else if q.bytes && (cs.head? == some 'N' || cs.head? == some 'u' || cs.head? == some 'U') then
        (bodyLength? q 2 false cs).map (· + 1)
      else (bodyLength? q (escapeLength cs) true cs).map (· + 1)
    else if c = q.mark && (!q.triple || doubled q.mark cs) then some 0
    else if c = '\n' && !q.triple && !fresh then none
    else (bodyLength? q 0 false cs).map (· + 1)

def literalLength? (cs : List Char) : Option Nat :=
  match opening? cs with
  | some (q, n) =>
    if q.formatted then none
    else match q.bodyLength? 0 true (cs.drop n) with
      | some m =>
        -- a field is no part of a plain literal, so the body ends at its quote
        some (n + m + q.closingLength)
      | none => none
  | none => none

end Quote

end Footprint.Syntax
