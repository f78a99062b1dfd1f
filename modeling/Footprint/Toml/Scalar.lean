import Footprint.Decimal
import Footprint.Toml.Text

/-!
Numbers, dates and times of TOML: which texts write one. What they write is not kept. Each function
says what follows, if there is one.
-/

namespace Footprint.Toml

open Text

/-- Reads digits, between which single low lines may stand. -/
def digits? (ok : Char → Bool) : List Char → Option (List Char × List Char)
  | [] => none
  | c :: cs =>
    if ok c then
      match cs with
      | [] => some ([c], [])
      | '_' :: cs => prepend c (digits? ok cs)
      | d :: ds => if ok d then prepend c (digits? ok (d :: ds)) else some ([c], d :: ds)
    else none

def isSign (c : Char) : Bool := c == '+' || c == '-'

def takeSign : List Char → Option Char × List Char
  | c :: cs => if isSign c then (some c, cs) else (none, c :: cs)
  | [] => (none, [])

/-- Integers fit a signed word of 64 bits. -/
def fitsWord (negative : Bool) (n : Nat) : Bool := n ≤ if negative then 0x8000000000000000 else 0x7FFFFFFFFFFFFFFF

def fraction? : List Char → Option (List Char × List Char)
  | '.' :: cs => digits? isDigit cs
  | cs => some ([], cs)

def exponent? : List Char → Option (Int × List Char)
  | [] => some (0, [])
  | e :: cs =>
    if e = 'e' ∨ e = 'E' then
      let (sign, cs) := takeSign cs
      (digits? isDigit cs).map fun (ds, cs) =>
        let n : Int := digitsValue 10 ds
        (if sign = some '-' then -n else n, cs)
    else some (0, e :: cs)

/-- What a number in base ten leaves. -/
def afterDecimal? (cs : List Char) : Option (List Char) := do
  let (sign, cs) := takeSign cs
  let (whole, cs) ← digits? isDigit cs
  if whole.head? = some '0' && 1 < whole.length then failure
  match cs with
  | c :: _ =>
    if c = '.' ∨ c = 'e' ∨ c = 'E' then
      let (part, cs) ← fraction? cs
      let (exponent, cs) ← exponent? cs
      if sign ≠ some '-' && Decimal.overflows (digitsValue 10 (whole ++ part)) (exponent - part.length) then
        failure
      return cs
  | [] => pure ()
  if fitsWord (sign = some '-') (digitsValue 10 whole) then return cs else failure

/-- What a number in another base leaves, behind the letter for the base. -/
def afterBased? (base : Nat) (ok : Char → Bool) (cs : List Char) : Option (List Char) := do
  let (ds, cs) ← digits? ok cs
  if fitsWord false (digitsValue base ds) then return cs else failure

def afterWord? (word : List Char) (cs : List Char) : Option (List Char) :=
  if word.isPrefixOf cs then some (cs.drop word.length) else none

def afterSpecial? (cs : List Char) : Option (List Char) :=
  let (_, cs) := takeSign cs
  afterWord? ['i', 'n', 'f'] cs <|> afterWord? ['n', 'a', 'n'] cs

def afterNumber? : List Char → Option (List Char)
  | '0' :: 'x' :: cs => afterBased? 16 isHex cs
  | '0' :: 'o' :: cs => afterBased? 8 isOctal cs
  | '0' :: 'b' :: cs => afterBased? 2 isBinary cs
  | cs => afterSpecial? cs <|> afterDecimal? cs

/-- Reads exactly so many digits of a number between two bounds. -/
def field? (width least most : Nat) (cs : List Char) : Option (Nat × List Char) :=
  let ds := cs.take width
  let n := digitsValue 10 ds
  if ds.length = width && ds.all isDigit && least ≤ n && n ≤ most then some (n, cs.drop width) else none

def isLeap (year : Nat) : Bool := year % 4 == 0 && (year % 100 != 0 || year % 400 == 0)

def daysIn (year month : Nat) : Nat :=
  if month = 2 then if isLeap year then 29 else 28
  else if month ∈ [4, 6, 9, 11] then 30
  else 31

def afterDate? (cs : List Char) : Option (List Char) := do
  let (year, cs) ← field? 4 0 9999 cs
  let cs ← afterWord? ['-'] cs
  let (month, cs) ← field? 2 1 12 cs
  let cs ← afterWord? ['-'] cs
  let (_, cs) ← field? 2 1 (daysIn year month) cs
  return cs

def afterFraction : List Char → List Char
  | '.' :: c :: cs => if isDigit c then cs.dropWhile isDigit else '.' :: c :: cs
  | cs => cs

def afterTime? (cs : List Char) : Option (List Char) := do
  let (_, cs) ← field? 2 0 23 cs
  let cs ← afterWord? [':'] cs
  let (_, cs) ← field? 2 0 59 cs
  let cs ← afterWord? [':'] cs
  let (_, cs) ← field? 2 0 60 cs
  return afterFraction cs

def afterOffset? : List Char → Option (List Char)
  | [] => none
  | c :: cs =>
    if c = 'Z' ∨ c = 'z' then some cs
    else if isSign c then do
      let (_, cs) ← field? 2 0 23 cs
      let cs ← afterWord? [':'] cs
      let (_, cs) ← field? 2 0 59 cs
      return cs
    else none

/-- What the time behind a date leaves; there may be none. -/
def afterDateTime (cs : List Char) : List Char :=
  match cs with
  | c :: ds =>
    if c = 'T' ∨ c = 't' ∨ c = ' ' then
      match afterTime? ds with
      | some ds => (afterOffset? ds).getD ds
      | none => cs
    else cs
  | [] => []

/-- What a date, a time or both leave. -/
def afterMoment? (cs : List Char) : Option (List Char) :=
  (afterDate? cs).map afterDateTime <|> afterTime? cs

end Footprint.Toml
