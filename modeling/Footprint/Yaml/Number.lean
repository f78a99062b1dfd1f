import Footprint.Decimal
import Footprint.Text.Digits

/-!
Texts that a reader of YAML takes for numbers.
-/

namespace Footprint.Yaml

open Text

def least128 : Nat := 0x80000000000000000000000000000000

def most128 : Nat := 0xFFFFFFFFFFFFFFFFFFFFFFFFFFFFFFFF

/-- Digits of a base, of a number that is not too large. -/
def isWhole (base : Nat) (ok : Char → Bool) (most : Nat) (cs : List Char) : Bool :=
  !cs.isEmpty && cs.all ok && digitsValue base cs ≤ most

/-- A whole number behind its sign, in base ten or with a letter for its base. -/
def isInteger (most : Nat) : List Char → Bool
  | '0' :: 'x' :: cs => isWhole 16 isHex most cs
  | '0' :: 'o' :: cs => isWhole 8 isOctal most cs
  | '0' :: 'b' :: cs => isWhole 2 isBinary most cs
  | cs => isWhole 10 isDigit most cs

def dropSign : List Char → List Char
  | '+' :: cs => cs
  | '-' :: cs => cs
  | cs => cs

def isPadded (cs : List Char) : Bool :=
  match dropSign cs with
  | '0' :: d :: ds => (d :: ds).all isDigit
  | _ => false

def exponent? : List Char → Option Int
  | [] => some 0
  | e :: cs =>
    let ds := dropSign cs
    if (e = 'e' ∨ e = 'E') ∧ ds ≠ [] ∧ ds.all isDigit then
      some (if cs.head? = some '-' then -(digitsValue 10 ds : Int) else digitsValue 10 ds)
    else none

/-- A number in base ten, with a fraction or an exponent or without; it is not too large. -/
def isDecimal (cs : List Char) : Bool :=
  let whole := cs.takeWhile isDigit
  let (part, cs) := match cs.dropWhile isDigit with
    | '.' :: cs => (cs.takeWhile isDigit, cs.dropWhile isDigit)
    | cs => ([], cs)
  match exponent? cs with
  | some e =>
    whole ++ part ≠ [] && !Decimal.overflows (digitsValue 10 (whole ++ part)) (e - part.length)
  | none => false

def infinities : List (List Char) := [".inf", ".Inf", ".INF"].map String.toList

def undefineds : List (List Char) := [".nan", ".NaN", ".NAN"].map String.toList

def isNumber (cs : List Char) : Bool :=
  match cs with
  | '-' :: ds =>
    if isPadded cs then false
    else isInteger least128 ds || isDecimal ds || infinities.contains ds
  | '+' :: ds =>
    if isPadded cs then false
    else isInteger most128 ds || isDecimal ds || infinities.contains ds
  | _ =>
    if isPadded cs then false
    else isInteger most128 cs || isDecimal cs || infinities.contains cs || undefineds.contains cs

end Footprint.Yaml
