/-!
Decimal text of binary fractions: the fewest digits that read back, and a fixed number of places. All
arithmetic is exact, on natural numbers.
-/

namespace Footprint.Decimal

/-- The size of a binary fraction: a whole number of units, each a power of two. -/
structure Magnitude where
  units : Nat
  /-- The exponent of the unit. -/
  scale : Int
  /-- Whether the next smaller fraction is only half a unit away. -/
  closeBelow : Bool
  deriving DecidableEq, Repr

inductive Binary where
  | finite (negative : Bool) (magnitude : Magnitude)
  | infinite (negative : Bool)
  | undefined
  deriving DecidableEq, Repr

/-- Takes a word of 64 bits apart: a sign, eleven bits of exponent and 52 of fraction. -/
def Binary.ofBits (bits : Nat) : Binary :=
  let negative := bits / 0x8000000000000000 = 1
  let exponent : Nat := bits / 0x10000000000000 % 0x800
  let fraction := bits % 0x10000000000000
  if exponent = 0x7FF then
    if fraction = 0 then .infinite negative else .undefined
  else if exponent = 0 then .finite negative ⟨fraction, -1074, false⟩
  else .finite negative ⟨0x10000000000000 + fraction, (exponent : Int) - 1075, fraction = 0 ∧ 1 < exponent⟩

def Binary.ofFloat (f : Float) : Binary := ofBits f.toBits.toNat

def digits (n : Nat) : List Char := Nat.toDigits 10 n

def tenTo (n : Nat) : Nat := Nat.pow 10 n

/-- The least size that is rounded to infinity. -/
def overflow : Nat := Nat.pow 2 1024 - Nat.pow 2 970

def overflows (n : Nat) (exponent : Int) : Bool :=
  let width := (digits n).length + exponent
  n ≠ 0 && 308 < width &&
    (309 < width || overflow * tenTo (-exponent).toNat ≤ n * tenTo exponent.toNat)

/-- The value of `n * 2 ^ scale * 10 ^ -place` as a quotient. -/
def quotient (n : Nat) (scale place : Int) : Nat × Nat :=
  (n * Nat.pow 2 scale.toNat * tenTo (-place).toNat, Nat.pow 2 (-scale).toNat * tenTo place.toNat)

/-- The exponent of the first digit of a quotient that is not zero. -/
def leading (n d : Nat) : Int :=
  let guess : Int := (digits n).length - (digits d).length
  let reached := if 0 ≤ guess then d * tenTo guess.toNat ≤ n else d ≤ n * tenTo (-guess).toNat
  if reached then guess else guess - 1

/-- The multiple of a power of ten that reads back as the fraction and is nearest to it; the even one
of two. -/
def Magnitude.onGrid? (m : Magnitude) (place : Int) : Option Nat :=
  let (n, d) := quotient (4 * m.units) (m.scale - 2) place
  let (up, _) := quotient (4 * m.units + 2) (m.scale - 2) place
  let (down, _) := quotient (4 * m.units - if m.closeBelow then 1 else 2) (m.scale - 2) place
  let ends := m.units % 2 = 0
  let low := n / d
  let high := low + 1
  let lowFits := if ends then down ≤ low * d else down < low * d
  let highFits := if ends then high * d ≤ up else high * d < up
  let lowNearer := 2 * (n % d) < d ∨ (2 * (n % d) = d ∧ low % 2 = 0)
  if lowFits ∧ (lowNearer ∨ ¬highFits) then some low
  else if highFits then some high
  else none

def Magnitude.shortestFrom (m : Magnitude) (first : Int) : Nat → Nat → Nat × Int
  | 0, _ => (0, 0)
  | f + 1, count =>
    match m.onGrid? (first - count) with
    | some k => (k, first - count)
    | none => m.shortestFrom first f (count + 1)

/-- The fewest digits that read back, as a whole number and the exponent of its last digit. Seventeen
always do. -/
def Magnitude.shortest (m : Magnitude) : Nat × Int :=
  if m.units = 0 then (0, 0)
  else
    let (n, d) := quotient m.units m.scale 0
    m.shortestFrom (leading n d) 17 0

structure Style where
  /-- The exponents of the first digit that are written without an exponent. -/
  least : Int := -5
  most : Int := 15
  /-- Whether an exponent that is not negative has a sign. -/
  plus : Bool
  deriving DecidableEq, Repr

def zeros (n : Nat) : List Char := List.replicate n '0'

/-- Digits with a point or an exponent; the last digit has this place. -/
def Style.layOut (s : Style) (ds : List Char) (place : Int) : List Char :=
  let first := place + ds.length - 1
  if first < s.least ∨ s.most < first then
    let mantissa := match ds with
      | [] => []
      | [d] => [d]
      | d :: ds => d :: '.' :: ds
    let sign := if first < 0 then ['-'] else if s.plus then ['+'] else []
    mantissa ++ 'e' :: sign ++ digits first.natAbs
  else if 0 ≤ place then ds ++ zeros place.toNat ++ ['.', '0']
  else if 0 ≤ first then ds.take (first.toNat + 1) ++ '.' :: ds.drop (first.toNat + 1)
  else '0' :: '.' :: zeros (-first - 1).toNat ++ ds

/-- Drops zeros at the end of a whole number that is not zero, and says how many. -/
def dropZeros (ds : List Char) : List Char × Nat :=
  let kept := (ds.reverse.dropWhile (· == '0')).reverse
  (kept, ds.length - kept.length)

def sign (negative : Bool) : List Char := if negative then ['-'] else []

/-- The shortest text of a finite fraction. Zero is `0.0`. -/
def Style.writeMagnitude (s : Style) (m : Magnitude) : List Char :=
  if m.units = 0 then ['0', '.', '0']
  else
    let (k, place) := m.shortest
    let (ds, dropped) := dropZeros (digits k)
    s.layOut ds (place + dropped)

def Style.write? (s : Style) : Binary → Option String
  | .finite negative m => some (String.ofList (sign negative ++ s.writeMagnitude m))
  | _ => none

/-- A quotient to the nearest whole number; the even one of two. -/
def roundDiv (n d : Nat) : Nat :=
  let low := n / d
  if 2 * (n % d) < d ∨ (2 * (n % d) = d ∧ low % 2 = 0) then low else low + 1

def fixedMagnitude (places : Nat) (m : Magnitude) : List Char :=
  let (n, d) := quotient m.units m.scale (-places)
  let ds := digits (roundDiv n d)
  let ds := zeros (places + 1 - ds.length) ++ ds
  ds.take (ds.length - places) ++ '.' :: ds.drop (ds.length - places)

def fixed (places : Nat) : Binary → String
  | .finite negative m => String.ofList (sign negative ++ fixedMagnitude places m)
  | .infinite negative => if negative then "-inf" else "inf"
  | .undefined => "NaN"

end Footprint.Decimal
