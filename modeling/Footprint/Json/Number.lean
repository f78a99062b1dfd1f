import Footprint.Decimal
import Footprint.Document
import Footprint.Json.Cursor

/-!
JSON numbers. A number without fraction and exponent that fits 64 bits is an integer; any other is a
binary fraction, and it must be finite. Significant digits beyond 64 bits are dropped.
-/

namespace Footprint.Json

open Text

def numbers : Decimal.Style := { plus := true }

/-- The next character, or NUL at the end of the text. -/
def peekOrNull : Reader Char := fun c => .ok (c.rest.headD '\x00', c)

/-- Unsigned words are less than this. -/
def limit64 : Nat := 0x10000000000000000

def power (n : Nat) : Float := Float.ofScientific 1 false n

/-- The product of a significand and a power of ten, scaled down in steps if the power is small.
Nothing comes of it if it is infinite. -/
def scaled? (fuel : Nat) (f : Float) (exponent : Int) : Option Float :=
  if exponent.natAbs ≤ 308 then
    if 0 ≤ exponent then
      let f := f * power exponent.natAbs
      if f.isInf then none else some f
    else some (f / power exponent.natAbs)
  else if f == 0.0 then some f
  else if 0 ≤ exponent then none
  else
    match fuel with
    | 0 => some 0.0
    | fuel + 1 => scaled? fuel (f / power 308) (exponent + 308)

def finish (positive : Bool) (significand : Nat) (exponent : Int) : Reader Document :=
  match scaled? 8 (Float.ofNat significand) exponent with
  | some f => pure (.real (if positive then f else -f))
  | none => failHere .numberOutOfRange

/-- Reads digits, first those of an exponent already read. The result is missing if they exceed 31
bits, with the digits behind that point unread. -/
def exponentDigits : List Char → Nat → Reader (Option Nat)
  | [], n => pure (some n)
  | _ :: f, n => do
    let x ← peekOrNull
    if isDigit x then
      advance
      let m := n * 10 + digitValue x
      if m < 0x80000000 then exponentDigits f m else return none
    else return some n

def skipDigits : List Char → Reader Unit
  | [] => pure ()
  | _ :: f => do
    if isDigit (← peekOrNull) then
      advance
      skipDigits f

def exponent (positive : Bool) (significand : Nat) (start : Int) : Reader Document := do
  advance
  let sign ← peekOrNull
  if sign = '+' || sign = '-' then advance
  let raises := sign ≠ '-'
  match ← peek with
  | none => failHere .endInValue
  | some x =>
    if !isDigit x then failNext .invalidNumber
    else
      advance
      match ← exponentDigits (← remaining) (digitValue x) with
      | some n => finish positive significand (if raises then start + n else start - n)
      | none =>
        if significand ≠ 0 && raises then failHere .numberOutOfRange
        else
          skipDigits (← remaining)
          return .real (if positive then 0.0 else -0.0)

def hasExponent (x : Char) : Bool := x == 'e' || x == 'E'

def maybeExponent (positive : Bool) (significand : Nat) (scale : Int) : Reader Document := do
  if hasExponent (← peekOrNull) then exponent positive significand scale
  else finish positive significand scale

/-- Reads the digits of a fraction: the significand with them and how many there are. -/
def fractionDigits : List Char → Nat → Nat → Reader (Nat × Nat × Bool)
  | [], s, n => pure (s, n, false)
  | _ :: f, s, n => do
    let x ← peekOrNull
    if isDigit x then
      let t := s * 10 + digitValue x
      if t < limit64 then
        advance
        fractionDigits f t (n + 1)
      else return (s, n, true)
    else return (s, n, false)

def fraction (positive : Bool) (significand : Nat) (start : Int) : Reader Document := do
  advance
  let (s, n, full) ← fractionDigits (← remaining) significand 0
  if full then
    skipDigits (← remaining)
    maybeExponent positive s (start - n)
  else if n = 0 then
    match ← peek with
    | some _ => failNext .invalidNumber
    | none => failHere .endInValue
  else maybeExponent positive s (start - n)

/-- A whole number as a document. What does not fit a signed word becomes a fraction. -/
def whole (positive : Bool) (n : Nat) : Document :=
  if positive then .integer n
  else if n = 0 || 0x8000000000000000 < n then .real (-Float.ofNat n)
  else .integer (-n)

def afterWhole (positive : Bool) (n : Nat) : Reader Document := do
  let x ← peekOrNull
  if x = '.' then fraction positive n 0
  else if hasExponent x then exponent positive n 0
  else return whole positive n

def excessDigits : List Char → Nat → Reader Nat
  | [], n => pure n
  | _ :: f, n => do
    if isDigit (← peekOrNull) then
      advance
      excessDigits f (n + 1)
    else return n

def wholeDigits (positive : Bool) : List Char → Nat → Reader Document
  | [], n => afterWhole positive n
  | _ :: f, n => do
    let x ← peekOrNull
    if isDigit x then
      let m := n * 10 + digitValue x
      if m < limit64 then
        advance
        wholeDigits positive f m
      else
        let excess ← excessDigits (← remaining) 0
        let x ← peekOrNull
        if x = '.' then fraction positive n excess
        else maybeExponent positive n excess
    else afterWhole positive n

def number (positive : Bool) : Reader Document := do
  match ← peek with
  | none => failHere .endInValue
  | some x =>
    if x = '0' then
      advance
      if isDigit (← peekOrNull) then failNext .invalidNumber else afterWhole positive 0
    else if isDigit x then
      advance
      wholeDigits positive (← remaining) (digitValue x)
    else failNext .invalidNumber

def skipExponent : Reader Unit := do
  advance
  let sign ← peekOrNull
  if sign = '+' || sign = '-' then advance
  if isDigit (← peekOrNull) then skipDigits (← remaining) else failNext .invalidNumber

/-- Passes a number behind its sign, of any size. -/
def skipNumber : Reader Unit := do
  let x ← peekOrNull
  if x = '0' then
    advance
    if isDigit (← peekOrNull) then failNext .invalidNumber
  else if isDigit x then skipDigits (← remaining)
  else failNext .invalidNumber
  let x ← peekOrNull
  if x = '.' then
    advance
    if isDigit (← peekOrNull) then skipDigits (← remaining) else failNext .invalidNumber
    if hasExponent (← peekOrNull) then skipExponent
  else if hasExponent x then skipExponent

end Footprint.Json
