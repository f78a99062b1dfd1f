import Footprint.Decimal

/-!
Instants as text: date and time of the universal day, and a fraction of a second in groups of three
digits, as many as it takes.
-/

namespace Footprint.Timestamp

structure Date where
  year : Nat
  month : Nat
  day : Nat
  deriving DecidableEq, Repr

/-- The date so many days after the first of January 1970. Years begin in March here, so that a leap day
is the last one, and four centuries have as many days as any other four. -/
def date (days : Nat) : Date :=
  let n := days + 719468
  let cycle := n / 146097
  let d := n % 146097
  let y := (d - d / 1460 + d / 36524 - d / 146096) / 365
  let d := d - (365 * y + y / 4 - y / 100)
  let m := (5 * d + 2) / 153
  let month := if m < 10 then m + 3 else m - 9
  ⟨400 * cycle + y + if month ≤ 2 then 1 else 0, month, d - (153 * m + 2) / 5 + 1⟩

def padded (width n : Nat) : String :=
  let ds := Decimal.digits n
  String.ofList (Decimal.zeros (width - ds.length) ++ ds)

def fraction (nanoseconds : Nat) : String :=
  if nanoseconds = 0 then ""
  else if nanoseconds % 1000000 = 0 then "." ++ padded 3 (nanoseconds / 1000000)
  else if nanoseconds % 1000 = 0 then "." ++ padded 6 (nanoseconds / 1000)
  else "." ++ padded 9 nanoseconds

def write (nanoseconds : Nat) : String :=
  let seconds := nanoseconds / 1000000000
  let d := date (seconds / 86400)
  let s := seconds % 86400
  padded 4 d.year ++ "-" ++ padded 2 d.month ++ "-" ++ padded 2 d.day ++ "T" ++
    padded 2 (s / 3600) ++ ":" ++ padded 2 (s / 60 % 60) ++ ":" ++ padded 2 (s % 60) ++
    fraction (nanoseconds % 1000000000) ++ "+00:00"

example : date 0 = ⟨1970, 1, 1⟩ := by decide

example : date 19782 = ⟨2024, 2, 29⟩ := by decide

end Footprint.Timestamp
