/-!
Sets of characters given as inclusive ranges of code points. The property tables of the text
modules are such lists, in increasing order.
-/

namespace Footprint.Text

abbrev Ranges := List (Nat × Nat)

def Ranges.contains (rs : Ranges) (c : Char) : Bool :=
  rs.any fun r => r.1 ≤ c.toNat && c.toNat ≤ r.2

end Footprint.Text
