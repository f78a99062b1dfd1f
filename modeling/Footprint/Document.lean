/-!
Documents: trees of lists and records over scalars. A document is what an output format writes and
what a reader of JSON yields.
-/

namespace Footprint

inductive Document where
  | null
  | bool (value : Bool)
  | integer (value : Int)
  | real (value : Float)
  | text (value : String)
  | list (items : List Document)
  /-- Fields in the order in which they are written. -/
  | record (fields : List (String × Document))
  deriving Repr

namespace Document

def natural (n : Nat) : Document := integer n

def texts (ss : List String) : Document := list (ss.map text)

def field? (name : String) : Document → Option Document
  | record fields => fields.lookup name
  | _ => none

def text? : Document → Option String
  | text s => some s
  | _ => none

def natural? : Document → Option Nat
  | integer (.ofNat n) => some n
  | _ => none

def real? : Document → Option Float
  | real f => some f
  | integer n => some (Float.ofInt n)
  | _ => none

def items? : Document → Option (List Document)
  | list ds => some ds
  | _ => none

def texts? (d : Document) : Option (List String) := d.items?.bind (·.mapM text?)

end Document

end Footprint
