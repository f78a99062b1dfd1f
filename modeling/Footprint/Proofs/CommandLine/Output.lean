import Footprint.CommandLine.Arguments

/-!
# Arguments without an output file

A run is asked for the same thing without an output file by the same arguments without that option and its value. The
option may stand in a word of its own or behind other letters, and its value behind it or in the next argument, so
what is dropped depends on the shape of each argument.
-/

namespace Footprint.CommandLine

variable {d e : Draft} {p : Parameter} {value a : String}

def lettersKept : List Char → List Char
  | [] => []
  | c :: cs =>
    match Flag.ofLetter? c with
    | some (.parameter .output) => []
    | some (.parameter _) => c :: cs
    | _ => c :: lettersKept cs

def Shape.kept (argument : String) : Shape → List String
  | .named name _ => if Flag.ofName? name = some (.parameter .output) then [] else [argument]
  | .letters cs => if lettersKept cs = [] then [] else [String.ofList ('-' :: lettersKept cs)]
  | _ => [argument]

def Draft.anonymous (d : Draft) : Draft := { d with output := none }

def notOutput (awaited : Option Parameter) : Option Parameter := awaited.filter fun p => p ≠ .output

namespace Draft

/-- What reading an argument comes to without the output file: nothing, or the same from what is left of it. -/
def Keeps (a : String) (shape : Shape) (d e : Draft) (awaited : Option Parameter) : Prop :=
  (shape.kept a = [] ∧ e.anonymous = d.anonymous ∧ notOutput awaited = none) ∨
    ∃ b, shape.kept a = [b] ∧ Shape.ofText b ≠ .separator ∧
      d.anonymous.take b (Shape.ofText b) = .ok (e.anonymous, notOutput awaited)

end Draft

/-! ### All arguments -/

end Footprint.CommandLine
