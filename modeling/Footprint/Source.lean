import Footprint.Syntax.Grammar
import Footprint.Syntax.Conformance

/-!
Reading the source of a code cell: its constructs, or why it is not valid.
-/

namespace Footprint

/-- Why a source is refused: the grammar does not read it, or a node of its tree breaks a rule. -/
inductive SourceError where
  | grammar
  | fault (fault : Syntax.Fault) (row column : Nat)
  deriving DecidableEq, Repr

/-- Lines and columns are counted from one. -/
def SourceError.message : SourceError → String
  | .grammar => "Failed to parse source code: syntax error"
  | .fault f row column =>
    s!"Failed to parse source code: {f.message} at line {row + 1}, column {column + 1}"

def Syntax.Tree.analyze (source : List Char) (t : Syntax.Tree) : Except SourceError (List Construct) :=
  match t.fault? source with
  | some (f, p) => .error (.fault f p.row p.column)
  | none => .ok t.constructs

def constructsOf (source : String) : Except SourceError (List Construct) :=
  match Syntax.Tree.ofSource? source.toList with
  | some t => t.analyze source.toList
  | none => .error .grammar

end Footprint
