import Footprint.Construct
import Footprint.Text.Blank

/-!
Constructs that the grammar reads but the language refuses. Each rule concerns one node; the first
node in pre-order that breaks its rule is reported.
-/

namespace Footprint.Syntax

inductive Fault where
  | indentation
  | bareWalrus
  | splatAfterKeywords
  | positionalAfterKeywords
  | mixedBytes
  | backtick
  | oldPrint
  | oldExec
  deriving DecidableEq, Repr

def Fault.message : Fault → String
  | .indentation => "inconsistent indentation"
  | .bareWalrus => "unparenthesized assignment expression"
  | .splatAfterKeywords => "iterable unpacking follows keyword argument unpacking"
  | .positionalAfterKeywords => "positional argument follows keyword argument"
  | .mixedBytes => "cannot mix bytes and nonbytes literals"
  | .backtick => "backtick repr"
  | .oldPrint => "Python 2 print statement"
  | .oldExec => "Python 2 exec statement"

namespace Tree

/-- Whether only white space stands between the last line feed and the node. -/
def opensLine (source : List Char) (t : Tree) : Bool :=
  ((source.take t.start.offset).reverse.takeWhile (· ≠ '\n')).all Text.isBlank

/-- The children that open a line and are no extras. -/
def lineOpeners (source : List Char) (t : Tree) : List Tree :=
  t.children.filter fun c => !decide c.IsExtra && c.opensLine source

/-- The first statement of a suite that is not in the column of the others. -/
def misindented? (source : List Char) (t : Tree) : Option Tree :=
  let openers := t.lineOpeners source
  let column := if t.kind = .module then some 0 else openers.head?.map (·.start.column)
  openers.find? fun c => some c.start.column ≠ column

/-- The first argument that may not follow those before it. -/
def misplaced? : (keyword doubleSplat : Bool) → List Tree → Option (Fault × Tree)
  | _, _, [] => none
  | keyword, doubleSplat, a :: as =>
    match a.kind with
    | .comment => misplaced? keyword doubleSplat as
    | .keywordArgument => misplaced? true doubleSplat as
    | .dictionarySplat => misplaced? keyword true as
    | .listSplat =>
      if doubleSplat then some (.splatAfterKeywords, a) else misplaced? keyword doubleSplat as
    | _ =>
      if keyword || doubleSplat then some (.positionalAfterKeywords, a)
      else misplaced? keyword doubleSplat as

def mixesBytes (t : Tree) : Bool :=
  t.parts.any (· == some .bytes) && t.parts.any (· != some .bytes)

def isBacktick (t : Tree) : Bool :=
  (t.spelling.find? fun c => c == '\'' || c == '"' || c == '`') == some '`'

/-- What is wrong with a node itself, and where that shows. -/
def ownFault? (source : List Char) (t : Tree) : Option (Fault × Tree) :=
  match t.kind with
  | .module | .block => (t.misindented? source).map (Fault.indentation, ·)
  | .expressionStatement => (t.children.find? (·.kind = .namedExpression)).map (Fault.bareWalrus, ·)
  | .argumentList => misplaced? false false t.children
  | .concatenatedString => if t.mixesBytes then some (.mixedBytes, t) else none
  | .string => if t.isBacktick then some (.backtick, t) else none
  | .printStatement => some (.oldPrint, t)
  | .execStatement => some (.oldExec, t)
  | _ => none

def fault? (source : List Char) (t : Tree) : Option (Fault × Position) :=
  (t.preorder.findSome? (ownFault? source)).map fun (f, n) => (f, n.start)

end Tree

end Footprint.Syntax
