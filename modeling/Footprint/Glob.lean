/-!
Globs: what their pieces match in a path, byte by byte. `?`, `*` and character classes take bytes, so
a character beyond ASCII is as many bytes as it has.
-/

namespace Footprint

inductive Glob.Piece where
  | literal (c : Char)
  /-- One byte. -/
  | any
  /-- Any number of bytes. -/
  | many
  /-- Any directories before the rest, or none: two stars at the beginning. -/
  | leading
  /-- Any directories between two slashes, or none: two stars between slashes. -/
  | between
  /-- All that a directory holds: two stars behind the last slash. -/
  | trailing
  /-- A byte of one of these ranges, or of none of them. -/
  | oneOf (negated : Bool) (ranges : List (Char × Char))
  /-- One of these globs. -/
  | either (branches : List (List Glob.Piece))
  deriving Repr

structure Glob where
  pieces : List Glob.Piece
  /-- Whether `?` and `*` stop at slashes. -/
  separates : Bool
  deriving Repr

namespace Glob

def bytesOf (c : Char) : List UInt8 := String.utf8EncodeChar c

def slash : UInt8 := 0x2F

/-- Ranges of bytes that a range of characters stands for: the last byte of the first character and
the first byte of the last one bound a range, and the other bytes stand for themselves. -/
def byteRanges (lo hi : Char) : List (UInt8 × UInt8) :=
  let single (b : UInt8) := (b, b)
  if lo = hi then (bytesOf lo).map single
  else
    (bytesOf lo).dropLast.map single ++
      [((bytesOf lo).getLastD 0, (bytesOf hi).headD 0)] ++ (bytesOf hi).tail.map single

def classHolds (negated : Bool) (ranges : List (Char × Char)) (b : UInt8) : Bool :=
  (ranges.any fun (lo, hi) => (byteRanges lo hi).any fun r => r.1 ≤ b && b ≤ r.2) != negated

mutual

/-- Whether a piece has no text at all to match, as a choice of nothing. -/
def Piece.isVoid : Piece → Bool
  | .either branches => areVoid branches
  | _ => false

def areVoid : List (List Piece) → Bool
  | [] => true
  | ps :: pss => isVoid ps && areVoid pss

def isVoid : List Piece → Bool
  | [] => true
  | p :: ps => p.isVoid && isVoid ps

end

section Matching

def takeMany (allowed : UInt8 → Bool) (rest : List UInt8 → Bool) : List UInt8 → Bool
  | [] => rest []
  | b :: bs => rest (b :: bs) || (allowed b && takeMany allowed rest bs)

def behindSlash (rest : List UInt8 → Bool) : List UInt8 → Bool
  | [] => false
  | b :: bs => (b == slash && rest bs) || behindSlash rest bs

def takeBytes (rest : List UInt8 → Bool) : List UInt8 → List UInt8 → Bool
  | [], bs => rest bs
  | _ :: _, [] => false
  | x :: xs, b :: bs => x == b && takeBytes rest xs bs

def takeOne (allowed : UInt8 → Bool) (rest : List UInt8 → Bool) : List UInt8 → Bool
  | [] => false
  | b :: bs => allowed b && rest bs

variable (separates : Bool)

/-- Bytes that `?` and `*` take. -/
def isWild (b : UInt8) : Bool := !separates || b != slash

mutual

/-- Whether a piece takes a beginning of the bytes such that the rest is right. -/
def Piece.takes : Piece → (List UInt8 → Bool) → List UInt8 → Bool
  | .literal c, rest, bs => takeBytes rest (bytesOf c) bs
  | .any, rest, bs => takeOne (isWild separates) rest bs
  | .many, rest, bs => takeMany (isWild separates) rest bs
  | .leading, rest, bs => rest bs || takeOne (· == slash) rest bs || behindSlash rest bs
  | .between, rest, bs => takeOne (· == slash) (fun bs => rest bs || behindSlash rest bs) bs
  | .trailing, rest, bs => takeOne (· == slash) (takeMany (fun _ => true) rest) bs
  | .oneOf negated ranges, rest, bs => takeOne (classHolds negated ranges) rest bs
  | .either branches, rest, bs => if areVoid branches then rest bs else anyTakes branches rest bs

/-- Whether one of these globs does so. Void ones are left out. -/
def anyTakes : List (List Piece) → (List UInt8 → Bool) → List UInt8 → Bool
  | [], _, _ => false
  | ps :: pss, rest, bs => (!isVoid ps && allTake ps rest bs) || anyTakes pss rest bs

def allTake : List Piece → (List UInt8 → Bool) → List UInt8 → Bool
  | [], rest, bs => rest bs
  | p :: ps, rest, bs => p.takes (allTake ps rest) bs

end

end Matching

def Piece.isLiteral : Piece → Bool
  | .literal _ => true
  | _ => false

def Piece.isSlash : Piece → Bool
  | .literal c => c == '/'
  | _ => false

def endsInDot (ps : List Piece) : Bool :=
  match ps.getLast? with
  | some (.literal c) => c == '.'
  | _ => false

/-- Whether a glob asks for a name or an extension that ends in a dot. No path has these: one that
ends in a dot has neither name nor extension. -/
def asksForDot (g : Glob) : Bool :=
  endsInDot g.pieces &&
    match g.pieces with
    | .leading :: .many :: ps => g.separates || ps.length == 1 || !ps.all Piece.isLiteral
    | .leading :: ps => !(ps.all Piece.isLiteral && ps.any Piece.isSlash)
    | .many :: ps => g.separates || ps.length == 1 || !ps.all Piece.isLiteral
    | ps => !ps.all Piece.isLiteral

/-- Whether a glob matches all of these bytes. Two stars alone match everything. -/
def matchesBytes (g : Glob) (bs : List UInt8) : Bool :=
  match g.pieces with
  | [.leading] => true
  | ps => !g.asksForDot && allTake g.separates ps List.isEmpty bs

def isMatch (g : Glob) (s : String) : Bool := g.matchesBytes (s.toList.flatMap bytesOf)

end Glob

end Footprint
