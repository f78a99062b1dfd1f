/-!
Positions in a text: how many characters stand before a place, how many line feeds, and how many
UTF-8 bytes since the last line feed.
-/

namespace Footprint.Syntax

structure Position where
  offset : Nat := 0
  row : Nat := 0
  column : Nat := 0
  deriving DecidableEq, Repr, Inhabited

def Position.after (p : Position) (c : Char) : Position :=
  if c = '\n' then ⟨p.offset + 1, p.row + 1, 0⟩ else ⟨p.offset + 1, p.row, p.column + c.utf8Size⟩

def Position.afterAll (p : Position) (cs : List Char) : Position :=
  cs.foldl Position.after p

@[simp] theorem Position.offset_after (p : Position) (c : Char) :
    (p.after c).offset = p.offset + 1 := by
  unfold Position.after; split <;> rfl

@[simp] theorem Position.afterAll_nil (p : Position) : p.afterAll [] = p := rfl

@[simp] theorem Position.afterAll_cons (p : Position) (c : Char) (cs : List Char) :
    p.afterAll (c :: cs) = (p.after c).afterAll cs := rfl

theorem Position.afterAll_append (p : Position) (cs ds : List Char) :
    p.afterAll (cs ++ ds) = (p.afterAll cs).afterAll ds := by
  simp [Position.afterAll, List.foldl_append]

@[simp] theorem Position.offset_afterAll (p : Position) (cs : List Char) :
    (p.afterAll cs).offset = p.offset + cs.length := by
  induction cs generalizing p with
  | nil => rfl
  | cons c cs ih => simp only [afterAll_cons, ih, offset_after, List.length_cons]; omega

end Footprint.Syntax
