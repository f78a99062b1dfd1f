import Footprint.Ignore.Filter

/-!
Finding the notebooks below a directory. A directory that is left out is not entered, links are not
followed, and what a directory holds is visited in the order of the names.
-/

namespace Footprint

/-- Whether a path below the root of the rules is left out. There is always an answer about such a
path. -/
def IgnoreFilter.ignores (f : IgnoreFilter) (p : Path) (isDirectory : Bool) : Bool :=
  (f.ignores? p isDirectory).getD false

namespace Search

variable {α : Type}

/-- Puts what belongs to a name before all that belongs to later names. -/
def place (name : String) (x : α) : List (String × α) → List (String × α)
  | [] => [(name, x)]
  | (n, y) :: xs => if n < name then (n, y) :: place name x xs else (name, x) :: (n, y) :: xs

/-- The order of the names. -/
def byName (xs : List (String × α)) : List (String × α) := xs.foldr (fun (n, x) => place n x) []

theorem perm_place (name : String) (x : α) (xs : List (String × α)) :
    (place name x xs).Perm ((name, x) :: xs) := by
  induction xs with
  | nil => exact .refl _
  | cons y ys ih =>
    simp only [place]
    split
    · exact (ih.cons y).trans (.swap ..)
    · exact .refl _

theorem perm_byName (xs : List (String × α)) : (byName xs).Perm xs := by
  induction xs with
  | nil => exact .refl _
  | cons x xs ih => exact (perm_place x.1 x.2 _).trans (ih.cons x)

mutual

def notebooksAt (f : IgnoreFilter) (p : Path) : Entry → List Path
  | .directory es => if f.ignores p true then [] else (byName (notebooksOf f p es)).flatMap Prod.snd
  | _ => if f.ignores p false || !p.isNotebook then [] else [p]

def notebooksOf (f : IgnoreFilter) (p : Path) : List (String × Entry) → List (String × List Path)
  | [] => []
  | (n, e) :: es => (n, notebooksAt f (p.join ⟨n⟩) e) :: notebooksOf f p es

end

/-- The notebooks below a directory, whatever its own name is. -/
def notebooksIn (f : IgnoreFilter) (p : Path) (es : List (String × Entry)) : List Path :=
  (byName (notebooksOf f p es)).flatMap Prod.snd

/-- The root itself, if it is named like a notebook. -/
def rootIfNotebook (p : Path) : List Path := if p.isNotebook then [p] else []

end Search

open Search

/-- The notebooks at or below a root. A root that is a link is followed, and may be a notebook too. -/
def FileTree.findNotebooks (t : FileTree) (f : IgnoreFilter) (root : Path) : List Path :=
  match t.entry false root, t.entry true root with
  | .ok (.directory es), _ => notebooksIn f root es
  | .ok _, .ok (.directory es) => rootIfNotebook root ++ notebooksIn f root es
  | .ok _, .ok _ => rootIfNotebook root
  | _, _ => []

end Footprint
