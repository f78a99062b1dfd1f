import Footprint.Ignore.Rule
import Footprint.Path

/-!
Ignore rules for what lies below a directory. Of the rules that hold for a path the last one decides,
and if none holds for it, those for the directories above it.
-/

namespace Footprint

structure IgnoreRules where
  /-- The directory, without a dot and slash before it. -/
  root : Path
  rules : List IgnoreRule
  deriving Repr

namespace IgnoreRules

def dropHead (head cs : List Char) : List Char :=
  if head.isPrefixOf cs then cs.drop head.length else cs

def below (directory : Path) (rules : List IgnoreRule) : IgnoreRules :=
  ⟨⟨String.ofList (dropHead ['.', '/'] directory.text.toList)⟩, rules⟩

def deciding? (rs : IgnoreRules) (p : Path) (isDirectory : Bool) : Option IgnoreRule :=
  rs.rules.reverse.find? (·.holdsFor p.text isDirectory)

/-- The text of a path with that of the root before it taken off. A name without a slash, and any path
if the root is a dot, stays as it is. -/
def strip (rs : IgnoreRules) (p : Path) : Path :=
  let cs := dropHead ['.', '/'] p.text.toList
  let root := rs.root.text.toList
  if rs.root.components = [.here] ∨ !cs.contains '/' ∨ !root.isPrefixOf cs then ⟨String.ofList cs⟩
  else ⟨String.ofList (dropHead ['/'] (cs.drop root.length))⟩

/-- Whether a path is ignored. There is no answer about a path below the root of which an absolute one
is left. -/
def ignores? (rs : IgnoreRules) (p : Path) (isDirectory : Bool) : Option Bool :=
  let q := rs.strip p
  let ignored (rule : Option IgnoreRule) : Bool := rule.any (!·.keeps)
  if rs.rules.isEmpty then some false
  else if p.startsWith rs.root then
    if q.isAbsolute then none
    else some (ignored (((q, isDirectory) :: q.parents.map (·, true)).findSome? fun (p, d) =>
      rs.deciding? p d))
  else some (ignored (rs.deciding? q isDirectory))

end IgnoreRules

end Footprint
