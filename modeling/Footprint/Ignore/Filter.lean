import Footprint.Ignore.Rules
import Footprint.Settings

/-!
What a scan leaves out: what lies in directories of some names, what a glob of the settings matches,
and what the ignore file says.
-/

namespace Footprint

structure IgnoreFilter where
  globs : List Glob := []
  rules : Option IgnoreRules := none
  deriving Repr

namespace IgnoreFilter

/-- Names of directories that nobody looks for notebooks in. -/
def hiddenNames : List String :=
  [".ipynb_checkpoints", "node_modules", ".venv", "venv", "__pycache__", ".git", "target"]

/-- The glob of all that lies in directories of a name. -/
def inDirectory (name : String) : Glob :=
  ⟨.leading :: (name.toList.map .literal ++ [.trailing]), false⟩

def hiddenGlobs : List Glob := hiddenNames.map inDirectory

/-- Reads globs up to the first text that is none. -/
def readGlobs : List String → Except Settings.Error (List Glob)
  | [] => .ok []
  | s :: ss =>
    match Glob.ofText s with
    | .ok g => (g :: ·) <$> readGlobs ss
    | .error e => .error (.glob e)

/-- The rules of the ignore file: the one that the settings name, which must be in order, or else one
that the root holds. -/
def readRules (t : FileTree) (s : Settings) : Except Settings.Error (Option IgnoreRules) :=
  match s.ignoreFile with
  | some p =>
    match IgnoreFile.read t p with
    | (rules, none) => .ok (some (.below s.root rules))
    | (_, some e) => .error (.ignoreFile e)
  | none =>
    let p := s.root.join ⟨".gitignore"⟩
    if t.exists? p then .ok (some (.below s.root (IgnoreFile.read t p).1)) else .ok none

def ofSettings (t : FileTree) (s : Settings) : Except Settings.Error IgnoreFilter := do
  let rules ← readRules t s
  let globs ← readGlobs s.ignorePatterns
  return ⟨globs, rules⟩

/-- Whether a path is left out. There may be no answer if there are rules. -/
def ignores? (f : IgnoreFilter) (p : Path) (isDirectory : Bool) : Option Bool :=
  if (hiddenGlobs ++ f.globs).any (·.isMatch p.text) then some true
  else
    match f.rules with
    | some rules => rules.ignores? p isDirectory
    | none => some false

end IgnoreFilter

def Path.isNotebook (p : Path) : Bool :=
  p.extension?.any fun e => e.toList.map Char.toLower == "ipynb".toList

end Footprint
