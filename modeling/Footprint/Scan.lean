import Footprint.Load
import Footprint.Report
import Footprint.Search

/-!
Scans: of one notebook, or of all notebooks below a directory. What a notebook of a directory holds
has no bearing on the others; one that cannot be read is reported as failed.
-/

namespace Footprint

inductive ScanError where
  | settings (error : Settings.Error)
  | notebook (path : Path) (error : LoadError)
  deriving DecidableEq, Repr

def ScanError.message : ScanError → String
  | settings e => "Config error: " ++ e.message
  | notebook p e => p.text ++ ": " ++ e.message

namespace Settings

def filter (s : Settings) (t : FileTree) : Except ScanError IgnoreFilter :=
  match IgnoreFilter.ofSettings t s with
  | .ok f => .ok f
  | .error e => .error (.settings e)

def analyze (s : Settings) (t : FileTree) (p : Path) : Except ScanError Analysis :=
  match t.analyze s.patterns p with
  | .ok a => .ok a
  | .error e => .error (.notebook p e)

def scanNotebook (s : Settings) (t : FileTree) : Except ScanError Analysis := do
  let _ ← s.filter t
  s.analyze t s.root

def reportedPath (s : Settings) (p : Path) : Path := (p.relativeTo? s.root).getD p

def reportOn (s : Settings) (t : FileTree) (p : Path) : Except NotebookFailure NotebookReport :=
  match s.analyze t p with
  | .ok a => .ok ⟨s.reportedPath p, a⟩
  | .error e => .error ⟨s.reportedPath p, e.message⟩

def failure? : Except ε α → Option ε
  | .ok _ => none
  | .error e => some e

/-- Analyzes all notebooks below the root. The record depends on how many there are. -/
def scanDirectory (s : Settings) (t : FileTree) (record : Nat → ScanRecord) : Except ScanError Report := do
  let f ← s.filter t
  let outcomes := (t.findNotebooks f s.root).map (s.reportOn t)
  return .ofNotebooks s.root (outcomes.filterMap Except.toOption) (outcomes.filterMap failure?)
    (record outcomes.length)

end Settings

end Footprint
