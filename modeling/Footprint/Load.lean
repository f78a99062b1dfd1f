import Footprint.Analysis
import Footprint.FileTree
import Footprint.Notebook.Reader

/-!
Analyzing the notebook in a file.
-/

namespace Footprint

inductive LoadError where
  | file (error : FileError)
  | notebook (error : Notebook.Error)
  deriving DecidableEq, Repr

def LoadError.message : LoadError → String
  | file e => "Failed to read notebook: " ++ e.message
  | notebook e => e.message

def FileTree.notebook (t : FileTree) (p : Path) : Except LoadError Notebook :=
  match t.readText p with
  | .error e => .error (.file e)
  | .ok s =>
    match Notebook.ofJson s with
    | .error e => .error (.notebook e)
    | .ok n => .ok n

def FileTree.analyze (t : FileTree) (patterns : AccessPatterns) (p : Path) :
    Except LoadError Analysis :=
  match t.notebook p with
  | .error e => .error e
  | .ok n => .ok (n.analyze patterns)

end Footprint
