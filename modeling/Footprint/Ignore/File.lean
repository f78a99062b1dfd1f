import Footprint.FileTree
import Footprint.Ignore.Rule

/-!
Ignore files. A line that is no rule is an error of its own and takes nothing from the other lines;
reading stops only at a line that is no text.
-/

namespace Footprint

namespace IgnoreFile

inductive Problem where
  | glob (error : Glob.Error)
  | file (error : FileError)
  deriving DecidableEq, Repr

def Problem.message : Problem → String
  | glob e => e.message
  | file e => e.message

inductive Error where
  | unreadable (path : Path) (error : FileError)
  /-- Lines with errors, counted from one. -/
  | lines (path : Path) (errors : List (Nat × Problem))
  deriving DecidableEq, Repr

def Error.message : Error → String
  | unreadable path e => path.text ++ ": " ++ e.message
  | lines path errors => "\n".intercalate (errors.map fun (n, p) =>
      path.text ++ ": line " ++ toString n ++ ": " ++ p.message)

/-- Drops the marks that a file may begin with. -/
def dropMarks (s : String) : String := String.ofList (s.toList.dropWhile (· == '\ufeff'))

/-- What a line holds: a rule, nothing or an error. -/
abbrev Line := Except Problem (Option IgnoreRule)

def line (s : String) : Line :=
  match IgnoreRule.ofLine s with
  | .ok rule => .ok rule
  | .error e => .error (.glob e)

/-- Reads lines up to one that is no text. -/
def readLines : List (Option String) → List Line
  | [] => []
  | some s :: ss => line s :: readLines ss
  | none :: _ => [.error (.file .notText)]

/-- Reads the lines of a file, of which the first one may have marks. -/
def ofLines : List (Option String) → List Line
  | some s :: ss => readLines (some (dropMarks s) :: ss)
  | ss => readLines ss

def rules (ls : List Line) : List IgnoreRule := ls.filterMap fun l => l.toOption.join

/-- The errors of lines that come behind so many others. -/
def problems (ls : List Line) : List (Nat × Problem) :=
  ls.zipIdx.filterMap fun
    | (.error p, i) => some (i + 1, p)
    | (.ok _, _) => none

def read (t : FileTree) (p : Path) : List IgnoreRule × Option Error :=
  let result (ls : List Line) : List IgnoreRule × Option Error :=
    (rules ls, if (problems ls).isEmpty then none else some (.lines p (problems ls)))
  match t.read p with
  | .ok content => result (ofLines content.lines)
  | .error .isDirectory => result [.error (.file .isDirectory)]
  | .error e => ([], some (.unreadable p e))

end IgnoreFile

end Footprint
