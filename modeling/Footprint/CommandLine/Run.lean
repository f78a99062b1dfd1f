import Footprint.CommandLine.Arguments
import Footprint.Scan

/-!
What the program does with its arguments in a file tree. It writes at most the one file that it is told
to write, and nothing unless all went well.
-/

namespace Footprint.CommandLine

inductive Failure where
  | settings (error : Settings.Error)
  | scan (error : ScanError)
  /-- The text cannot be written to its file. -/
  | output (error : FileError)
  deriving DecidableEq, Repr

inductive Outcome where
  | printed (text : String)
  /-- A text stands in a file, with these files after that. -/
  | written (path : Path) (text : String) (after : FileTree)
  | failed (failure : Failure)
  | refused (error : ArgumentError)

/-- An error, what caused it, what caused that, and so on. -/
def settingsChain (e : Settings.Error) : List String :=
  e.message ::
    match e with
    | .glob e => [e.message]
    | .ignoreFile e => [e.message]
    | .file e => [e.message]
    | .configuration => []

def loadChain (e : LoadError) : List String :=
  e.message ::
    match e with
    | .file e => [e.message]
    | .notebook (.json e) => [e.message]
    | .notebook .noCells => []

def Failure.chain : Failure → List String
  | settings e => settingsChain e
  | scan e =>
    e.message ::
      match e with
      | .settings e => settingsChain e
      | .notebook _ e => loadChain e
  | output e => [e.message]

def indented (blanks : String) (s : String) : String :=
  ("\n" ++ blanks).intercalate ((Text.split '\n' s.toList).map String.ofList)

/-- Causes, which are counted from zero if there are several. -/
def describeCauses : List String → String
  | [] => ""
  | [c] => "\n\nCaused by:\n    " ++ indented "    " c
  | cs => "\n\nCaused by:" ++ String.join (cs.mapIdx fun i c =>
      let number := toString i
      "\n" ++ "".pushn ' ' (5 - number.length) ++ number ++ ": " ++ indented "       " c)

def Failure.message (f : Failure) : String :=
  match f.chain with
  | [] => ""
  | e :: cs => "Error: " ++ e ++ describeCauses cs ++ "\n"

def usage : String :=
  "Usage: nbdeps [OPTIONS] <PATH>\n"

namespace Outcome

def exitCode : Outcome → Nat
  | printed _ | written .. => 0
  | failed _ => 1
  | refused _ => 2

def output : Outcome → String
  | printed text => text ++ "\n"
  | _ => ""

/-- What the program says on the side. -/
def messages : Outcome → String
  | failed f => f.message
  | refused e => "error: " ++ e.message ++ "\n\n" ++ usage
  | _ => ""

def files (before : FileTree) : Outcome → FileTree
  | written _ _ after => after
  | _ => before

end Outcome

def Arguments.settings (as : Arguments) (t : FileTree) : Except Settings.Error Settings := do
  let s : Settings := { root := as.path, ignorePatterns := as.ignore, threads := as.threads }
  let s := (s.addRead as.readPatterns).addWrite as.writePatterns
  let s ← match as.config with
    | some p => s.addFile t p
    | none => .ok s
  return { s with ignoreFile := as.ignoreFile }

def Arguments.text (as : Arguments) (t : FileTree) (record : Nat → ScanRecord) : Except Failure String :=
  match as.settings t with
  | .error e => .error (.settings e)
  | .ok s =>
    let text : Except ScanError String :=
      if t.isDirectory as.path then (·.write as.format) <$> s.scanDirectory t record
      else (·.write as.format) <$> s.scanNotebook t
    match text with
    | .ok text => .ok text
    | .error e => .error (.scan e)

def Arguments.run (as : Arguments) (t : FileTree) (record : Nat → ScanRecord) : Outcome :=
  match as.text t record, as.output with
  | .error e, _ => .failed e
  | .ok text, none => .printed text
  | .ok text, some p =>
    match t.write p text with
    | .ok after => .written p text after
    | .error e => .failed (.output e)

def run (t : FileTree) (record : Nat → ScanRecord) (args : List String) : Outcome :=
  match Arguments.ofList args with
  | .ok as => as.run t record
  | .error .version => .printed ("nbdeps " ++ version)
  | .error .help => .printed usage
  | .error (.refused e) => .refused e

end Footprint.CommandLine
