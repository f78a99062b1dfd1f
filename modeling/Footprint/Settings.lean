import Footprint.Access
import Footprint.Ignore.File
import Footprint.Toml.Reader

/-!
Settings of a scan. A configuration text and the command line add to the same lists of patterns.
-/

namespace Footprint

structure Settings where
  /-- The notebook or directory to scan. -/
  root : Path := ⟨"."⟩
  patterns : AccessPatterns := {}
  /-- Globs of what is left out. -/
  ignorePatterns : List String := []
  ignoreFile : Option Path := none
  /-- How many threads may work; none stands for as many as there are. -/
  threads : Nat := 0
  deriving DecidableEq, Repr

inductive Settings.Error where
  | glob (error : Glob.Error)
  | ignoreFile (error : IgnoreFile.Error)
  | file (error : FileError)
  /-- A configuration text is no TOML, or its patterns are no lists of texts. -/
  | configuration
  deriving DecidableEq, Repr

def Settings.Error.message : Settings.Error → String
  | glob e => "Failed to build glob pattern: " ++ e.message
  | ignoreFile e => "Failed to parse gitignore: " ++ e.message
  | file e => "IO error: " ++ e.message
  | configuration => "Failed to parse config file"

structure Configuration where
  read : List String := []
  write : List String := []
  deriving DecidableEq, Repr

namespace Configuration

def text? : Toml.Node → Option String
  | .text s => some s
  | _ => none

/-- The patterns in a list; one that is missing is empty. -/
def list? : Option Toml.Node → Option (List String)
  | some (.list items) => items.mapM text?
  | some _ => none
  | none => some []

/-- The patterns in a table, or in a list of both lists. -/
def ofNode? : Toml.Node → Option Configuration
  | .table _ fields => do
    return ⟨← list? (fields.lookup "read"), ← list? (fields.lookup "write")⟩
  | .list items => do
    return ⟨← list? items[0]?, ← list? items[1]?⟩
  | .moment => some {}
  | _ => none

/-- Reads a configuration. Only its `patterns` count. -/
def ofToml? (s : String) : Option Configuration := do
  match (← Toml.Fields.ofText? s).lookup "patterns" with
  | some n => ofNode? n
  | none => return {}

end Configuration

namespace Settings

def addRead (s : Settings) (new : List String) : Settings :=
  { s with patterns := s.patterns.addRead new }

def addWrite (s : Settings) (new : List String) : Settings :=
  { s with patterns := s.patterns.addWrite new }

def configure (s : Settings) (c : Configuration) : Settings := (s.addRead c.read).addWrite c.write

@[simp] theorem configure_empty (s : Settings) : s.configure {} = s := rfl

def addToml (s : Settings) (text : String) : Except Error Settings :=
  match Configuration.ofToml? text with
  | some c => .ok (s.configure c)
  | none => .error .configuration

def addFile (s : Settings) (t : FileTree) (p : Path) : Except Error Settings :=
  match t.readText p with
  | .ok text => s.addToml text
  | .error e => .error (.file e)

end Settings

end Footprint
