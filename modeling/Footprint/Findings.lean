import Footprint.Access
import Footprint.Construct

/-!
What the constructs of a source say about imports and files. Each construct contributes on its own,
and a file counts only if the first positional argument is a text constant.
-/

namespace Footprint

structure Findings where
  imports : List String := []
  filesRead : List String := []
  filesWritten : List String := []
  deriving DecidableEq, Repr

namespace Findings

def append (f g : Findings) : Findings :=
  ⟨f.imports ++ g.imports, f.filesRead ++ g.filesRead, f.filesWritten ++ g.filesWritten⟩

instance : Append Findings := ⟨append⟩

@[simp] theorem imports_append (f g : Findings) : (f ++ g).imports = f.imports ++ g.imports := rfl

@[simp] theorem filesRead_append (f g : Findings) : (f ++ g).filesRead = f.filesRead ++ g.filesRead := rfl

@[simp] theorem filesWritten_append (f g : Findings) :
    (f ++ g).filesWritten = f.filesWritten ++ g.filesWritten := rfl

def isEmpty (f : Findings) : Bool :=
  f.imports.isEmpty && f.filesRead.isEmpty && f.filesWritten.isEmpty

end Findings

def qualified : Option String → String → String
  | some module, name => if module = "" then name else module ++ "." ++ name
  | none, name => name

/-- How a call treats the file that its first argument names. -/
def callAccess (patterns : AccessPatterns) (callee : Callee) (mode : Option String) : Access :=
  match callee with
  | .member method => patterns.classify method
  | .name name => if name = "open" then ⟨!isWriteMode mode, isWriteMode mode⟩ else ⟨false, false⟩
  | .other => ⟨false, false⟩

namespace Construct

def imports : Construct → List String
  | importModules names => names
  | importFrom module names => names.map (qualified module)
  | _ => []

def file? (patterns : AccessPatterns) : Construct → Option (String × Access)
  | call callee (.text target :: rest) =>
    some (target, callAccess patterns callee (rest.head?.bind Argument.text?))
  | _ => none

def filesRead (patterns : AccessPatterns) (c : Construct) : List String :=
  match c.file? patterns with
  | some (target, access) => if access.read then [target] else []
  | none => []

def filesWritten (patterns : AccessPatterns) (c : Construct) : List String :=
  match c.file? patterns with
  | some (target, access) => if access.write then [target] else []
  | none => []

def findings (patterns : AccessPatterns) (c : Construct) : Findings :=
  ⟨c.imports, c.filesRead patterns, c.filesWritten patterns⟩

end Construct

def Findings.ofConstructs (patterns : AccessPatterns) (cs : List Construct) : Findings :=
  cs.foldr (fun c f => c.findings patterns ++ f) {}

namespace Findings

@[simp] theorem ofConstructs_nil (patterns : AccessPatterns) : ofConstructs patterns [] = {} := rfl

@[simp] theorem ofConstructs_cons (patterns : AccessPatterns) (c : Construct) (cs : List Construct) :
    ofConstructs patterns (c :: cs) = c.findings patterns ++ ofConstructs patterns cs := rfl

end Findings

end Footprint
