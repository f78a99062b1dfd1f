import Footprint.Format
import Footprint.Text.Digits

/-!
The arguments of the command line. An option with a value takes it from behind an equals sign or from
the next argument, which must not look like an option; behind two hyphens there are no options.
-/

namespace Footprint.CommandLine

inductive Parameter where
  | format | output | readPattern | writePattern | config | ignore | ignoreFile | threads
  deriving DecidableEq, Repr

inductive Flag where
  | parameter (p : Parameter)
  | verbose | help | version
  deriving DecidableEq, Repr

def Parameter.name : Parameter → String
  | format => "format"
  | output => "output"
  | readPattern => "read-pattern"
  | writePattern => "write-pattern"
  | config => "config"
  | ignore => "ignore"
  | ignoreFile => "ignore-file"
  | threads => "threads"

def Flag.name : Flag → String
  | parameter p => p.name
  | verbose => "verbose"
  | help => "help"
  | version => "version"

def Flag.all : List Flag :=
  [.parameter .format, .parameter .output, .parameter .readPattern, .parameter .writePattern,
    .parameter .config, .parameter .ignore, .parameter .ignoreFile, .parameter .threads,
    .verbose, .help, .version]

def Flag.ofName? (name : String) : Option Flag := all.find? (·.name == name)

def Flag.ofLetter? : Char → Option Flag
  | 'f' => some (.parameter .format)
  | 'o' => some (.parameter .output)
  | 'v' => some .verbose
  | 'h' => some .help
  | 'V' => some .version
  | _ => none

inductive ArgumentError where
  | unknown (argument : String)
  | missingValue (parameter : Parameter)
  | invalidValue (parameter : Parameter) (value : String)
  | unneededValue (flag : Flag)
  | repeated (flag : Flag)
  | missingPath
  | emptyPath
  deriving DecidableEq, Repr

def ArgumentError.message : ArgumentError → String
  | unknown a => "unexpected argument '" ++ a ++ "' found"
  | missingValue p => "a value is required for '--" ++ p.name ++ "' but none was supplied"
  | invalidValue p v => "invalid value '" ++ v ++ "' for '--" ++ p.name ++ "'"
  | unneededValue f => "unexpected value for '--" ++ f.name ++ "'"
  | repeated f => "the argument '--" ++ f.name ++ "' cannot be used multiple times"
  | missingPath => "the required argument '<PATH>' was not provided"
  | emptyPath => "a value is required for '<PATH>' but none was supplied"

/-- Why arguments do not lead to a scan. -/
inductive Stop where
  | version | help
  | refused (error : ArgumentError)
  deriving DecidableEq, Repr

structure Arguments where
  path : Path
  format : Format := .json
  output : Option Path := none
  readPatterns : List String := []
  writePatterns : List String := []
  config : Option Path := none
  ignore : List String := []
  ignoreFile : Option Path := none
  verbose : Bool := false
  threads : Nat := 0
  deriving DecidableEq, Repr

structure Draft where
  path : Option Path := none
  format : Option Format := none
  output : Option Path := none
  readPatterns : List String := []
  writePatterns : List String := []
  config : Option Path := none
  ignore : List String := []
  ignoreFile : Option Path := none
  verbose : Bool := false
  threads : Option Nat := none

abbrev Reading := Except Stop

def refuse (e : ArgumentError) : Reading α := .error (.refused e)

def once (p : Parameter) (before : Option α) (value : String) (read? : String → Option α) :
    Reading (Option α) :=
  if before.isSome then refuse (.repeated (.parameter p))
  else
    match read? value with
    | some x => .ok (some x)
    | none => refuse (.invalidValue p value)

def path? (s : String) : Option Path := if s = "" then none else some ⟨s⟩

/-- A number of 64 bits; there may be a plus sign before it. -/
def number? (s : String) : Option Nat :=
  let ds := match s.toList with
    | '+' :: ds => ds
    | ds => ds
  if ds ≠ [] ∧ ds.all Text.isDigit ∧ Text.digitsValue 10 ds < 0x10000000000000000 then some (Text.digitsValue 10 ds)
  else none

namespace Draft

def set (d : Draft) (p : Parameter) (value : String) : Reading Draft :=
  match p with
  | .format => do return { d with format := ← once p d.format value Format.ofName? }
  | .output => do return { d with output := ← once p d.output value path? }
  | .config => do return { d with config := ← once p d.config value path? }
  | .ignoreFile => do return { d with ignoreFile := ← once p d.ignoreFile value path? }
  | .threads => do return { d with threads := ← once p d.threads value number? }
  | .readPattern => .ok { d with readPatterns := d.readPatterns ++ [value] }
  | .writePattern => .ok { d with writePatterns := d.writePatterns ++ [value] }
  | .ignore => .ok { d with ignore := d.ignore ++ [value] }

def mark (d : Draft) : Flag → Reading Draft
  | .verbose => if d.verbose then refuse (.repeated .verbose) else .ok { d with verbose := true }
  | .help => .error .help
  | .version => .error .version
  | .parameter p => refuse (.missingValue p)

def setPath (d : Draft) (s : String) : Reading Draft :=
  if d.path.isSome then refuse (.unknown s)
  else
    match path? s with
    | some p => .ok { d with path := some p }
    | none => refuse .emptyPath

/-- Takes options of one letter each. A parameter at the end may be left without value. -/
def takeLetters (argument : String) (d : Draft) : List Char → Reading (Draft × Option Parameter)
  | [] => .ok (d, none)
  | c :: cs =>
    match Flag.ofLetter? c with
    | none => refuse (.unknown argument)
    | some (.parameter p) =>
      match cs with
      | [] => .ok (d, some p)
      | '=' :: value => do return (← d.set p (String.ofList value), none)
      | value => do return (← d.set p (String.ofList value), none)
    | some f => do takeLetters argument (← d.mark f) cs

/-- Takes an option with its name and what stands behind an equals sign. A parameter may be left without
value. -/
def takeName (argument : String) (d : Draft) (name : String) (value : Option String) :
    Reading (Draft × Option Parameter) :=
  match Flag.ofName? name, value with
  | none, _ => refuse (.unknown argument)
  | some (.parameter p), some v => do return (← d.set p v, none)
  | some (.parameter p), none => .ok (d, some p)
  | some f, some _ => refuse (.unneededValue f)
  | some f, none => do return (← d.mark f, none)

end Draft

inductive Shape where
  /-- Two hyphens. -/
  | separator
  | named (name : String) (value : Option String)
  | letters (cs : List Char)
  | plain

def partAtEquals (cs : List Char) : String × Option String :=
  (String.ofList (cs.takeWhile (· ≠ '=')),
    match cs.dropWhile (· ≠ '=') with
    | _ :: value => some (String.ofList value)
    | [] => none)

def Shape.ofText (s : String) : Shape :=
  match s.toList with
  | ['-', '-'] => separator
  | '-' :: '-' :: cs => named (partAtEquals cs).1 (partAtEquals cs).2
  | '-' :: c :: cs => letters (c :: cs)
  | _ => plain

/-- Takes an argument. A parameter may be left without value. -/
def Draft.take (argument : String) (d : Draft) : Shape → Reading (Draft × Option Parameter)
  | .named name value => d.takeName argument name value
  | .letters cs => d.takeLetters argument cs
  | .separator | .plain => do return (← d.setPath argument, none)

/-- Reads arguments. The first one is the value of a parameter that is still without. -/
def readFrom (d : Draft) (awaited : Option Parameter) : List String → Reading Draft
  | [] =>
    match awaited with
    | none => .ok d
    | some p => refuse (.missingValue p)
  | a :: as =>
    match awaited, Shape.ofText a with
    | some p, .plain => do readFrom (← d.set p a) none as
    | some p, _ => refuse (.missingValue p)
    | none, .separator => as.foldlM Draft.setPath d
    | none, shape => do
      let (d, awaited) ← d.take a shape
      readFrom d awaited as

def Arguments.ofList (as : List String) : Reading Arguments := do
  let d ← readFrom {} none as
  match d.path with
  | none => refuse .missingPath
  | some path =>
    return {
      path := path, format := d.format.getD .json, output := d.output, readPatterns := d.readPatterns,
      writePatterns := d.writePatterns, config := d.config, ignore := d.ignore,
      ignoreFile := d.ignoreFile, verbose := d.verbose, threads := d.threads.getD 0 }

end Footprint.CommandLine
