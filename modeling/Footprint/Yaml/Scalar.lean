import Footprint.Yaml.Number

/-!
Texts as YAML scalars. A text of several lines stands in a block, if all of its characters can be seen
there; one that would be read as something else stands in quotes; and what quotes cannot show is
escaped.
-/

namespace Footprint.Yaml

def isBreak (c : Char) : Bool :=
  c == '\n' || c == '\r' || c == '\u0085' || c == '\u2028' || c == '\u2029'

def isGap (c : Char) : Bool := c == ' ' || c == '\t' || c == '\x00' || isBreak c

def isPrintable (c : Char) : Bool :=
  c == '\n' || (' ' ≤ c && c ≤ '~') ||
    (0xA0 ≤ c.toNat && c ≠ '\ufeff' && c ≠ '\ufffe' && c ≠ '\uffff')

def words : List (List Char) :=
  ["null", "Null", "NULL", "~", "true", "True", "TRUE", "false", "False", "FALSE"].map String.toList

/-- Whether a text of one line is taken for something else. -/
def isAmbiguous (cs : List Char) : Bool :=
  cs.isEmpty || words.contains cs || isPadded cs || isNumber cs

def meet (p q : Char → Bool) (cs : List Char) : Bool := (cs.zip cs.tail).any fun (c, d) => p c && q d

def isSpace (c : Char) : Bool := c == ' '

/-- Whether a text begins like a part of a document. -/
def hasIndicator (cs : List Char) : Bool :=
  let first := match cs with
    | [] => false
    | c :: ds =>
      "#,[]\x7b\x7d&*!|>'\"%@`".toList.contains c ||
        ((c == '?' || c == '-') && (ds.head?.map isGap).getD true)
  first || ['-', '-', '-'].isPrefixOf cs || ['.', '.', '.'].isPrefixOf cs

/-- Whether a colon ends a part of a line, or a number sign begins one. -/
def hasSeparator (cs : List Char) : Bool :=
  meet (· == ':') isGap cs || cs.getLast? == some ':' || meet isGap (· == '#') cs

inductive Style where
  | plain | single | double | block
  deriving DecidableEq, Repr

/-- Whether a text has to be escaped, wherever it stands. -/
def needsEscape (cs : List Char) : Bool := !cs.all isPrintable || meet isSpace isBreak cs

def styleOf (cs : List Char) : Style :=
  if cs.contains '\n' then
    if needsEscape cs || cs.getLast? == some ' ' then .double else .block
  else if needsEscape cs || meet isBreak isSpace cs then .double
  else if isAmbiguous cs || hasIndicator cs || hasSeparator cs || cs.any isBreak ||
      cs.head? == some ' ' || cs.getLast? == some ' ' then .single
  else .plain

def hexDigit (n : Nat) : Char := (Nat.digitChar n).toUpper

def hexDigits : Nat → Nat → List Char
  | 0, _ => []
  | width + 1, n => hexDigits width (n / 16) ++ [hexDigit (n % 16)]

def letter? : Char → Option Char
  | '\x00' => some '0'
  | '\x07' => some 'a'
  | '\x08' => some 'b'
  | '\t' => some 't'
  | '\n' => some 'n'
  | '\x0b' => some 'v'
  | '\x0c' => some 'f'
  | '\r' => some 'r'
  | '\x1b' => some 'e'
  | '"' => some '"'
  | '\\' => some '\\'
  | '\u0085' => some 'N'
  | '\u2028' => some 'L'
  | '\u2029' => some 'P'
  | _ => none

def escaped (c : Char) : List Char :=
  match letter? c with
  | some x => ['\\', x]
  | none =>
    if isPrintable c then [c]
    else if c.toNat ≤ 0xFF then '\\' :: 'x' :: hexDigits 2 c.toNat
    else '\\' :: 'u' :: hexDigits 4 c.toNat

def indentation (n : Nat) : List Char := List.replicate n ' '

/-- Text between single quotes: a quote is doubled, and what follows a break is indented. -/
def singleFrom (indent : Nat) : (broken : Bool) → List Char → List Char
  | broken, [] => if broken then indentation indent else []
  | broken, c :: cs =>
    if isBreak c then c :: singleFrom indent true cs
    else
      (if broken then indentation indent else []) ++ (if c = '\'' then ['\'', '\''] else [c]) ++
        singleFrom indent false cs

/-- Lines of a block: each that is not empty is indented. -/
def blockFrom (indent : Nat) : (broken : Bool) → List Char → List Char
  | _, [] => []
  | broken, c :: cs =>
    if isBreak c then c :: blockFrom indent true cs
    else (if broken then indentation indent else []) ++ c :: blockFrom indent false cs

/-- The head of a block: a digit if the first line would not show how far it is indented, and a sign
unless it ends in exactly one line break. -/
def blockHead (cs : List Char) : List Char :=
  let startsBlank := match cs with
    | c :: _ => isSpace c || isBreak c
    | [] => false
  let sign := match cs.reverse with
    | [] => ['-']
    | [c] => if isBreak c then ['+'] else ['-']
    | c :: d :: _ => if !isBreak c then ['-'] else if isBreak d then ['+'] else []
  '|' :: (if startsBlank then ['2'] else []) ++ sign

/-- A text behind a key or a dash, up to the end of its last line. -/
def writeText (indent : Nat) (cs : List Char) : List Char :=
  match styleOf cs with
  | .plain => cs ++ ['\n']
  | .single => '\'' :: singleFrom indent false cs ++ ['\'', '\n']
  | .double => '"' :: cs.flatMap escaped ++ ['"', '\n']
  | .block =>
    blockHead cs ++ '\n' :: blockFrom indent true cs ++
      if (cs.getLast?.map isBreak).getD false then [] else ['\n']

end Footprint.Yaml
