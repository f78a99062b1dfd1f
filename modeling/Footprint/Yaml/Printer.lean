import Footprint.Document
import Footprint.Yaml.Scalar

/-!
Writing documents as YAML, in block layout. Fields are indented by two blanks a level; items of a list
stand as far to the right as the key of the list.
-/

namespace Footprint.Yaml

def numbers : Decimal.Style := { plus := false }

def writeReal (f : Float) : List Char :=
  match Decimal.Binary.ofFloat f with
  | .finite negative m => Decimal.sign negative ++ numbers.writeMagnitude m
  | .infinite negative => Decimal.sign negative ++ ['.', 'i', 'n', 'f']
  | .undefined => ['.', 'n', 'a', 'n']

/-- A scalar or an empty list or record, up to the end of its last line. -/
def writeScalar (indent : Nat) : Document → List Char
  | .null => ['n', 'u', 'l', 'l', '\n']
  | .bool b => (toString b).toList ++ ['\n']
  | .integer n => Decimal.sign (n < 0) ++ Decimal.digits n.natAbs ++ ['\n']
  | .real f => writeReal f ++ ['\n']
  | .text s => writeText indent s.toList
  | .list _ => ['[', ']', '\n']
  | .record _ => ['{', '}', '\n']

mutual

def items (indent : Nat) : List Document → List Char
  | [] => []
  | d :: ds =>
    indentation indent ++ '-' :: ' ' :: behindDash (indent + 2) d ++ items indent ds

def fields (indent : Nat) : List (String × Document) → List Char
  | [] => []
  | (k, d) :: fs =>
    indentation indent ++ k.toList ++ ':' :: behindKey indent d ++ fields indent fs

/-- What follows a dash: the first line of a list or record stands on the line of the dash. -/
def behindDash (indent : Nat) : Document → List Char
  | .list (d :: ds) => (items indent (d :: ds)).drop indent
  | .record (f :: fs) => (fields indent (f :: fs)).drop indent
  | d => writeScalar indent d

def behindKey (indent : Nat) : Document → List Char
  | .list (d :: ds) => '\n' :: items indent (d :: ds)
  | .record (f :: fs) => '\n' :: fields (indent + 2) (f :: fs)
  | d => ' ' :: writeScalar (indent + 2) d

end

end Yaml

def Document.toYaml (d : Document) : String := String.ofList <|
  match d with
  | .list (d :: ds) => Yaml.items 0 (d :: ds)
  | .record (f :: fs) => Yaml.fields 0 (f :: fs)
  | d => Yaml.writeScalar 2 d

end Footprint
