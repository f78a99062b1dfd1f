import Footprint.Json.Printer
import Footprint.Report.Document
import Footprint.Report.Summary
import Footprint.Yaml.Printer

/-!
The formats in which analyses and reports are written.
-/

namespace Footprint

inductive Format where
  | json | yaml | summary
  deriving DecidableEq, Repr

def Format.ofName? : String → Option Format
  | "json" => some json
  | "yaml" => some yaml
  | "summary" => some summary
  | _ => none

def Analysis.write (a : Analysis) : Format → String
  | .json => a.toDocument.toJson .pretty
  | .yaml => a.toDocument.toYaml
  | .summary => a.toSummary

def Report.write (r : Report) : Format → String
  | .json => r.toDocument.toJson .pretty
  | .yaml => r.toDocument.toYaml
  | .summary => r.toSummary

end Footprint
