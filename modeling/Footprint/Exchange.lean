import Footprint.Json.Printer
import Footprint.Notebook.Reader
import Footprint.Report.Document

/-!
Analysis for a program that passes texts and takes JSON on one line, or the reason why there is none.
-/

namespace Footprint.Exchange

def notebook (content : String) : Except String String :=
  match Notebook.ofJson content with
  | .ok n => .ok ((n.analyze {}).toDocument.toJson .compact)
  | .error e => .error e.message

def cell (source : String) : Except String String :=
  match findingsOf constructsOf {} source with
  | .ok f => .ok (f.toDocument.toJson .compact)
  | .error e => .error e.message

end Footprint.Exchange
