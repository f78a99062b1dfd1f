import Footprint.CommandLine.Run
import Footprint.Proofs.CommandLine.Output
import Footprint.Proofs.FileTree.Writing

/-!
# What a run of the program leaves behind

A run that fails prints nothing and changes nothing. A run that does not fail comes to a text, which it either prints or
writes to the file that it was told to write; that is the text that the same arguments without that file print, and
there is no other change to the files.
-/

namespace Footprint.CommandLine

variable {t : FileTree} {record : Nat → ScanRecord} {args : List String} {as : Arguments} {text : String} {p : Path}

/-- What a run comes to, for these arguments and this outcome. -/
inductive Settles (t : FileTree) (record : Nat → ScanRecord) (as : Arguments) : Outcome → Prop where
  | failed (f : Failure) : Settles t record as (.failed f)
  | printed {text : String} : as.output = none → as.text t record = .ok text → Settles t record as (.printed text)
  | written {text : String} {p : Path} {u : FileTree} : as.output = some p → as.text t record = .ok text →
      t.write p text = .ok u → Settles t record as (.written p text u)

end Footprint.CommandLine
