import Footprint.CommandLine.Run
import Footprint.Timestamp
import Std.Time.DateTime.Timestamp

/-!
The program. It takes the working directory as it stands, runs on that, and prints or writes the
outcome. Paths lead below the working directory.
-/

namespace Footprint.Main

/-- What a run may read: notebooks, ignore files, and the files of these paths. -/
def isRead (named : List Path) (p : Path) : Bool :=
  p.isNotebook || p.fileName? == some ".gitignore" ||
    named.any fun q => q.components.filter (· ≠ .here) == p.components

/-- The path that leads from a directory below the working directory to a place below it. -/
def targetFrom (above : List String) (workingDirectory place : String) : Path :=
  let head := workingDirectory.toList ++ ['/']
  if head.isPrefixOf place.toList then
    ⟨String.join (above.map fun _ => "../") ++ String.ofList (place.toList.drop head.length)⟩
  else ⟨""⟩

/-- What stands for an entry that cannot be read. -/
def unreachable : Entry := .link ⟨""⟩

def fileEntry (isRead : Path → Bool) (names : List String) (e : IO.FS.DirEntry) : IO Entry := do
  if isRead ⟨"/".intercalate names⟩ then return .file (.ofBytes (← IO.FS.readBinFile e.path).data.toList)
  else return .file (.text "")

/-- Takes an entry of a directory at the end of these names. -/
partial def entryOf (isRead : Path → Bool) (workingDirectory : String) (above : List String)
    (e : IO.FS.DirEntry) : IO Entry := do
  let names := above ++ [e.fileName]
  try
    match (← e.path.symlinkMetadata).type with
    | .dir =>
      let entries ← (← e.path.readDir).toList.mapM fun d => do
        return (d.fileName, ← entryOf isRead workingDirectory names d)
      return .directory entries
    | .symlink =>
      match (← e.path.metadata).type with
      | .dir => return .link (targetFrom above workingDirectory (← IO.FS.realPath e.path).toString)
      | _ => fileEntry isRead names e
    | _ => fileEntry isRead names e
  catch _ => return unreachable

def workingTree (isRead : Path → Bool) : IO FileTree := do
  let here ← IO.currentDir
  let place := (← IO.FS.realPath here).toString
  let entries ← (← here.readDir).toList.mapM fun e => do
    return (e.fileName, ← entryOf isRead place [] e)
  return ⟨entries⟩

def run (args : List String) : IO UInt32 := do
  let start ← IO.monoMsNow
  let named := match CommandLine.Arguments.ofList args with
    | .ok as => as.path :: (as.config.toList ++ as.ignoreFile.toList)
    | .error _ => []
  let tree ← workingTree (isRead named)
  let now ← Std.Time.Timestamp.now
  let spent := (← IO.monoMsNow) - start
  let record (notebooks : Nat) : ScanRecord :=
    { milliseconds := spent
      rate := if spent = 0 then 0.0 else 1000.0 * notebooks.toFloat / spent.toFloat
      timestamp := Timestamp.write now.toNanosecondsSinceUnixEpoch.val.toNat
      version := version }
  let outcome := CommandLine.run tree record args
  IO.print outcome.output
  IO.eprint outcome.messages
  if let .written path text _ := outcome then IO.FS.writeFile path.text text
  return outcome.exitCode.toUInt32

end Footprint.Main

def main (args : List String) : IO UInt32 := Footprint.Main.run args
