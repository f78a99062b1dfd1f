import Footprint.Exchange
import Footprint.Proofs.Notebook.Pass
import Footprint.Proofs.Report.RoundTrip
import Footprint.Proofs.Scan.Isolation

/-!
# One answer to a notebook, however it is asked for

A notebook is analyzed from its text, from a file of its own, or in a directory where it is the only one to be
found. All three come to the analysis of the same cells or to the same reason against them, and differ only in what
they put around it: a line of JSON, a path before the reason, a report with one entry. A cell that is analyzed by
itself comes to what it adds to a notebook that holds nothing else.
-/

namespace Footprint

open Json

variable {c : String} {s : Settings} {t : FileTree} {f : IgnoreFilter} {p : Path} {n : Notebook}
  {record : Nat → ScanRecord}

namespace FileTree

theorem notebook_of_readText (holds : t.readText p = .ok c) :
    t.notebook p = (Notebook.ofJson c).mapError .notebook := by
  rw [notebook, holds]
  cases read : Notebook.ofJson c with
  | ok n => simp only [read, Except.mapError]
  | error e => simp only [read, Except.mapError]

end FileTree

namespace Settings

theorem analyze_of_ok (holds : t.readText p = .ok c) (read : Notebook.ofJson c = .ok n) :
    s.analyze t p = .ok (n.analyze s.patterns) := by
  rw [analyze, FileTree.analyze, FileTree.notebook_of_readText holds, read]
  rfl

theorem analyze_of_error {e : Notebook.Error} (holds : t.readText p = .ok c) (refused : Notebook.ofJson c = .error e) :
    s.analyze t p = .error (.notebook p (.notebook e)) := by
  rw [analyze, FileTree.analyze, FileTree.notebook_of_readText holds, refused]
  rfl

theorem scanNotebook_eq (made : s.filter t = .ok f) : s.scanNotebook t = s.analyze t s.root := by
  rw [scanNotebook, made]
  rfl

end Settings

namespace Report

theorem union_singleton (xs : TextSet) : union [xs] = xs := TextSet.ext_mem fun x => by simp

end Report

namespace Settings

/-- The report on a directory with one notebook in it, which can be read. -/
theorem reportOf_singleton_of_ok {a : Analysis} (loaded : s.analyze t p = .ok a) :
    s.reportOf t [p] record = .ofNotebooks s.root [⟨s.reportedPath p, a⟩] [] (record 1) := by
  simp only [reportOf, List.filterMap_cons, List.filterMap_nil, reportOn_of_ok loaded, Except.toOption, failure?,
    List.length_singleton]

theorem reportOf_singleton_of_error {e : ScanError} (failed : s.analyze t p = .error e) :
    s.reportOf t [p] record = .ofNotebooks s.root [] [⟨s.reportedPath p, e.message⟩] (record 1) := by
  simp only [reportOf, List.filterMap_cons, List.filterMap_nil, reportOn_of_error failed, Except.toOption, failure?,
    List.length_singleton]

end Settings

namespace Exchange

/-! ### One notebook -/

/-- What a text, a file and a directory that all hold one notebook come to, if it can be read. -/
structure Analyzes (answer : Except String String) (scanned : Except ScanError Analysis) (reported : Path) (r : Report)
    (a : Analysis) : Prop where
  answer : answer = .ok (a.toDocument.toJson .compact)
  scanned : scanned = .ok a
  notebooks : r.notebooks = [⟨reported, a⟩]
  failed : r.failed = []
  imports : r.imports = a.imports
  filesRead : r.filesRead = a.filesRead
  filesWritten : r.filesWritten = a.filesWritten

/-- What they come to if it cannot be read. A file is named by its path before the reason. -/
structure Refuses (answer : Except String String) (scanned : Except ScanError Analysis) (file found reported : Path)
    (r : Report) (e : Notebook.Error) : Prop where
  answer : answer = .error e.message
  scanned : ∃ e', scanned = .error e' ∧ e'.message = file.text ++ ": " ++ e.message
  notebooks : r.notebooks = []
  failed : r.failed = [⟨reported, found.text ++ ": " ++ e.message⟩]

section

variable {u : FileTree} {d : Settings} {g : IgnoreFilter}

/-- A file and a directory hold the same text, the directory as the only notebook that a search finds in it. -/
structure HoldAlike (s : Settings) (t : FileTree) (d : Settings) (u : FileTree) (p : Path) (c : String) : Prop where
  file : ∃ f, s.filter t = .ok f
  held : t.readText s.root = .ok c
  patterns : s.patterns = {}
  directory : ∃ g, d.filter u = .ok g ∧ u.findNotebooks g d.root = [p]
  heldBelow : u.readText p = .ok c
  patternsBelow : d.patterns = {}

theorem HoldAlike.analyzes (alike : HoldAlike s t d u p c) (read : Notebook.ofJson c = .ok n) :
    ∃ r, d.scanDirectory u record = .ok r ∧
      Analyzes (notebook c) (s.scanNotebook t) (d.reportedPath p) r (n.analyze {}) := by
  obtain ⟨⟨f, made⟩, held, patterns, ⟨g, madeBelow, only⟩, heldBelow, patternsBelow⟩ := alike
  have loaded : d.analyze u p = .ok (n.analyze {}) := by
    rw [Settings.analyze_of_ok heldBelow read, patternsBelow]
  refine ⟨_, Settings.scanDirectory_eq madeBelow, ?_⟩
  rw [only, Settings.reportOf_singleton_of_ok loaded]
  constructor
  · rw [notebook, read]
  · rw [Settings.scanNotebook_eq made, Settings.analyze_of_ok held read, patterns]
  · rfl
  · rfl
  · exact Report.union_singleton _
  · exact Report.union_singleton _
  · exact Report.union_singleton _

theorem HoldAlike.refuses (alike : HoldAlike s t d u p c) {e : Notebook.Error} (refused : Notebook.ofJson c = .error e) :
    ∃ r, d.scanDirectory u record = .ok r ∧
      Refuses (notebook c) (s.scanNotebook t) s.root p (d.reportedPath p) r e := by
  obtain ⟨⟨f, made⟩, held, -, ⟨g, madeBelow, only⟩, heldBelow, -⟩ := alike
  have failed : d.analyze u p = .error (.notebook p (.notebook e)) := Settings.analyze_of_error heldBelow refused
  refine ⟨_, Settings.scanDirectory_eq madeBelow, ?_⟩
  rw [only, Settings.reportOf_singleton_of_error failed]
  constructor
  · rw [notebook, refused]
  · refine ⟨.notebook s.root (.notebook e), ?_, rfl⟩
    rw [Settings.scanNotebook_eq made, Settings.analyze_of_error held refused]
  · rfl
  · rfl

end

/-! ### One cell -/

def alone (source : String) : Notebook := .ofContents [(.code, source)]

theorem cells_alone (source : String) : (alone source).cells = [⟨0, .code, source⟩] := rfl

theorem tells_alone_iff {source : String} {found : Findings} (read : findingsOf constructsOf {} source = .ok found)
    {part : Findings → List String} {x : String} :
    (∃ c ∈ (alone source).cells, ∃ f, c.Tells constructsOf {} f ∧ x ∈ part f) ↔ x ∈ part found := by
  rw [cells_alone]
  constructor
  · rintro ⟨c, mem, f, ⟨-, told⟩, held⟩
    obtain rfl := List.mem_singleton.mp mem
    rwa [Except.ok.inj (told.symm.trans read)] at held
  · exact fun held => ⟨_, List.mem_singleton_self _, found, ⟨rfl, read⟩, held⟩

theorem unparsed_alone (source : String) :
    ((alone source).analyze {}).unparsed = if (constructsOf source).isOk then [] else [0] := by
  rw [Notebook.analyze, unparsed_analyzeCells, cells_alone]
  cases read : constructsOf source <;> simp [Cell.isRefused, read, Except.isOk, Except.toBool]

/-- A cell by itself is refused like the one cell of a notebook, and otherwise lists what the sets of that notebook
hold. -/
structure TellsAlone (source : String) : Prop where
  refused : (∃ e, cell source = .error e) ↔ ((alone source).analyze {}).unparsed = [0]
  listed : ∀ text, cell source = .ok text → ∃ d found, d.IsText text ∧ Findings.ofDocument? d = some found ∧
    (∀ x, x ∈ found.imports ↔ x ∈ ((alone source).analyze {}).imports) ∧
    (∀ x, x ∈ found.filesRead ↔ x ∈ ((alone source).analyze {}).filesRead) ∧
    ∀ x, x ∈ found.filesWritten ↔ x ∈ ((alone source).analyze {}).filesWritten

theorem fits_findings (found : Findings) : Fits depthLimit found.toDocument := by
  refine .record fun x mem => ?_
  simp only [List.mem_cons, List.not_mem_nil, or_false] at mem
  rcases mem with rfl | rfl | rfl <;> exact fits_texts _

theorem ofDocument?_findings (found : Findings) : Findings.ofDocument? found.toDocument = some found := by
  simp [Findings.ofDocument?, Findings.toDocument, Document.field?, List.lookup_cons]

theorem refused_alone_iff (source : String) :
    (∃ e, cell source = .error e) ↔ ((alone source).analyze {}).unparsed = [0] := by
  rw [unparsed_alone]
  unfold cell findingsOf
  cases constructsOf source with
  | ok cs => simp [Except.isOk, Except.toBool]
  | error e => simp [Except.isOk, Except.toBool]

theorem tellsAlone (source : String) : TellsAlone source where
  refused := refused_alone_iff source
  listed := by
    intro text answer
    unfold cell at answer
    split at answer
    · rename_i found read
      obtain rfl := Except.ok.inj answer
      have written : found.toDocument.IsText (found.toDocument.toJson .compact) :=
        ofJson_toJson Layout.isWhite_compact (fits_findings found)
      refine ⟨found.toDocument, found, written, ofDocument?_findings found, ?_, ?_, ?_⟩
      · exact fun x => (mem_imports_analyzeCells.trans (tells_alone_iff read)).symm
      · exact fun x => (mem_filesRead_analyzeCells.trans (tells_alone_iff read)).symm
      · exact fun x => (mem_filesWritten_analyzeCells.trans (tells_alone_iff read)).symm
    · cases answer

/-- A notebook is analyzed alike as a text, as a file and as the only notebook of a directory, or refused for one
reason in all of them. A cell is analyzed alike by itself and as the one cell of a notebook. -/
theorem agrees_with_scans (record : Nat → ScanRecord) :
    (∀ s t d u p c, HoldAlike s t d u p c → ∃ r, d.scanDirectory u record = .ok r ∧
      ((∃ n, Notebook.ofJson c = .ok n ∧
          Analyzes (notebook c) (s.scanNotebook t) (d.reportedPath p) r (n.analyze {})) ∨
        ∃ e, Notebook.ofJson c = .error e ∧
          Refuses (notebook c) (s.scanNotebook t) s.root p (d.reportedPath p) r e)) ∧
    ∀ source, TellsAlone source := by
  refine ⟨fun s t d u p c alike => ?_, tellsAlone⟩
  cases read : Notebook.ofJson c with
  | ok n =>
    obtain ⟨r, scanned, analyzed⟩ := alike.analyzes read
    exact ⟨r, scanned, .inl ⟨n, rfl, analyzed⟩⟩
  | error e =>
    obtain ⟨r, scanned, refused⟩ := alike.refuses read
    exact ⟨r, scanned, .inr ⟨e, rfl, refused⟩⟩

/-- A broken notebook beside a directory that holds it too, with a file that is no notebook. -/
theorem agrees_with_scans_broken :
    let t : FileTree := ⟨[("n.ipynb", .file (.text "\x7b")),
      ("d", .directory [("n.txt", .file (.text "")), ("a.ipynb", .file (.text "\x7b"))])]⟩
    let s : Settings := { root := ⟨"n.ipynb"⟩ }
    let d : Settings := { root := ⟨"d"⟩, threads := 4 }
    HoldAlike s t d t ⟨"d/a.ipynb"⟩ "\x7b" ∧
      ∀ record, ∃ r e, d.scanDirectory t record = .ok r ∧ notebook "\x7b" = .error e ∧
        r.failed = [⟨⟨"a.ipynb"⟩, "d/a.ipynb: " ++ e⟩] := by
  intro t s d
  have absent : t.exists? (s.root.join ⟨".gitignore"⟩) = false := by decide +kernel
  have absentBelow : t.exists? (d.root.join ⟨".gitignore"⟩) = false := by decide +kernel
  have made : s.filter t = .ok {} := by
    simp [Settings.filter, IgnoreFilter.ofSettings, IgnoreFilter.readRules, IgnoreFilter.readGlobs, s, absent, pure,
      Except.pure, bind, Except.bind]
  have madeBelow : d.filter t = .ok {} := by
    simp [Settings.filter, IgnoreFilter.ofSettings, IgnoreFilter.readRules, IgnoreFilter.readGlobs, d, absentBelow, pure,
      Except.pure, bind, Except.bind]
  have alike : HoldAlike s t d t ⟨"d/a.ipynb"⟩ "\x7b" :=
    ⟨⟨{}, made⟩, by decide +kernel, rfl, ⟨{}, madeBelow, by decide +kernel⟩, by decide +kernel, rfl⟩
  have broken : (Notebook.ofJson "\x7b").isOk = false := by decide +kernel
  refine ⟨alike, fun record => ?_⟩
  obtain ⟨r, scanned, ⟨n, read, -⟩ | ⟨e, -, refused⟩⟩ := (agrees_with_scans record).1 _ _ _ _ _ _ alike
  · rw [read] at broken
    cases broken
  · have reported : d.reportedPath ⟨"d/a.ipynb"⟩ = ⟨"a.ipynb"⟩ := by decide +kernel
    exact ⟨r, e.message, scanned, refused.answer, by rw [refused.failed, reported]; rfl⟩

end Exchange

end Footprint
