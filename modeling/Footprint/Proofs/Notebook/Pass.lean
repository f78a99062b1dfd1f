import Footprint.Analysis
import Footprint.Notebook.Reader
import Mathlib.Data.List.Basic

/-!
# The pass over a notebook

What becomes of each cell: code and markdown cells are listed as they are, a code cell that is refused
leaves its position, and one that is read adds its findings. One cell at a time is told what it adds to a
collection, and a whole pass follows by induction. The sets of an analysis depend only on which sources of
code cells are read, so neither the order of the cells nor any other cell counts.
-/

namespace Footprint

variable {ε : Type} {parse : String → Except ε (List Construct)} {patterns : AccessPatterns}
  {c : Cell} {cells xs ys : List Cell} {x : String}

namespace Cell

def isListed (c : Cell) : Bool := c.kind = .code || c.kind = .markdown

def isRead (parse : String → Except ε (List Construct)) (c : Cell) : Bool :=
  c.kind = .code && (parse c.source).isOk

def isRefused (parse : String → Except ε (List Construct)) (c : Cell) : Bool :=
  c.kind = .code && !(parse c.source).isOk

/-- A code cell whose source is read, with what it says. -/
def Tells (parse : String → Except ε (List Construct)) (patterns : AccessPatterns) (c : Cell) (f : Findings) :
    Prop :=
  c.kind = .code ∧ findingsOf parse patterns c.source = .ok f

theorem Tells.isRead {f : Findings} (tells : c.Tells parse patterns f) : c.isRead parse = true := by
  obtain ⟨code, told⟩ := tells
  unfold findingsOf at told
  split at told
  · rename_i read
    simp [Cell.isRead, code, read, Except.isOk, Except.toBool]
  · cases told

/-! ### What one cell adds -/

theorem cells_collection : (c.collection parse patterns).cells = if c.isListed then [c] else [] := by
  unfold collection isListed
  cases kind : c.kind with
  | code => cases findingsOf parse patterns c.source <;> simp [CellKind.treatment]
  | markdown | raw | unknown => simp [CellKind.treatment]

theorem unparsed_collection :
    (c.collection parse patterns).unparsed = if c.isRefused parse then [c.position] else [] := by
  unfold collection isRefused
  cases kind : c.kind with
  | code => cases read : parse c.source <;> simp [CellKind.treatment, findingsOf, read, Except.isOk, Except.toBool]
  | markdown | raw | unknown => simp [CellKind.treatment]

theorem findings_collection :
    c.Tells parse patterns (c.collection parse patterns).findings ∨
      (∀ f, ¬c.Tells parse patterns f) ∧ (c.collection parse patterns).findings = {} := by
  unfold collection Tells
  cases kind : c.kind with
  | code => cases findingsOf parse patterns c.source <;> simp [CellKind.treatment]
  | markdown | raw | unknown => simp [CellKind.treatment]

theorem mem_collection_iff {part : Findings → List String} (none : part {} = []) :
    x ∈ part (c.collection parse patterns).findings ↔ ∃ f, c.Tells parse patterns f ∧ x ∈ part f := by
  rcases findings_collection (c := c) with tells | ⟨silent, same⟩
  · constructor
    · exact fun mem => ⟨_, tells, mem⟩
    · rintro ⟨f, told, mem⟩
      rwa [Except.ok.inj (tells.2.symm.trans told.2)]
  · rw [same, none]
    exact iff_of_false List.not_mem_nil fun ⟨f, told, _⟩ => silent f told

end Cell

/-! ### What a pass collects -/

theorem cells_analyzeCells : (analyzeCells parse patterns cells).cells = cells.filter Cell.isListed := by
  induction cells with
  | nil => rfl
  | cons c cells ih =>
    calc (analyzeCells parse patterns (c :: cells)).cells
        = (c.collection parse patterns).cells ++ (analyzeCells parse patterns cells).cells := rfl
      _ = (c :: cells).filter Cell.isListed := by
        rw [ih, Cell.cells_collection, List.filter_cons]
        split <;> rfl

theorem unparsed_analyzeCells :
    (analyzeCells parse patterns cells).unparsed = (cells.filter (Cell.isRefused parse)).map Cell.position := by
  induction cells with
  | nil => rfl
  | cons c cells ih =>
    calc (analyzeCells parse patterns (c :: cells)).unparsed
        = (c.collection parse patterns).unparsed ++ (analyzeCells parse patterns cells).unparsed := rfl
      _ = ((c :: cells).filter (Cell.isRefused parse)).map Cell.position := by
        rw [ih, Cell.unparsed_collection, List.filter_cons]
        split <;> rfl

/-- What is among the findings of a pass: what some cell says. -/
theorem mem_join_iff {part : Findings → List String} (none : part {} = [])
    (append : ∀ f g, part (f ++ g) = part f ++ part g) :
    x ∈ part (Collection.join (cells.map (Cell.collection parse patterns))).findings ↔
      ∃ c ∈ cells, ∃ f, c.Tells parse patterns f ∧ x ∈ part f := by
  induction cells with
  | nil => simp [Collection.join, none]
  | cons c cells ih =>
    have step : part (Collection.join ((c :: cells).map (Cell.collection parse patterns))).findings =
        part (c.collection parse patterns).findings ++
          part (Collection.join (cells.map (Cell.collection parse patterns))).findings := append _ _
    rw [step, List.mem_append, Cell.mem_collection_iff none, ih]
    simp

theorem mem_imports_analyzeCells :
    x ∈ (analyzeCells parse patterns cells).imports ↔
      ∃ c ∈ cells, ∃ f, c.Tells parse patterns f ∧ x ∈ f.imports :=
  TextSet.mem_ofList.trans (mem_join_iff rfl fun _ _ => rfl)

theorem mem_filesRead_analyzeCells :
    x ∈ (analyzeCells parse patterns cells).filesRead ↔
      ∃ c ∈ cells, ∃ f, c.Tells parse patterns f ∧ x ∈ f.filesRead :=
  TextSet.mem_ofList.trans (mem_join_iff rfl fun _ _ => rfl)

theorem mem_filesWritten_analyzeCells :
    x ∈ (analyzeCells parse patterns cells).filesWritten ↔
      ∃ c ∈ cells, ∃ f, c.Tells parse patterns f ∧ x ∈ f.filesWritten :=
  TextSet.mem_ofList.trans (mem_join_iff rfl fun _ _ => rfl)

/-! ### On what the sets depend -/

structure Analysis.SameFindings (a b : Analysis) : Prop where
  imports : a.imports = b.imports
  filesRead : a.filesRead = b.filesRead
  filesWritten : a.filesWritten = b.filesWritten

/-- Every source of a code cell of the first list that is read is one of the second list. -/
def Cell.Within (parse : String → Except ε (List Construct)) (xs ys : List Cell) : Prop :=
  ∀ c ∈ xs, c.isRead parse = true → ∃ d ∈ ys, d.kind = .code ∧ d.source = c.source

theorem Cell.Within.of_subset (h : ∀ c ∈ xs, c.isRead parse = true → c ∈ ys) : Cell.Within parse xs ys := by
  intro c mem read
  have code : c.kind = .code := by
    simp only [isRead, Bool.and_eq_true, decide_eq_true_eq] at read
    exact read.1
  exact ⟨c, h c mem read, code, rfl⟩

theorem Cell.Within.tells (within : Cell.Within parse xs ys) {p : Findings → Prop}
    (h : ∃ c ∈ xs, ∃ f, c.Tells parse patterns f ∧ p f) : ∃ d ∈ ys, ∃ f, d.Tells parse patterns f ∧ p f := by
  obtain ⟨c, mem, f, tells, holds⟩ := h
  obtain ⟨d, memd, code, same⟩ := within c mem tells.isRead
  exact ⟨d, memd, f, ⟨code, same ▸ tells.2⟩, holds⟩

/-- Lists of cells with the same sources that are read have the same sets. -/
theorem sameFindings_of_within (forth : Cell.Within parse xs ys) (back : Cell.Within parse ys xs) :
    (analyzeCells parse patterns xs).SameFindings (analyzeCells parse patterns ys) where
  imports := TextSet.ext_mem fun x => by
    rw [mem_imports_analyzeCells, mem_imports_analyzeCells]
    exact ⟨forth.tells, back.tells⟩
  filesRead := TextSet.ext_mem fun x => by
    rw [mem_filesRead_analyzeCells, mem_filesRead_analyzeCells]
    exact ⟨forth.tells, back.tells⟩
  filesWritten := TextSet.ext_mem fun x => by
    rw [mem_filesWritten_analyzeCells, mem_filesWritten_analyzeCells]
    exact ⟨forth.tells, back.tells⟩

theorem sameFindings_of_perm (perm : xs.Perm ys) :
    (analyzeCells parse patterns xs).SameFindings (analyzeCells parse patterns ys) :=
  sameFindings_of_within (.of_subset fun _ mem _ => perm.mem_iff.mp mem)
    (.of_subset fun _ mem _ => perm.mem_iff.mpr mem)

/-- A cell that is there already, or that is not read, may come or go at any place. -/
theorem sameFindings_insert (h : c.isRead parse = true → c ∈ xs ++ ys) :
    (analyzeCells parse patterns (xs ++ c :: ys)).SameFindings (analyzeCells parse patterns (xs ++ ys)) := by
  refine sameFindings_of_within (.of_subset fun d mem read => ?_) (.of_subset fun d mem _ => ?_)
  · rcases List.mem_append.mp mem with before | behind
    · exact List.mem_append_left _ before
    · rcases List.mem_cons.mp behind with rfl | behind
      · exact h read
      · exact List.mem_append_right _ behind
  · rcases List.mem_append.mp mem with before | behind
    · exact List.mem_append_left _ before
    · exact List.mem_append_right _ (List.mem_cons_of_mem _ behind)

/-! ### Positions and counts -/

theorem map_position_ofContents (contents : List (CellKind × String)) :
    (Notebook.ofContents contents).cells.map Cell.position = List.range contents.length := by
  refine List.ext_getElem? fun i => ?_
  rw [List.getElem?_map, Notebook.getElem?_cells_ofContents]
  by_cases bound : i < contents.length
  · simp [bound]
  · simp [bound]

/-- The cells of a notebook that is read have increasing positions. -/
theorem increasing_of_ofJson {text : String} {n : Notebook} (read : Notebook.ofJson text = .ok n) :
    (n.cells.map Cell.position).Pairwise (· < ·) := by
  unfold Notebook.ofJson at read
  split at read
  · rename_i contents _
    obtain rfl : Notebook.ofContents contents = n := Except.ok.inj read
    rw [map_position_ofContents]
    exact List.pairwise_lt_range
  · cases read
  · cases read

theorem counts_analyzeCells :
    (analyzeCells parse patterns cells).counts =
      ⟨cells.countP (·.kind = .code), cells.countP (·.kind = .markdown), cells.countP (Cell.isRefused parse)⟩ := by
  have listed (k : CellKind) (h : k = .code ∨ k = .markdown) :
      (cells.filter Cell.isListed).countP (·.kind = k) = cells.countP (·.kind = k) := by
    rw [List.countP_filter]
    refine List.countP_congr fun c _ => ?_
    simp only [Bool.and_eq_true, decide_eq_true_eq, and_iff_left_iff_imp]
    rintro rfl
    simpa [Cell.isListed] using h
  rw [Analysis.counts, cells_analyzeCells, unparsed_analyzeCells, List.length_map, ← List.countP_eq_length_filter,
    listed .code (.inl rfl), listed .markdown (.inr rfl)]

theorem unparsed_sublist :
    (analyzeCells parse patterns cells).unparsed.Sublist
      (((analyzeCells parse patterns cells).cells.filter (·.kind = .code)).map Cell.position) := by
  rw [unparsed_analyzeCells, cells_analyzeCells, List.filter_filter]
  refine List.Sublist.map _ (List.monotone_filter_right _ fun c refused => ?_)
  simp only [Cell.isRefused, Bool.and_eq_true, decide_eq_true_eq] at refused
  simp [Cell.isListed, refused.1]

/-- An analysis lists the code and markdown cells as they are, and the positions of the refused ones; its sets
hold what code cells that are read say, and nothing else. So analyses of two parts add up, and the sets stay
as they are when cells change places or come twice, and when a cell that is not read comes or goes. In a
notebook that is read from a text, positions increase, and the counts are those of its cells. -/
theorem analyzeCells_faithful (parse : String → Except ε (List Construct)) (patterns : AccessPatterns)
    (cells : List Cell) :
    let analyze := analyzeCells parse patterns
    (analyze cells).cells = cells.filter Cell.isListed ∧
    (analyze cells).unparsed = (cells.filter (Cell.isRefused parse)).map Cell.position ∧
    (∀ x, x ∈ (analyze cells).imports ↔ ∃ c ∈ cells, ∃ f, c.Tells parse patterns f ∧ x ∈ f.imports) ∧
    (∀ x, x ∈ (analyze cells).filesRead ↔ ∃ c ∈ cells, ∃ f, c.Tells parse patterns f ∧ x ∈ f.filesRead) ∧
    (∀ x, x ∈ (analyze cells).filesWritten ↔ ∃ c ∈ cells, ∃ f, c.Tells parse patterns f ∧ x ∈ f.filesWritten) ∧
    (∀ more,
      (analyze (cells ++ more)).cells = (analyze cells).cells ++ (analyze more).cells ∧
      (analyze (cells ++ more)).unparsed = (analyze cells).unparsed ++ (analyze more).unparsed ∧
      ∀ x,
        (x ∈ (analyze (cells ++ more)).imports ↔ x ∈ (analyze cells).imports ∨ x ∈ (analyze more).imports) ∧
        (x ∈ (analyze (cells ++ more)).filesRead ↔ x ∈ (analyze cells).filesRead ∨ x ∈ (analyze more).filesRead) ∧
        (x ∈ (analyze (cells ++ more)).filesWritten ↔
          x ∈ (analyze cells).filesWritten ∨ x ∈ (analyze more).filesWritten)) ∧
    (∀ others, cells.Perm others → (analyze cells).SameFindings (analyze others)) ∧
    (∀ xs c ys, cells = xs ++ ys → c ∈ cells ∨ c.isRead parse = false →
      (analyze (xs ++ c :: ys)).SameFindings (analyze cells)) ∧
    ∀ text, Notebook.ofJson text = .ok ⟨cells⟩ →
      ((analyze cells).cells.map Cell.position).Pairwise (· < ·) ∧
      (analyze cells).unparsed.Pairwise (· < ·) ∧
      (analyze cells).unparsed.Sublist
        (((analyze cells).cells.filter (·.kind = .code)).map Cell.position) ∧
      (analyze cells).counts =
        ⟨cells.countP (·.kind = .code), cells.countP (·.kind = .markdown), cells.countP (Cell.isRefused parse)⟩ := by
  intro analyze
  have union (part : Findings → List String) (more : List Cell) (x : String) :
      (∃ c ∈ cells ++ more, ∃ f, c.Tells parse patterns f ∧ x ∈ part f) ↔
        (∃ c ∈ cells, ∃ f, c.Tells parse patterns f ∧ x ∈ part f) ∨
          ∃ c ∈ more, ∃ f, c.Tells parse patterns f ∧ x ∈ part f := by
    simp only [List.mem_append, or_and_right, exists_or]
  refine ⟨cells_analyzeCells, unparsed_analyzeCells, fun _ => mem_imports_analyzeCells,
    fun _ => mem_filesRead_analyzeCells, fun _ => mem_filesWritten_analyzeCells, fun more => ?_,
    fun _ => sameFindings_of_perm, ?_, fun text read => ?_⟩
  · refine ⟨?_, ?_, fun x => ⟨?_, ?_, ?_⟩⟩
    · simp only [analyze, cells_analyzeCells, List.filter_append]
    · simp only [analyze, unparsed_analyzeCells, List.filter_append, List.map_append]
    · simpa only [analyze, mem_imports_analyzeCells] using union Findings.imports more x
    · simpa only [analyze, mem_filesRead_analyzeCells] using union Findings.filesRead more x
    · simpa only [analyze, mem_filesWritten_analyzeCells] using union Findings.filesWritten more x
  · rintro xs c ys rfl (there | unread)
    · exact sameFindings_insert fun _ => there
    · exact sameFindings_insert fun read => absurd read (Bool.eq_false_iff.mp unread)
  · have increasing := increasing_of_ofJson read
    refine ⟨?_, ?_, unparsed_sublist, counts_analyzeCells⟩
    · simp only [analyze, cells_analyzeCells]
      exact increasing.sublist (List.filter_sublist.map _)
    · simp only [analyze, unparsed_analyzeCells]
      exact increasing.sublist (List.filter_sublist.map _)

/-- A notebook of a code cell that is read, a text and a code cell that is refused. -/
theorem analyzeCells_faithful_refused :
    let parse : String → Except Unit (List Construct) :=
      fun s => if s = "!ls" then .error () else .ok [.importModules [s]]
    ∃ n, Notebook.ofJson ("\x7b\"cells\":[\x7b\"cell_type\":\"code\",\"source\":\"os\"\x7d," ++
        "\x7b\"cell_type\":\"markdown\"\x7d,\x7b\"cell_type\":\"code\",\"source\":\"!ls\"\x7d]\x7d") = .ok n ∧
      n.cells.Perm n.cells.reverse ∧
      (analyzeCells parse {} n.cells).SameFindings (analyzeCells parse {} n.cells.reverse) ∧
      (analyzeCells parse {} (⟨3, .raw, "os"⟩ :: n.cells)).SameFindings (analyzeCells parse {} n.cells) ∧
      (analyzeCells parse {} n.cells).counts = ⟨2, 1, 1⟩ ∧
      (analyzeCells parse {} n.cells).unparsed = [2] ∧
      "os" ∈ (analyzeCells parse {} n.cells).imports := by
  intro parse
  have both {p q : Prop} (hp : p) (hq : p → q) : p ∧ q := ⟨hp, hq hp⟩
  refine ⟨.ofContents [(.code, "os"), (.markdown, ""), (.code, "!ls")], both (by decide +kernel) fun read => ?_⟩
  let n : Notebook := .ofContents [(.code, "os"), (.markdown, ""), (.code, "!ls")]
  obtain ⟨-, unparsed, imports, -, -, -, permuted, inserted, loaded⟩ := analyzeCells_faithful parse {} n.cells
  have perm : n.cells.Perm n.cells.reverse := (List.reverse_perm n.cells).symm
  refine ⟨perm, permuted _ perm, inserted [] ⟨3, .raw, "os"⟩ n.cells rfl (.inr rfl), (loaded _ read).2.2.2,
    unparsed, ?_⟩
  exact (imports "os").mpr ⟨⟨0, .code, "os"⟩, List.mem_cons_self, ⟨["os"], [], []⟩, ⟨rfl, rfl⟩, List.mem_cons_self⟩

end Footprint
