import Footprint.Proofs.Syntax.Fuel
import Footprint.Proofs.Syntax.Reads
import Footprint.Source

/-!
# Lines and statements

How a text falls into statements: a line break is passed before a statement and ends the one before it,
and what is said of single statements adds up to what is said of the text. A statement is told by its
constructs; that it has no fault depends on nothing but its own nodes, and that no line is indented
otherwise than the first is told by where the statements stand.
-/

namespace Footprint.Syntax

open Rule Grammar

variable {s : State} {b w cs ds gap next read read' left source : List Char} {n suite : Nat} {here : Position}
  {us vs : List Construct} {h : Head}

/-! ### Line breaks -/

/-- What is passed behind a line: its end and the blanks before the next one, so far indented, or nothing
but its end if the text ends with it. -/
inductive Breaks : (gap next : List Char) → (n : Nat) → Prop
  | text : Breaks [] [] 0
  | last {b : List Char} : IsLineEnd b → Breaks b [] 0
  | line {b w cs : List Char} : IsLineEnd b → IsBlank w → BeginsToken cs → Breaks (b ++ w) cs w.length

namespace Gap

theorem scan_lineEnd (ends : IsLineEnd b) (here : Position) (cs : List Char) :
    scan (b ++ cs) here = scanFrom { broken := true } (here.afterAll b) cs := by
  rcases ends with rfl | rfl
  · exact scanFrom_break rfl
  · exact (scanFrom_return rfl).trans (scanFrom_break rfl)

theorem scanFrom_indent (blank : IsBlank w) (n : Nat) (here : Position) (cs : List Char) :
    scanFrom { broken := true, indent := n } here (w ++ cs) =
      scanFrom { broken := true, indent := n + w.length } (here.afterAll w) cs := by
  induction w generalizing n here with
  | nil => rfl
  | cons c w ih =>
    obtain rfl : c = ' ' := blank c List.mem_cons_self
    rw [List.cons_append, scanFrom_blank rfl]
    refine (ih (fun d mem => blank d (List.mem_cons_of_mem _ mem)) (n + 1) (here.after ' ')).trans ?_
    rw [List.length_cons, Nat.add_right_comm, Nat.add_assoc]
    rfl

end Gap

/-- A line break is passed without a trace but the indentation of what is behind it. -/
theorem Breaks.scan (breaks : Breaks gap next n) (here : Position) :
    Gap.scan (gap ++ next) here = { stops := [n], rest := next, here := here.afterAll gap } := by
  cases breaks with
  | text => rfl
  | last ends =>
    rw [Gap.scan_lineEnd ends]
    rfl
  | @line b w _ ends blank token =>
    obtain ⟨c, ds, rfl, solid⟩ := token
    rw [List.append_assoc, Gap.scan_lineEnd ends, Gap.scanFrom_indent blank, Gap.scanFrom_solid rfl solid,
      Nat.zero_add, Position.afterAll_append]
    simp [Gap.Progress.finish, Gap.Progress.closed]

theorem column_blanks (blank : IsBlank w) (p : Position) : (p.afterAll w).column = p.column + w.length := by
  induction w generalizing p with
  | nil => rfl
  | cons c w ih =>
    obtain rfl : c = ' ' := blank c List.mem_cons_self
    rw [Position.afterAll_cons, ih fun d mem => blank d (List.mem_cons_of_mem _ mem), List.length_cons]
    show p.column + 1 + w.length = _
    omega

theorem Breaks.column (breaks : Breaks gap next n) (more : next ≠ []) (p : Position) :
    (p.afterAll gap).column = n := by
  cases breaks with
  | text | last => exact absurd rfl more
  | line ends blank _ =>
    rw [Position.afterAll_append, column_blanks blank]
    rcases ends with rfl | rfl <;> exact Nat.zero_add _

theorem Breaks.beginsToken (breaks : Breaks gap next n) (more : next ≠ []) : BeginsToken next := by
  cases breaks with
  | text | last => exact absurd rfl more
  | line _ _ token => exact token

theorem Breaks.eq_zero (breaks : Breaks gap [] n) : n = 0 := by
  cases breaks with
  | text | last => rfl
  | line _ _ token => exact absurd token nofun

theorem Breaks.parted (breaks : Breaks gap next n) : HeadIn separators (gap ++ next) := by
  cases breaks with
  | text => exact headIn_nil
  | last ends | line ends _ _ => rcases ends with rfl | rfl <;> exact headIn_cons (by decide)

theorem Breaks.unlinked (breaks : Breaks gap next n) : HeadOut linking (gap ++ next) := by
  cases breaks with
  | text => exact nofun
  | last ends | line ends _ _ => rcases ends with rfl | rfl <;> exact headOut_cons (by decide)

namespace State

variable (breaks : Breaks gap next n) (text : s.rest = gap ++ next)
include breaks text

theorem gap_of_breaks : s.gap = { stops := [n], rest := next, here := s.here.afterAll gap } :=
  (congrArg (Gap.scan · s.here) text).trans (breaks.scan s.here)

theorem newline_of_breaks : s.newline? = some ([], s) := by
  rw [newline?, gap_of_breaks breaks text]
  rfl

theorem lead_of_breaks (line : s.region = .line) : s.lead? = .none := by
  simp only [lead?, line, gap_of_breaks breaks text]
  rfl

theorem line_of_breaks (le : s.suite ≤ n) (more : next ≠ []) : s.line? = some ([], s.behind gap next) := by
  rw [line?, gap_of_breaks breaks text]
  simp [Gap.leaves, Nat.not_lt.mpr le, more, past, behind]

/-- No line of the innermost suite follows where the next one is indented less, or where there is none. -/
theorem line_none_of_breaks (ends : n < s.suite ∨ next = []) : s.line? = .none := by
  rw [line?, gap_of_breaks breaks text]
  rcases ends with lt | rfl
  · simp [Gap.leaves, lt]
  · simp

theorem dedent_of_breaks (lt : n < s.suite) : s.dedent? = some ([], { s with suites := s.suites.tail }) := by
  rw [dedent?, gap_of_breaks breaks text]
  simp [Gap.leaves, lt]

theorem indent_of_breaks (lt : s.suite < n) : s.indent? = some ([], { s with suites := n :: s.suites }) := by
  rw [indent?, gap_of_breaks breaks text]
  simp [lt]

end State

/-- A line of a suite begins in this column, here or behind a line break. -/
inductive Enters (s : State) (n : Nat) : (gap next : List Char) → Prop
  | here {next : List Char} : BeginsToken next → s.rest = next → s.here.column = n → Enters s n [] next
  | behind {gap next : List Char} : Breaks gap next n → s.rest = gap ++ next → Enters s n gap next

namespace Enters

theorem text (enters : Enters s n gap next) : s.rest = gap ++ next := by
  cases enters with
  | here _ text _ => exact text
  | behind _ text => exact text

theorem line (enters : Enters s n gap next) (le : s.suite ≤ n) (more : next ≠ []) :
    s.line? = some ([], s.behind gap next) := by
  cases enters with
  | here token text _ =>
    have scan : s.gap = _ := text ▸ Gap.scan_blanks (w := []) .nil token s.here
    simp [State.line?, scan, Gap.leaves, State.past, State.behind, text, more]
  | behind breaks text => exact State.line_of_breaks breaks text le more

theorem column (enters : Enters s n gap next) (more : next ≠ []) : (s.here.afterAll gap).column = n := by
  cases enters with
  | here _ _ column => exact column
  | behind breaks _ => exact breaks.column more s.here

end Enters

/-! ### Statements -/

def Tree.IsFaultless (source : List Char) (t : Tree) : Prop := ∀ n ∈ t.preorder, n.ownFault? source = .none

theorem Tree.isFaultless_node {k : Kind} {ro : Option Role} {p : Position} {w : List Char} {ts : List Tree}
    (own : (Tree.node k ro p w ts).ownFault? source = .none) (below : ∀ t ∈ ts, t.IsFaultless source) :
    (Tree.node k ro p w ts).IsFaultless source := by
  intro n mem
  rw [preorder, preorders_eq_flatMap, List.mem_cons, List.mem_flatMap] at mem
  rcases mem with rfl | ⟨t, inChildren, inTree⟩
  · exact own
  · exact below t inChildren n inTree

/-- A statement is read as one tree without fault, which stands where it begins and has these constructs. -/
structure Tells (source : List Char) (s : State) (read left : List Char) (us : List Construct) : Prop where
  text : s.rest = read ++ left
  tree : ∃ t, Accepts grammar (phrase .statement) s [t] (s.behind read left) ∧ t.start = s.here ∧
    t.IsFaultless source ∧ t.constructs = us

structure TellsLines (source : List Char) (s : State) (column : Nat) (read left : List Char)
    (us : List Construct) : Prop where
  text : s.rest = read ++ left
  trees : ∃ ts, Accepts grammar (many (each [layout .line, phrase .statement])) s ts (s.behind read left) ∧
    (∀ t ∈ ts, t.start.column = column ∧ t.IsFaultless source) ∧ ts.flatMap Tree.constructs = us

namespace TellsLines

variable {column : Nat}

theorem nil (text : s.rest = left) (ends : s.line? = .none) : TellsLines source s column [] left [] := by
  refine ⟨text, [], ?_, nofun, rfl⟩
  rw [State.behind_nil text]
  exact accepts_many_end (refuses_head (refuses_layout ends))

theorem cons (enters : Enters s column gap (read ++ (read' ++ left))) (le : s.suite ≤ column) (some : read ≠ [])
    (head : Tells source (s.behind gap (read ++ (read' ++ left))) read (read' ++ left) us)
    (tail : TellsLines source (s.behind (gap ++ read) (read' ++ left)) column read' left vs) :
    TellsLines source s column (gap ++ (read ++ read')) left (us ++ vs) := by
  obtain ⟨-, t, accepted, start, faultless, rfl⟩ := head
  obtain ⟨-, ts, accepted', placed', rfl⟩ := tail
  have more : read ++ (read' ++ left) ≠ [] := List.append_ne_nil_of_left_ne_nil some _
  have line := enters.line le more
  have placed := enters.column more
  rw [State.behind_behind] at accepted accepted'
  refine ⟨by simpa using enters.text, t :: ts, ?_, ?_, rfl⟩
  · rw [← List.append_assoc]
    exact accepts_many_cons (accepts_cons (accepts_layout (l := .line) line) (accepts_singleton accepted)) accepted'
  · exact List.forall_mem_cons.mpr ⟨⟨by rw [start]; exact placed, faultless⟩, placed'⟩

theorem last (enters : Enters s column gap (read ++ left)) (le : s.suite ≤ column) (some : read ≠ [])
    (head : Tells source (s.behind gap (read ++ left)) read left us)
    (ends : (s.behind (gap ++ read) left).line? = .none) : TellsLines source s column (gap ++ read) left us := by
  have head : Tells source (s.behind gap (read ++ ([] ++ left))) read ([] ++ left) us := head
  have whole := cons enters le some head (.nil rfl ends)
  rwa [List.append_nil, List.append_nil] at whole

end TellsLines

theorem misindented?_of_placed {k : Kind} {p : Position} {ts : List Tree} {column : Nat}
    (placed : ∀ t ∈ ts, t.start.column = column) (first : k = .module → column = 0) :
    (Tree.node k .none p [] ts).misindented? source = .none := by
  have openers : ∀ t ∈ (Tree.node k .none p [] ts).lineOpeners source, t.start.column = column :=
    fun t mem => placed t (List.mem_filter.mp mem).1
  rw [Tree.misindented?, List.find?_eq_none]
  intro t mem
  have here := openers t mem
  obtain ⟨u, us, openers'⟩ := List.exists_cons_of_ne_nil (List.ne_nil_of_mem mem)
  have other := openers u (by rw [openers']; exact List.mem_cons_self)
  by_cases isModule : k = .module
  · simp [Tree.kind, isModule, here, first isModule]
  · simp [Tree.kind, isModule, here, openers', other]

/-- A text of statements at its left edge has the constructs of these. -/
theorem constructsOf_of_tellsLines (begins : cs = [] ∨ BeginsToken cs)
    (lines : TellsLines cs { rest := cs } 0 read left us) (ends : Breaks left [] n) :
    constructsOf (String.ofList cs) = .ok us := by
  obtain ⟨text, ts, accepted, placed, rfl⟩ := lines
  have lead : ({ rest := cs } : State).lead? = some ([], { rest := cs }) := by
    rcases begins with rfl | token
    · rfl
    · exact (State.lead_of_token token).1
  have finish : (({ rest := cs } : State).behind read left).finish? =
      some ([], (({ rest := cs } : State).behind read left).behind left []) := by
    rw [State.finish?, State.gap_of_breaks (s := ({ rest := cs } : State).behind read left) ends
      (List.append_nil left).symm]
    rfl
  have whole : Accepts grammar cell { rest := cs } _ _ :=
    accepts_node lead (accepts_cons accepted (accepts_singleton (accepts_layout (l := .finish) finish)))
  have tree : Tree.ofSource? cs = some (.node .module .none {} [] ts) := by
    rw [Tree.ofSource?_of_accepts whole, List.append_nil]
    rfl
  have sound : (Tree.node .module .none {} [] ts).IsFaultless cs := by
    refine Tree.isFaultless_node ?_ fun t mem => (placed t mem).2
    rw [Tree.ownFault?, Tree.kind, misindented?_of_placed (fun t mem => (placed t mem).1) fun _ => rfl]
    rfl
  delta constructsOf
  rw [String.toList_ofList, tree]
  dsimp only
  rw [Tree.analyze, Tree.fault?, List.findSome?_eq_none_iff.mpr sound, Option.map_none, Tree.constructs_node]
  rfl

/-! ### Simple statements -/

def simpleHeads : List Head := [.name, .quote, .digit, .mark ['('], .word "import".toList, .word "from".toList]

theorem tells_simple {t : Tree} (opens : Opens h s.rest) (mem : h ∈ simpleHeads) (breaks : Breaks gap next n)
    (text : s.rest = read ++ (gap ++ next))
    (accepted : Accepts grammar simpleStatement { s with region := .line } [t]
      { s.behind read (gap ++ next) with region := .line })
    (start : t.start = s.here) (faultless : t.IsFaultless source) :
    Tells source s read (gap ++ next) t.constructs := by
  have ready : Ready h s := opens.ready (w := []) rfl State.allows_nil
  have stop : Ready .stop { s.behind read (gap ++ next) with region := .line } :=
    .stop (State.lead_of_breaks breaks rfl rfl)
  have newline := State.newline_of_breaks (s := { s.behind read (gap ++ next) with region := .line }) breaks rfl
  have line : Accepts grammar (phrase .simpleLine) s ([t] ++ ([] ++ ([] ++ ([] ++ []))))
      { { s.behind read (gap ++ next) with region := .line } with region := s.region } :=
    accepts_phrase (accepts_within (accepts_cons accepted (accepts_cons (stop.passes (by decide))
      (accepts_cons (stop.passes (by decide)) (accepts_cons (accepts_layout (l := .newline) newline) accepts_nil)))))
  have compounds : RefuseAll grammar s [ifStatement, whileStatement, forStatement, tryStatement, withStatement,
      functionDefinition, classDefinition, decorated, matchStatement] := ready.refuseAll mem (by decide)
  have last : Accepts grammar (first [each [absent (anyOf compoundWords), phrase .simpleLine]]) s [t]
      (s.behind read (gap ++ next)) :=
    accepts_first (accepts_cons (ready.passesAll mem (by decide)) (accepts_singleton line))
  refine ⟨text, t, accepts_phrase ?_, start, faultless, rfl⟩
  exact accepts_first_append compounds last

end Footprint.Syntax
