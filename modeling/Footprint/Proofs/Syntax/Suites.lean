import Footprint.Proofs.Syntax.Lines

/-!
# Suites

A suite is read as a block: it is entered where the next line is indented more than the statements around, and
left where a line is indented less than its own. A compound statement reads its header, a suite, and then the
clauses that go on with it, of which there may be none.
-/

namespace Footprint.Syntax

open Rule Grammar

variable {s : State} {b cs gap next read left source : List Char} {k n m : Nat} {us : List Construct} {h : Head}
  {hs : List Head} {r : R} {rs : List R} {ts : List Tree}

/-! ### Trees without remarks -/

theorem Tree.isFaultless_of_bares (sound : ∀ t ∈ bares ts, t.IsSound) : ∀ t ∈ ts, t.IsFaultless source := by
  intro t mem
  cases remark : t.isRemark with
  | true =>
    obtain ⟨p, rfl⟩ := eq_of_isRemark remark
    exact isFaultless_node rfl fun t mem => absurd mem List.not_mem_nil
  | false =>
    have inBares : t.bare ∈ bares ts := by
      rw [bares_eq]
      exact List.mem_map.mpr ⟨t, List.mem_filter.mpr ⟨mem, by simp [remark]⟩, rfl⟩
    exact fun _ below => ownFault?_of_isSound_bare (sound _ inBares) source below

theorem Tree.constructs_bares (ts : List Tree) : (bares ts).flatMap constructs = ts.flatMap constructs := by
  have same := filterMap_preorders_bares ts
  rwa [preorders_eq_flatMap, preorders_eq_flatMap, List.filterMap_flatMap, List.filterMap_flatMap] at same

/-! ### Blocks -/

theorem State.lead_of_breaks_free (breaks : Breaks gap next n) (text : s.rest = gap ++ next) (free : s.region = .free) :
    s.lead? = some ([], s.behind gap next) := by
  simp only [lead?, free, gap_of_breaks breaks text]
  rfl

/-- Lines that are indented more are read as a suite, up to a line that is indented less than they are. -/
theorem accepts_suite (breaks : Breaks gap (read ++ left) m) (text : s.rest = gap ++ (read ++ left))
    (free : s.region = .free) (more : s.suite < m) (lines : TellsLines source ({ s with suites := m :: s.suites }.behind gap (read ++ left)) m read left us)
    (ends : Breaks b next k) (isLeft : left = b ++ next) (less : k < m) :
    ∃ t, Accepts grammar (phrase .suite) s [t] (s.behind (gap ++ read) left) ∧ t.IsFaultless source ∧
      t.constructs = us := by
  obtain ⟨-, ts, accepted, placed, rfl⟩ := lines
  have indent := State.indent_of_breaks breaks text more
  have lead := State.lead_of_breaks_free (s := { s with suites := m :: s.suites }) breaks text free
  have inner : k < ((({ s with suites := m :: s.suites } : State).behind gap (read ++ left)).behind read left).suite := less
  have dedent := State.dedent_of_breaks ends isLeft inner
  have block : Accepts grammar (node .block (each [many (each [layout .line, phrase .statement]), layout .dedent]))
      { s with suites := m :: s.suites } [.node .block .none (s.here.afterAll gap) [] (ts ++ [])]
      ((s.behind gap (read ++ left)).behind read left) :=
    accepts_node lead (accepts_cons accepted (accepts_singleton (accepts_layout (l := .dedent) dedent)))
  rw [State.behind_behind, List.append_nil] at block
  refine ⟨_, accepts_phrase (accepts_first (accepts_cons (accepts_layout (l := .indent) indent)
    (accepts_singleton block))), ?_, ?_⟩
  · refine Tree.isFaultless_node ?_ fun t mem => (placed t mem).2
    have even : (Tree.node .block .none (s.here.afterAll gap) [] ts).misindented? source = .none :=
      misindented?_of_placed (fun t mem => (placed t mem).1) nofun
    rw [Tree.ownFault?, Tree.kind, even]
    rfl
  · rw [Tree.constructs_node]
    rfl

/-! ### Clauses -/

/-- What follows a statement: a line that begins with one of these tokens, or the end of the text. -/
structure Follows (hs : List Head) (gap next : List Char) : Prop where
  breaks : ∃ n, Breaks gap next n
  begins : next = [] ∨ ∃ h ∈ hs, Opens h next

theorem Follows.refuses_clause (follows : Follows hs gap next) (text : s.rest = gap ++ next)
    (told : ∀ h ∈ hs, h.forecast r = some false) : Refuses grammar (each [layout .line, r]) s := by
  obtain ⟨k, breaks⟩ := follows.breaks
  by_cases ends : k < s.suite ∨ next = []
  · exact refuses_head (refuses_layout (l := .line) (State.line_none_of_breaks breaks text ends))
  · rw [not_or, Nat.not_lt] at ends
    obtain ⟨h, mem, opens⟩ := follows.begins.resolve_left ends.2
    have line := State.line_of_breaks breaks text ends.1 ends.2
    have ready : Ready h (s.behind gap next) := opens.ready (w := []) rfl State.allows_nil
    exact refuses_tail (accepts_layout (l := .line) line) (refuses_head (ready.refusesAll mem told))

theorem Follows.maybeElse (follows : Follows hs gap next) (text : s.rest = gap ++ next) (ws : List String)
    (noElse : ∀ h ∈ hs, h.forecast (node .clause (each ["else", header [], phrase .suite])) = some false)
    (told : ∀ h ∈ hs, h.forecast (anyOf ws) = some false) : Accepts grammar (maybeElse ws) s [] s :=
  accepts_later (follows.refuses_clause text noElse)
    (accepts_first (accepts_absent (follows.refuses_clause text told)))

/-! ### Compound statements -/

/-- A compound statement: its word and its header, in which there are no constructs, a suite, and nothing of what
may go on with it. -/
theorem tells_compound {before after : List R} {word header : R} {u v : List Char} {vs : List Tree}
    (isStatement : grammar .statement = first (before ++ compound (word :: header :: phrase .suite :: rs) :: after))
    (token : BeginsToken s.rest) (refused : RefuseAll grammar s before)
    (opening : Reads word s u (v ++ left) [])
    (heading : Reads header (s.behind u (v ++ left)) v left vs)
    (plain : ∀ t ∈ vs, t.IsSound ∧ t.constructs = []) (textLeft : left = read ++ next)
    (suite : ∃ t, Accepts grammar (phrase .suite) (s.behind (u ++ v) left) [t] (s.behind (u ++ v ++ read) next) ∧
      t.IsFaultless source ∧ t.constructs = us)
    (tail : Accepts grammar (each rs) (s.behind (u ++ v ++ read) next) [] (s.behind (u ++ v ++ read) next)) :
    Tells source s (u ++ v ++ read) next us := by
  obtain ⟨text, ts, opened, bare⟩ := opening
  obtain ⟨-, ts', headed, rfl⟩ := heading
  obtain ⟨t, suite, faultless, rfl⟩ := suite
  rw [State.behind_behind] at headed
  have whole := accepts_node (k := .compoundStatement) (State.lead_of_token token).1
    (accepts_cons opened (accepts_cons headed (accepts_cons suite tail)))
  have chosen : Accepts grammar (first (compound (word :: header :: phrase .suite :: rs) :: after)) s _ _ :=
    accepts_first whole
  have statement := accepts_first_append refused chosen
  rw [← isStatement, List.nil_append] at statement
  have bares : Tree.bares (ts ++ ts') = Tree.bares ts' := by rw [Tree.bares_append, bare, List.nil_append]
  refine ⟨by simp [text, textLeft], _, accepts_phrase statement, rfl, ?_, ?_⟩
  · refine Tree.isFaultless_node rfl ?_
    rw [← List.append_assoc]
    refine List.forall_mem_append.mpr ⟨Tree.isFaultless_of_bares fun t mem => ?_, by simpa using faultless⟩
    exact (plain t (bares ▸ mem)).1
  · have none : (ts ++ ts').flatMap Tree.constructs = [] := by
      rw [← Tree.constructs_bares, bares, List.flatMap_eq_nil_iff]
      exact fun t mem => (plain t mem).2
    rw [Tree.constructs_node, ← List.append_assoc, List.flatMap_append, none]
    simp [Tree.construct?, Tree.kind]

end Footprint.Syntax
