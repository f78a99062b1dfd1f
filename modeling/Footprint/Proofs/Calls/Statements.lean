import Footprint.Proofs.Calls.Arguments
import Footprint.Proofs.Calls.Extraction
import Footprint.Proofs.Syntax.Lines

/-!
# Programs of calls

Expressions, one in a line, are read as statements. Before that each is tried as the target of an
assignment, which may read all of it or a part, but behind it stands no sign of an assignment.
-/

namespace Footprint.Calls

open Syntax Syntax.Rule Syntax.Grammar

variable {gap : List Char → Prop} {s : State} {e : Expr} {as : Arguments} {h : Head} {es : List Expr}
  {n : Nat} {b cs ds u v w left next source : List Char} {ts : List Tree} {t : State}

/-! ### Targets -/

/-- Every expression is read as a primary, though not every one is one. -/
theorem Expr.reads_primary (e : Expr) (stands : Stands gap e s cs left h) (mem : h ∈ ends) :
    Reads (grammar .primary) s cs left [e.tree] := by
  cases e with
  | integer ds => exact reads_integer stands mem
  | _ => exact Runs.reads (Expr.runs _) trivial stands mem

/-- What comes of trying a target: nothing, all of the expression, or a part that a link is behind. -/
inductive Tried (r : R) (s t : State) : Prop
  | refused : Refuses grammar r s → Tried r s t
  | whole {ts : List Tree} : Accepts grammar r s ts t → Tried r s t
  | part {ts : List Tree} {t' : State} {h : Head} : Accepts grammar r s ts t' → h ∈ links → Ready h t' → Tried r s t

def groupedTarget : R := node .pattern (each ["(", bracketed [opt (commaList (phrase .target))] ")"])

theorem accepts_targets (accepted : Accepts grammar (phrase .target) s ts t) (ready : Ready h t)
    (mem : h ∈ .mark [')'] :: links) : ∃ us, Accepts grammar (opt (commaList (phrase .target))) s us t := by
  have more : Accepts grammar (many (each [",", phrase .target])) t [] t := ready.passesAll mem (by decide)
  have comma : Accepts grammar maybeComma t [] t := ready.passesAll mem (by decide)
  exact ⟨_, accepts_first (accepts_cons (accepts_cons accepted (accepts_singleton more)) (accepts_singleton comma))⟩

/-- A group is tried as its content is, and is then read as a whole or not at all. -/
theorem tried_group (admits : Admits gap s) (hu : gap u) (hv : IsFiller v) (spelled : Spells IsFiller e cs)
    (hw : IsFiller w) (text : s.rest = u ++ '(' :: (v ++ (cs ++ (w ++ ')' :: left))))
    (inner : ∀ {t : State}, Opened t v (cs ++ (w ++ ')' :: left)) → Admits IsFiller t →
      Stands IsFiller e (t.behind v (cs ++ (w ++ ')' :: left))) cs (w ++ ')' :: left) (.mark [')']) →
      Tried (phrase .target) t (t.behind (v ++ cs) (w ++ ')' :: left))) :
    Refuses grammar groupedTarget s ∨
      ∃ ts, Accepts grammar groupedTarget s ts (s.behind (u ++ '(' :: (v ++ (cs ++ (w ++ [')'])))) left) := by
  have opens : Opens (.mark ['(']) ('(' :: (v ++ (cs ++ (w ++ ')' :: left)))) := opensMark_open _
  obtain ⟨extras, -, lead, -⟩ := (opens.opened text (admits.allows u hu)).lead
  obtain ⟨-, us, bracket, -⟩ := reads_open (s := s.behind u ('(' :: (v ++ (cs ++ (w ++ ')' :: left))))) (w := []) rfl
    State.allows_nil
  rw [State.behind_behind, List.nil_append] at bracket
  have free : Admits IsFiller { s.behind (u ++ ['(']) (v ++ (cs ++ (w ++ ')' :: left))) with region := .free } :=
    admits.behind.free
  obtain ⟨-, opened, h', start, here⟩ := Leading.enter free hv spelled hw rfl
  have refused {ts : List Tree} {t : State}
      (content : Accepts grammar (opt (commaList (phrase .target)))
        { s.behind (u ++ ['(']) (v ++ (cs ++ (w ++ ')' :: left))) with region := .free } ts t)
      (closing : Refuses grammar ")" t) : Refuses grammar groupedTarget s :=
    refuses_node lead (refuses_tail bracket (refuses_head (refuses_within
      (refuses_tail content (refuses_head closing)))))
  cases inner opened free (stands_close free.behind spelled hw rfl) with
  | refused none =>
    exact .inl (refused (accepts_later (refuses_head (refuses_head none)) (accepts_first accepts_nil))
      (here.refusesAll start (by decide)))
  | part accepted link ready =>
    obtain ⟨_, content⟩ := accepts_targets accepted ready (List.mem_cons_of_mem _ link)
    exact .inl (refused content (ready.refusesAll link (by decide)))
  | whole accepted =>
    have ready : Ready (.mark [')']) (({ s.behind (u ++ ['(']) (v ++ (cs ++ (w ++ ')' :: left))) with
        region := .free } : State).behind (v ++ cs) (w ++ ')' :: left)) :=
      Opens.ready (h := .mark [')']) (opensMark_close left) rfl (free.behind.allows w hw)
    obtain ⟨_, content⟩ := accepts_targets accepted ready List.mem_cons_self
    obtain ⟨-, vs, closing, -⟩ := reads_close (s := State.behind _ (v ++ cs) (w ++ ')' :: left)) rfl
      (free.behind.allows w hw)
    rw [State.behind_behind] at closing
    have whole : Accepts grammar groupedTarget s _
        ((s.behind (u ++ ['(']) (v ++ (cs ++ (w ++ ')' :: left)))).behind (v ++ cs ++ (w ++ [')'])) left) :=
      accepts_node (k := .pattern) lead (accepts_cons bracket (accepts_singleton (accepts_within
        (accepts_cons content (accepts_singleton closing)))))
    rw [State.behind_behind] at whole
    have same : u ++ ['('] ++ (v ++ cs ++ (w ++ [')'])) = u ++ '(' :: (v ++ (cs ++ (w ++ [')']))) := by simp
    rw [← same]
    exact .inr ⟨_, whole⟩

/-- Names and members are places, and nothing else is. -/
def Expr.IsPlace : Expr → Prop
  | .name _ | .member _ _ => True
  | _ => False

theorem tried_of_group (primary : Reads (grammar .primary) s (u ++ cs) left [e.tree]) (start : h ∈ starts)
    (here : Ready h s)
    (grouped : ¬e.IsPlace → Tried groupedTarget s t) (same : t = s.behind (u ++ cs) left) :
    Tried (phrase .target) s t := by
  subst same
  have noSplat : Refuses grammar splatName s := here.refusesAll start (by decide)
  have noList : Refuses grammar (node .pattern (each ["[", bracketed [opt (commaList (phrase .target))] "]"])) s :=
    here.refusesAll start (by decide)
  have accepted {ts : List Tree} {t : State} (noPlace : Refuses grammar (place (phrase .primary)) s)
      (group : Accepts grammar groupedTarget s ts t) : Accepts grammar (phrase .target) s ts t :=
    accepts_phrase (accepts_later noSplat (accepts_later noPlace (accepts_first group)))
  by_cases isPlace : e.IsPlace
  · have kind : (Tree.soleKind? [e.tree]).any [Kind.identifier, .attribute, .subscript].contains = true := by
      cases e <;> first | rfl | exact isPlace.elim
    obtain ⟨-, ts, read, -⟩ : Reads (place (phrase .primary)) s (u ++ cs) left [e.tree] := primary.phrase.only kind
    exact .whole (accepts_phrase (accepts_later noSplat (accepts_first read)))
  · have kind : (Tree.soleKind? [e.tree]).any [Kind.identifier, .attribute, .subscript].contains = false := by
      cases e <;> first | rfl | exact absurd trivial isPlace
    have noPlace : Refuses grammar (place (phrase .primary)) s := primary.phrase.refuses_only kind
    cases grouped isPlace with
    | refused none =>
      exact .refused (refuses_phrase (refuses_first noSplat (refuses_first noPlace (refuses_first none
        (refuses_first noList refuses_none)))))
    | whole group => exact .whole (accepted noPlace group)
    | part group link ready => exact .part (accepted noPlace group) link ready

/-- Every expression is tried as a target to an end, behind its gap. -/
theorem Stands.tried (admits : Admits gap s) (hu : gap u) (text : s.rest = u ++ (cs ++ left))
    (stands : Stands gap e (s.behind u (cs ++ left)) cs left h) (mem : h ∈ ends) :
    Tried (phrase .target) s (s.behind (u ++ cs) left) := by
  -- What is tried within parentheses need be no part of the tree, so the induction is on the text.
  induction n : (cs ++ left).length using Nat.strongRecOn generalizing gap s e u cs left h with
  | ind _ ih =>
    subst n
    have inside {e : Expr} {cs' v left' : List Char} (shorter : (cs' ++ left').length < (cs ++ left).length)
        (hv : IsFiller v) {t : State} (opened : Opened t v (cs' ++ left')) (admits : Admits IsFiller t)
        (stands : Stands IsFiller e (t.behind v (cs' ++ left')) cs' left' (.mark [')'])) :
        Tried (phrase .target) t (t.behind (v ++ cs') left') :=
      ih _ shorter admits hv opened.text stands (by decide) rfl
    have allowed := admits.allows u hu
    have leading := stands.leading followers (by decide) (mem_followers mem)
    obtain ⟨opened, h', start, here⟩ := leading.opened text allowed
    have primary : Reads (grammar .primary) s (u ++ cs) left [e.tree] :=
      .chain_behind opened (e.reads_primary stands mem)
    refine tried_of_group primary start here (fun noPlace => ?_) rfl
    cases e with
    | name | member => exact absurd trivial noPlace
    | text l =>
      cases stands.spelled with
      | text proper => exact .refused ((Opens.ready (proper.opens left) text allowed).refuses (by decide))
    | integer ds =>
      cases stands.spelled with
      | integer integer => exact .refused ((Opens.ready integer.opens text allowed).refuses (by decide))
    | group e =>
      cases stands.spelled with
      | @group _ _ cs v w hv spelled hw =>
        rcases tried_group admits hu hv spelled hw (by simpa using text)
          (inside (by simp only [List.length_cons, List.length_append]; omega) hv) with refused | ⟨ts, accepted⟩
        · exact .refused refused
        · exact .whole accepted
    | call e as =>
      cases stands.spelled with
      | @call _ _ _ cs ds v w _ _ spelled hv all hw =>
        have isText : cs ++ (v ++ '(' :: (ds ++ (w ++ [')']))) ++ left =
            cs ++ (v ++ '(' :: (ds ++ (w ++ ')' :: left))) := by simp
        rw [isText] at stands text inside
        have point : Ready (.mark ['(']) ((s.behind u (cs ++ (v ++ '(' :: (ds ++ (w ++ ')' :: left))))).behind cs
            (v ++ '(' :: (ds ++ (w ++ ')' :: left)))) :=
          Opens.ready (opensMark_open _) rfl (admits.behind.behind.allows v hv)
        have base : Stands gap e (s.behind u (cs ++ (v ++ '(' :: (ds ++ (w ++ ')' :: left))))) cs
            (v ++ '(' :: (ds ++ (w ++ ')' :: left))) (.mark ['(']) :=
          ⟨spelled, admits.behind, rfl, headIn_gap (admits.isFiller hv) (by decide), point⟩
        rcases (base.leading links (by simp) (by decide)).ready_or_group with
          ⟨h, mem, opens⟩ | ⟨e', cs', v', w', left', -, hv', spelled', hw', isRest, h', link, ready⟩
        · exact .refused ((opens.ready text allowed).refusesAll mem (by decide))
        · rw [State.rest_behind] at isRest
          have shorter : (cs' ++ (w' ++ ')' :: left')).length <
              (cs ++ (v ++ '(' :: (ds ++ (w ++ ')' :: left)))).length := by
            rw [isRest]
            simp only [List.length_cons, List.length_append]
            omega
          rw [State.behind_behind] at ready
          rcases tried_group admits hu hv' spelled' hw' (text.trans (congrArg (u ++ ·) isRest)) (inside shorter hv')
            with refused | ⟨ts, accepted⟩
          · exact .refused refused
          · exact .part accepted link ready

/-! ### Statements -/

theorem Stands.begins (stands : Stands gap e s cs left .stop) : BeginsToken s.rest ∧ ∃ h ∈ starts, Ready h s :=
  (stands.leading followers (by decide) (by decide)).here

theorem Stands.refuses_assignment (stands : Stands IsBlank e s cs left .stop) :
    Refuses grammar (phrase .assignment) s := by
  have same : s.behind [] (cs ++ left) = s := State.behind_nil stands.text
  have tried : Tried (phrase .target) s (s.behind cs left) :=
    Stands.tried (u := []) stands.admits .nil stands.text (same.symm ▸ stands) (by decide)
  have lead := (State.lead_of_token stands.begins.1).1
  have read {ts : List Tree} {t : State} {h : Head} (accepted : Accepts grammar (phrase .target) s ts t)
      (ready : Ready h t) (mem : h ∈ .stop :: links) : Refuses grammar (phrase .assignment) s := by
    have more : Accepts grammar (many (each [",", phrase .target])) t [] t := ready.passesAll mem (by decide)
    have comma : Accepts grammar maybeComma t [] t := ready.passesAll mem (by decide)
    exact refuses_phrase (refuses_choose_ends lead (accepts_cons accepted (accepts_cons more (accepts_singleton comma)))
      (ready.refuseAll mem (by decide)))
  cases tried with
  | refused none => exact refuses_phrase (refuses_choose lead (refuses_head none))
  | whole accepted => exact read accepted stands.ready List.mem_cons_self
  | part accepted link ready => exact read accepted ready (List.mem_cons_of_mem _ link)

/-- An expression at the end of a line is a statement. -/
theorem Stands.statement (stands : Stands IsBlank e s cs (b ++ next) .stop) (breaks : Breaks b next n) :
    ∃ t, Accepts grammar simpleStatement s [t] (s.behind cs (b ++ next)) ∧ t.start = s.here ∧
      t.bare = .node .expressionStatement none {} [] [e.tree] := by
  obtain ⟨token, h, start, here⟩ := stands.begins
  have stop := stands.ready
  have others : RefuseAll grammar s [keywordStatement, printToStatement, execStatement,
      each [typeStatement, ahead statementEnd]] := here.refuseAll start (by decide)
  have free : Accepts grammar (absent committed) s [] s := here.passesAll start (by decide)
  have noYield : Refuses grammar yielding s := here.refusesAll start (by decide)
  have newline := State.newline_of_breaks (s := s.behind cs (b ++ next)) breaks rfl
  have ends : Accepts grammar (ahead statementEnd) (s.behind cs (b ++ next)) [] (s.behind cs (b ++ next)) :=
    accepts_ahead (accepts_later (stop.refuses (by decide)) (accepts_first (accepts_layout (l := .newline) newline)))
  obtain ⟨-, ts, expression, bare⟩ := e.isRead stands (by decide)
  have list : Accepts grammar (phrase .expressionList) s (ts ++ [] ++ []) (s.behind cs (b ++ next)) :=
    accepts_phrase (accepts_cons (accepts_cons (accepts_phrase expression)
      (accepts_singleton (stop.passes (by decide)))) (accepts_singleton (stop.passes (by decide))))
  have statement : Accepts grammar expressionStatement s
      [.node .expressionStatement none s.here [] (ts ++ [] ++ [])] (s.behind cs (b ++ next)) :=
    accepts_node (State.lead_of_token token).1
      (accepts_later stands.refuses_assignment (accepts_later noYield (accepts_first list)))
  refine ⟨.node .expressionStatement .none s.here [] (ts ++ [] ++ []), ?_, rfl, ?_⟩
  · refine accepts_first_append others (accepts_first ?_)
    exact accepts_cons free (accepts_singleton (accepts_first (accepts_cons statement (accepts_singleton ends))))
  · rw [List.append_nil, List.append_nil, Tree.bare, bare]

/-! ### Lines -/

theorem Spells.beginsToken : ∀ (e : Expr) {cs : List Char}, Spells gap e cs → ∀ left, BeginsToken (cs ++ left)
  | .name _, _, spelled, left => by
    cases spelled with
    | name name =>
      obtain ⟨c, ds, rfl, start⟩ := name.start
      exact ⟨c, ds ++ left, rfl, isSolid_of_isIdentifierStart (isIdentifierStart_of_isAlpha start)⟩
  | .text _, _, spelled, left => by
    cases spelled with
    | text proper => exact (proper.opens left).beginsToken
  | .integer _, _, spelled, left => by
    cases spelled with
    | integer integer => exact Opens.beginsToken (h := .digit) integer.opens
  | .member e _, _, spelled, left => by
    cases spelled with
    | member _ _ base _ _ =>
      rw [List.append_assoc]
      exact Spells.beginsToken e base _
  | .call e _, _, spelled, left => by
    cases spelled with
    | call _ _ base _ _ _ =>
      rw [List.append_assoc]
      exact Spells.beginsToken e base _
  | .group _, _, spelled, left => by
    cases spelled with
    | group _ _ _ => exact ⟨'(', _, rfl, by decide⟩

theorem SpellsLines.begins (lines : SpellsLines es cs) : cs = [] ∨ BeginsToken cs := by
  cases lines with
  | nil => exact .inl rfl
  | last spelled =>
    have token := Spells.beginsToken _ spelled []
    rw [List.append_nil] at token
    exact .inr token
  | cons spelled _ _ => exact .inr (Spells.beginsToken _ spelled _)

/-- An expression in a line is a statement with the calls of the expression. -/
theorem Spells.tells (spelled : Spells IsBlank e cs) (breaks : Breaks b next n) (top : s.suites = [])
    (text : s.rest = cs ++ (b ++ next)) : Tells source s cs (b ++ next) e.calls := by
  have stop : Ready .stop (({ s with region := .line } : State).behind cs (b ++ next)) :=
    .stop (State.lead_of_breaks breaks rfl rfl)
  have stands : Stands IsBlank e { s with region := .line } cs (b ++ next) .stop :=
    ⟨spelled, ⟨top, fun _ blank => .inl blank⟩, text, breaks.parted, stop⟩
  obtain ⟨h, start, opens⟩ := (stands.leading followers (by decide) (by decide)).ready
  obtain ⟨t, accepted, placed, bare⟩ := stands.statement breaks
  have proper := Spells.isProper e spelled
  have constructs : t.constructs = e.calls := by
    rw [← Tree.constructs_bare, bare, Tree.constructs_node]
    simp [Tree.construct?, Tree.kind, Expr.constructs_tree e proper]
  have noWalrus : e.tree.kind ≠ .namedExpression := by cases e <;> nofun
  have sound : t.bare.IsSound := by
    rw [bare]
    refine Tree.isSound_node (by decide) ?_ (by simpa using Expr.isSound_tree e proper)
    show ([e.tree].find? fun c => decide (c.kind = .namedExpression)).map _ = .none
    rw [List.find?_cons_of_neg (by simpa using noWalrus)]
    rfl
  have faultless : t.IsFaultless source := fun _ mem => Tree.ownFault?_of_isSound_bare sound source mem
  have mem : h ∈ simpleHeads := by
    have known : ∀ h ∈ starts, h ∈ simpleHeads := by decide
    exact known h start
  rw [← constructs]
  exact tells_simple opens mem breaks text accepted placed faultless

theorem Spells.ne_nil (spelled : Spells gap e cs) : cs ≠ [] := by
  rintro rfl
  obtain ⟨c, ds, same, -⟩ := Spells.beginsToken e spelled []
  cases same

/-- Lines of expressions are read as statements with their calls, up to the end of the text. -/
theorem SpellsLines.tells (lines : SpellsLines es cs) (top : s.suites = []) (text : s.rest = b ++ cs)
    (enters : cs ≠ [] → Enters s 0 b cs) (ends : cs = [] → Breaks b [] 0) :
    ∃ read left, TellsLines source s 0 read left (es.flatMap Expr.calls) ∧ Breaks left [] 0 := by
  have suite {t : State} (top : t.suites = []) : t.suite ≤ 0 := by rw [State.suite, top]; exact Nat.le_refl 0
  induction lines generalizing s b with
  | nil =>
    have last : s.line? = .none := State.line_none_of_breaks (ends rfl) text (.inr rfl)
    rw [List.append_nil] at text
    exact ⟨[], b, .nil text last, ends rfl⟩
  | @last e cs spelled =>
    have entered := enters spelled.ne_nil
    have last : (s.behind (b ++ cs) []).line? = .none := State.line_none_of_breaks .text rfl (.inr rfl)
    have head : Tells source (s.behind b (cs ++ ([] ++ []))) cs ([] ++ []) e.calls := spelled.tells .text top rfl
    rw [← List.append_nil cs] at entered
    exact ⟨_, [], .cons entered (suite top) spelled.ne_nil head (.nil rfl last), .text⟩
  | @cons e es cs b' ds spelled lineEnd lines ih =>
    have some : cs ++ (b' ++ ds) ≠ [] := List.append_ne_nil_of_left_ne_nil spelled.ne_nil _
    have behind (token : BeginsToken ds) : Breaks b' ds 0 := by
      have := Breaks.line (w := []) lineEnd .nil token
      rwa [List.append_nil] at this
    have breaks : Breaks b' ds 0 := by
      rcases lines.begins with rfl | token
      · exact .last lineEnd
      · exact behind token
    have head : Tells source (s.behind b (cs ++ (b' ++ ds))) cs (b' ++ ds) e.calls := spelled.tells breaks top rfl
    obtain ⟨read, left, tail, ends⟩ := ih (s := s.behind (b ++ cs) (b' ++ ds)) top rfl
      (fun _ => .behind breaks rfl) (fun _ => .last lineEnd)
    have rest : b' ++ ds = read ++ left := tail.text
    rw [rest] at head tail enters some
    exact ⟨_, left, .cons (enters some) (suite top) spelled.ne_nil head tail, ends⟩

/-- The constructs of a program of calls are its calls, in the order of its expressions, each call before those
in its callee, and those before the ones in its arguments. -/
theorem constructsOf_of_spellsLines (lines : SpellsLines es source) :
    constructsOf (String.ofList source) = .ok (es.flatMap Expr.calls) := by
  have told : ∃ read left, TellsLines source { rest := source } 0 read left (es.flatMap Expr.calls) ∧
      Breaks left [] 0 :=
    lines.tells (b := []) rfl rfl (fun some => .here (lines.begins.resolve_left some) rfl rfl) fun _ => .text
  obtain ⟨read, left, tells, ends⟩ := told
  exact constructsOf_of_tellsLines lines.begins tells ends

/-- A call on the result of another comes first. -/
theorem constructsOf_chained_call :
    let callee : Expr := .call (.name "open".toList) (.cons .plain (.text ⟨[], '"', false, ['a']⟩) .nil)
    let e : Expr := .call (.member callee "read".toList) (.cons (.keyword ['n']) (.integer ['1']) .nil)
    SpellsLines [e] "open(\"a\").read(n=1)\n".toList ∧
      constructsOf "open(\"a\").read(n=1)\n" = .ok [.call (.member "read") [], .call (.name "open") [.text "a"]] := by
  intro callee e
  have name {n : List Char} (start : ∃ c ds, n = c :: ds ∧ (c.isAlpha || c == '_') = true)
      (rest : (n.all fun c => c.isAlphanum || c == '_') = true) (free : n ∉ reservedWords) : IsName n :=
    ⟨start, List.all_eq_true.mp rest, free⟩
  have literal : Literal.IsProper ⟨[], '"', false, ['a']⟩ :=
    ⟨by decide, .inr rfl, .plain (by decide) (by decide) (by decide) .nil⟩
  have opened : Spells IsBlank callee
      ("open".toList ++ ([] ++ '(' :: (([] ++ ("\"a\"".toList ++ [])) ++ ([] ++ [')'])))) :=
    .call trivial ⟨⟨rfl, rfl⟩, trivial⟩ (.name (name ⟨_, _, rfl, by decide⟩ (by decide) (by decide))) .nil
      (.cons .nil (.plain (.text literal)) .nil) .nil
  have member : Spells IsBlank (.member callee "read".toList)
      ("open(\"a\")".toList ++ ([] ++ '.' :: ([] ++ "read".toList))) :=
    .member trivial (name ⟨_, _, rfl, by decide⟩ (by decide) (by decide)) opened .nil .nil
  have spelled : Spells IsBlank e ("open(\"a\").read".toList ++
      ([] ++ '(' :: (([] ++ ((['n'] ++ ([] ++ '=' :: ([] ++ ['1']))) ++ [])) ++ ([] ++ [')'])))) :=
    .call trivial trivial member .nil
      (.cons .nil (.keyword (name ⟨_, _, rfl, by decide⟩ (by decide) (by decide)) .nil .nil
        (.integer (.digit (by decide)))) .nil) .nil
  have lines : SpellsLines [e] "open(\"a\").read(n=1)\n".toList := .cons spelled (.inl rfl) .nil
  have calls : [e].flatMap Expr.calls = [.call (.member "read") [], .call (.name "open") [.text "a"]] := by decide
  have read := constructsOf_of_spellsLines lines
  rw [String.ofList_toList, calls] at read
  exact ⟨lines, read⟩

/-- Where the escape of a named character is not closed in its literal, it takes the quote with it and goes on up
to the next closing brace. -/
theorem constructsOf_open_escape :
    let l : Literal := ⟨[], '"', false, "\\N\x7ba".toList⟩
    let m : Literal := ⟨[], '"', false, "\x7d".toList⟩
    let e : Expr := .call (.name ['f']) (.cons .plain (.text l) (.cons .plain (.text m) .nil))
    let source := String.ofList ('f' :: '(' :: (l.token ++ ',' :: ' ' :: (m.token ++ [')'])))
    (∀ c ∈ l.body ++ m.body, c ∉ ['"', '\n', '\r', '\x00']) ∧
      e.calls = [.call (.name "f") [.text "\\N\x7ba", .text "\x7d"]] ∧
      constructsOf source = .ok [.call (.name "f") [.text "\\N\x7ba\", \"\x7d"]] ∧
      constructsOf source ≠ .ok e.calls := by
  intro l m e source
  have calls : e.calls = [.call (.name "f") [.text "\\N\x7ba", .text "\x7d"]] := by decide
  have read : (constructsOf source).toOption = some [.call (.name "f") [.text "\\N\x7ba\", \"\x7d"]] := by
    decide +kernel
  have same : constructsOf source = .ok [.call (.name "f") [.text "\\N\x7ba\", \"\x7d"]] := by
    cases outcome : constructsOf source <;> rw [outcome] at read <;> cases read
    rfl
  refine ⟨by decide, calls, same, fun other => ?_⟩
  rw [other, calls] at read
  exact absurd read (by decide)

end Footprint.Calls
