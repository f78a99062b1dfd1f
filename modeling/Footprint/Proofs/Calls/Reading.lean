import Footprint.Proofs.Calls.Beginnings

/-!
# Reading expressions

Each expression is read as one tree. A primary grows from its first part step by step, so what is said of
it is which steps of a chain lead to its tree; whatever steps follow may then be put behind.
-/

namespace Footprint.Calls

open Syntax Syntax.Rule Syntax.Grammar

/-! ### Trees of expressions -/

def identifier (n : List Char) : Tree := .node .identifier none {} n []

def Slot.tree : Slot → Tree → Tree
  | .plain, t => t
  | .splat, t => .node .listSplat none {} [] [t]
  | .keyword n, t => .node .keywordArgument none {} [] [identifier n, t]
  | .doubleSplat, t => .node .dictionarySplat none {} [] [t]

mutual

/-- The tree of an expression, without remarks. -/
def Expr.tree : Expr → Tree
  | .name n => identifier n
  | .text l => .node .string none {} l.token []
  | .integer _ => .node .constant none {} [] []
  | .member e n => .node .attribute none {} [] [e.tree, (identifier n).withRole .member]
  | .call e as =>
    .node .call none {} [] [e.tree.withRole .callee, .node .argumentList (some .arguments) {} [] as.trees]
  | .group e => .node .parenthesized none {} [] [e.tree]

def Arguments.trees : Arguments → List Tree
  | .nil => []
  | .cons slot e as => slot.tree e.tree :: as.trees

end

theorem Expr.tree_not_extra (e : Expr) : ¬e.tree.IsExtra := by
  cases e <;> rintro (comment | join) <;> first | cases comment | cases join

def primarySteps : List (Kind × Option Role × R) := [memberStep, callStep, subscriptStep]

variable {gap : List Char → Prop} {s : State} {e : Expr} {as : Arguments} {slot : Slot} {h : Head} {hs : List Head}
  {n cs ds v w left read rest : List Char} {l : Literal} {us : List Tree}

/-- A text in which an expression stands, up to what is left. -/
structure Stands (gap : List Char → Prop) (e : Expr) (s : State) (cs left : List Char) (h : Head) : Prop where
  spelled : Spells gap e cs
  admits : Admits gap s
  text : s.rest = cs ++ left
  parted : HeadIn separators left
  ready : Ready h (s.behind cs left)

/-- From the first part of a primary, steps lead to its tree. -/
def Runs (e : Expr) : Prop :=
  ∀ {gap : List Char → Prop} {s : State} {cs left : List Char} {h : Head}, e.IsPrimary → Stands gap e s cs left h →
    h ∈ followers → ∃ base t ts, Accepts grammar (phrase .atom) s base t ∧ Tree.bares ts = [e.tree] ∧
      ∀ us u, Grows grammar primarySteps s ts (s.behind cs left) us u → Grows grammar primarySteps s base t us u

def IsRead (e : Expr) : Prop :=
  ∀ {gap : List Char → Prop} {s : State} {cs left : List Char} {h : Head}, Stands gap e s cs left h → h ∈ ends →
    Reads (grammar .expression) s cs left [e.tree]

theorem Stands.leading (stands : Stands gap e s cs left h) (hs : List Head) (sub : ∀ l ∈ links, l ∈ hs) (mem : h ∈ hs) :
    Leading hs s :=
  Spells.leading hs e stands.spelled stands.admits stands.text stands.parted stands.ready sub mem

theorem mem_followers (mem : h ∈ ends) : h ∈ followers := List.mem_append_right _ mem

/-! ### From the first part to the whole -/

theorem Leading.here (leading : Leading hs s) : BeginsToken s.rest ∧ ∃ h ∈ starts, Ready h s := by
  obtain ⟨h, mem, opens⟩ := leading.ready
  exact ⟨opens.beginsToken, h, mem, opens.ready (w := []) rfl State.allows_nil⟩

theorem Runs.reads (runs : Runs e) (primary : e.IsPrimary) (stands : Stands gap e s cs left h) (mem : h ∈ ends) :
    Reads (grammar .primary) s cs left [e.tree] := by
  obtain ⟨base, t, ts, atom, bare, grows⟩ := runs primary stands (mem_followers mem)
  obtain ⟨token, -⟩ := (stands.leading followers (by decide) (mem_followers mem)).here
  have finished := grows _ _ (grows_end (stands.ready.refuseAll mem (by decide)))
  exact ⟨stands.text, [] ++ ts, accepts_chain (State.lead_of_token token).1 atom finished, bare⟩

/-- What is read where a primary may stand is read as an expression. -/
theorem Leading.reads_expression (leading : Leading followers s) (ready : Ready h (s.behind read rest))
    (mem : h ∈ ends) (primary : Reads (grammar .primary) s read rest us) :
    Reads (grammar .expression) s read rest us := by
  obtain ⟨token, h', start, here⟩ := leading.here
  have lead := (State.lead_of_token token).1
  rw [primary.text] at token
  have named : Refuses grammar named s :=
    refuses_node lead (leading.refuses_word (w := []) rfl State.allows_nil (by decide) (by decide))
  have unary : Reads (grammar .unary) s read rest us :=
    .later (here.refusesAll start (by decide))
      (.later (here.refusesAll start (by decide)) (.first (.phrase primary)))
  have comparison : Reads (grammar .comparison) s read rest us :=
    .chain_token token (.phrase unary) (ready.refuseAll mem (by decide))
  have negation : Reads (grammar .negation) s read rest us :=
    .later (here.refusesAll start (by decide))
      (.first (.pass (here.passesAll start (by decide)) (.singleton (.phrase comparison))))
  have disjunction : Reads (grammar .disjunction) s read rest us :=
    .chain_token token (.phrase negation) (ready.refuseAll mem (by decide))
  have unconditional : Reads (grammar .unconditional) s read rest us :=
    .later (here.refusesAll start (by decide)) (.later named
      (.first (.pass (here.passesAll start (by decide)) (.singleton (.phrase disjunction)))))
  exact .chain_token token (.phrase unconditional) (ready.refuseAll mem (by decide))

theorem Runs.isRead (runs : Runs e) (primary : e.IsPrimary) : IsRead e := by
  intro gap s cs left h stands mem
  have leading := stands.leading followers (by decide) (mem_followers mem)
  exact leading.reads_expression stands.ready mem (runs.reads primary stands mem)

theorem IsRead.behind (isRead : IsRead e) (opened : Opened s v (cs ++ left))
    (stands : Stands gap e (s.behind v (cs ++ left)) cs left h) (mem : h ∈ ends) :
    Reads (phrase .expression) s (v ++ cs) left [e.tree] :=
  .phrase (.chain_behind opened (isRead stands mem))

/-! ### First parts -/

theorem runs_of_reads_atom (atom : ∀ {gap : List Char → Prop} {s : State} {cs left : List Char} {h : Head},
    Stands gap e s cs left h → h ∈ followers → Reads (phrase .atom) s cs left [e.tree]) : Runs e := by
  intro gap s cs left h _ stands mem
  obtain ⟨-, ts, accepted, bare⟩ := atom stands mem
  exact ⟨ts, _, ts, accepted, bare, fun _ _ grows => grows⟩

theorem reads_atom_name (name : IsName n) (parted : HeadIn separators left) (text : s.rest = n ++ left) :
    Reads (phrase .atom) s n left [identifier n] := by
  have ready : Ready .name s := (name.opens parted).ready (w := []) text State.allows_nil
  refine .phrase (.later (ready.refuses (by decide)) (.later (ready.refuses (by decide)) ?_))
  refine .later (ready.refuses (by decide)) (.later (ready.refuses (by decide)) ?_)
  refine .later (ready.refuses (by decide)) (.later (ready.refuses (by decide)) ?_)
  exact .first (Reads.name (w := []) _ name parted text State.allows_nil (by decide))

theorem runs_name (n : List Char) : Runs (.name n) := by
  apply runs_of_reads_atom
  intro gap s cs left h stands mem
  cases stands.spelled with
  | name name => exact reads_atom_name name stands.parted stands.text

theorem reads_name_expression (name : IsName n) (parted : HeadIn separators left) (text : s.rest = n ++ left)
    (ready : Ready h (s.behind n left)) (mem : h ∈ ends) : Reads (grammar .expression) s n left [identifier n] := by
  have leading : Leading followers s := .name name text parted ready (mem_followers mem)
  have token : BeginsToken (n ++ left) := (name.opens parted).beginsToken
  exact leading.reads_expression ready mem
    (.chain_token token (reads_atom_name name parted text) (ready.refuseAll mem (by decide)))

theorem runs_text (l : Literal) : Runs (.text l) := by
  apply runs_of_reads_atom
  intro gap s cs left h stands mem
  cases stands.spelled with
  | text proper =>
    have opened : Opened s [] (l.token ++ left) := (proper.opens left).opened stands.text State.allows_nil
    have token : Reads (.token .plainString) (s.behind [] (l.token ++ left)) l.token left [] :=
      Reads.token (w := []) opened.behind rfl (proper.length_eq stands.parted _) fun _ _ => rfl
    have string : Reads (grammar .string) s l.token left [(Expr.text l).tree] :=
      .first (Reads.node (w := []) opened (by decide) token)
    have strings : Reads (grammar .strings) s l.token left [(Expr.text l).tree] :=
      .chain_token opened.token (.phrase string) (stands.ready.refuseAll mem (by decide))
    exact .phrase (.first (.phrase strings))

theorem not_point (ready : Ready h (s.behind cs left)) (mem : h ∈ ends) : HeadOut ['.'] left := by
  intro c head point
  obtain rfl := List.mem_singleton.mp point
  obtain ⟨rest, rfl⟩ : ∃ rest, left = '.' :: rest := by
    cases left with
    | nil => cases head
    | cons c rest => exact ⟨rest, by rw [Option.some.inj head]⟩
  have lead := (State.lead_of_token (s := s.behind cs ('.' :: rest)) ⟨'.', rest, rfl, by decide⟩).1
  cases ready with
  | stop stopped =>
    rw [stopped] at lead
    cases lead
  | token w text same gap opens =>
    have noGap : w = [] := by
      have filler : IsFiller w := by
        rcases gap with blank | ⟨filler, -⟩
        · exact blank.isFiller
        · exact filler
      rcases filler with _ | _ | _ | _ | _ <;> first | rfl | exact absurd (List.cons.inj same).1 (by decide)
    subst noGap
    obtain rfl : '.' :: rest = text := same
    have heads : ∀ h ∈ ends, h = .stop ∨ ∃ c ∈ [')', ',', ':'], h = .mark [c] := by decide
    rcases heads h mem with rfl | ⟨c, mem, rfl⟩
    · exact opens
    · obtain ⟨ds, same⟩ := OpensMark.isHead opens
      obtain rfl := (List.cons.inj same).1
      exact absurd mem (by decide)

/-- An integer is read as a primary too, though none of its steps may follow. -/
theorem reads_integer (stands : Stands gap (.integer ds) s cs left h) (mem : h ∈ ends) :
    Reads (grammar .primary) s cs left [(Expr.integer ds).tree] := by
  cases stands.spelled with
  | integer integer =>
    have opened : Opened s [] (cs ++ left) := integer.opens.opened stands.text State.allows_nil
    have ready : Ready .digit s := integer.opens.ready (w := []) stands.text State.allows_nil
    have token : Reads (.token .number) (s.behind [] (cs ++ left)) cs left [] :=
      Reads.token (w := []) opened.behind rfl (integer.length_eq stands.parted (not_point stands.ready mem)) fun _ _ => rfl
    have constant : Reads constant s cs left [(Expr.integer cs).tree] :=
      .first (Reads.node (w := []) opened (by decide) token)
    have atom : Reads (phrase .atom) s cs left [(Expr.integer cs).tree] :=
      .phrase (.later (ready.refuses (by decide)) (.first constant))
    exact .chain_token opened.token atom (stands.ready.refuseAll mem (by decide))

theorem isRead_integer (ds : List Char) : IsRead (.integer ds) := by
  intro gap s cs left h stands mem
  have leading := stands.leading followers (by decide) (mem_followers mem)
  exact leading.reads_expression stands.ready mem (reads_integer stands mem)

/-! ### Parentheses -/

theorem stands_close {t : State} (admits : Admits IsFiller t) (spelled : Spells IsFiller e cs) (hw : IsFiller w)
    (text : t.rest = cs ++ (w ++ ')' :: left)) :
    Stands IsFiller e t cs (w ++ ')' :: left) (.mark [')']) :=
  ⟨spelled, admits, text, headIn_gap hw (by decide),
    Opens.ready (h := .mark [')']) (opensMark_close left) rfl (admits.behind.allows w hw)⟩

theorem runs_group (isRead : IsRead e) : Runs (.group e) := by
  apply runs_of_reads_atom
  intro gap s cs left h stands _
  cases stands.spelled with
  | @group _ _ cs v w hv spelled hw =>
    have text : s.rest = '(' :: (v ++ (cs ++ (w ++ ')' :: left))) := by simpa using stands.text
    have ready : Ready (.mark ['(']) s := Opens.ready (w := []) (opensMark_open _) text State.allows_nil
    have token : BeginsToken s.rest := text ▸ Opens.beginsToken (h := .mark ['(']) (opensMark_open _)
    have bracket : Reads "(" s ['('] (v ++ (cs ++ (w ++ ')' :: left))) [] := reads_open (w := []) text State.allows_nil
    obtain ⟨before, accepted, -⟩ := bracket.accepts
    have admits : Admits IsFiller { s.behind ['('] (v ++ (cs ++ (w ++ ')' :: left))) with region := .free } :=
      stands.admits.behind.free
    obtain ⟨leading, entered, h, mem, inner⟩ := Leading.enter admits hv spelled hw rfl
    have expression := isRead.behind entered (stands_close admits.behind spelled hw rfl) (by decide)
    have noSplat : Refuses grammar (choose (each ["(", within .free listSplat])
        [(.collection, each [ahead ",", moreElements (phrase .element) ")"])]) s :=
      refuses_choose (State.lead_of_token token).1
        (refuses_tail accepted (refuses_head (refuses_within (inner.refusesAll mem (by decide)))))
    have content : Reads (each [absent ")", first [yielding, placedSplatGroup, phrase .expression]])
        _ (v ++ cs) (w ++ ')' :: left) [e.tree] :=
      .pass (inner.passesAll mem (by decide)) (.singleton (.later (inner.refusesAll mem (by decide))
        (.later (refuses_head (leading.refuses_splatGroup rfl (admits.allows v hv))) (.first expression))))
    have assoc : w ++ [')'] ++ left = w ++ ')' :: left := by simp
    have front : Reads (each ["(", within .free (each [absent ")", first [yielding, placedSplatGroup,
        phrase .expression]])]) s (['('] ++ (v ++ cs)) (w ++ [')'] ++ left) ([] ++ [e.tree]) := by
      rw [assoc]
      exact .cons (by simpa using bracket) (.singleton (.within (by simpa using content)))
    have closing : Reads (bracketed [] ")") (s.behind (['('] ++ (v ++ cs)) (w ++ [')'] ++ left)) (w ++ [')']) left [] := by
      rw [assoc]
      exact .within (.singleton (reads_close rfl (admits.behind.allows w hw)))
    have group : Reads group s (['('] ++ (v ++ cs) ++ (w ++ [')'])) left [(Expr.group e).tree] :=
      .later noSplat (.first (Reads.choose_token [] token (by decide) rfl front (by simp [RefuseAll]) closing))
    refine .phrase (.later (ready.refuses (by decide)) (.later (ready.refuses (by decide)) (.first ?_)))
    exact group.cast (by simp)

/-! ### Members and calls -/

theorem reads_pointed {r : R} (name : IsName n) (hv : s.Allows v) (hw : s.Allows w) (parted : HeadIn separators left)
    (text : s.rest = v ++ '.' :: (w ++ (n ++ left)))
    (part : Reads r (s.behind (v ++ '.' :: w) (n ++ left)) n left us) :
    Reads (each [".", glue, r]) s (v ++ ['.'] ++ (w ++ n)) left us := by
  have assoc : w ++ n ++ left = w ++ (n ++ left) := List.append_assoc w n left
  have behind : v ++ '.' :: w = v ++ ['.'] ++ w := by simp
  have point : Reads "." s (v ++ ['.']) (w ++ n ++ left) [] := by
    rw [assoc]
    exact Reads.mark (m := ['.']) rfl (opensMark_point hw.isFiller name left) text hv
  have opened := (name.opens parted).opened (s := s.behind (v ++ ['.']) (w ++ (n ++ left))) rfl hw
  rw [behind, ← State.behind_behind _ (w ++ (n ++ left))] at part
  refine point.cons ?_
  rw [assoc]
  exact (Reads.glue opened).cons part.singleton

theorem reads_member (admits : Admits gap s) (name : IsName n) (hv : gap v) (hw : gap w) (parted : HeadIn separators left)
    (text : s.rest = v ++ '.' :: (w ++ (n ++ left))) :
    Reads memberStep.2.2 s (v ++ ['.'] ++ (w ++ n)) left [(identifier n).withRole .member] :=
  reads_pointed name (admits.allows v hv) (admits.allows w hw) parted text
    (.inRole (Reads.name (w := []) _ name parted rfl State.allows_nil (by simp)))

theorem runs_member (runs : Runs e) (n : List Char) : Runs (.member e n) := by
  intro gap s cs left h _ stands mem
  cases stands.spelled with
  | @member _ _ _ cs v w primary name spelled hv hw =>
    have text : s.rest = cs ++ (v ++ '.' :: (w ++ (n ++ left))) := by simpa using stands.text
    have admits := stands.admits
    have base : Stands gap e s cs (v ++ '.' :: (w ++ (n ++ left))) (.mark ['.']) :=
      ⟨spelled, admits, text, headIn_gap (admits.isFiller hv) (by decide),
        Opens.ready (opensMark_point (admits.isFiller hw) name left) rfl (admits.behind.allows v hv)⟩
    obtain ⟨first, t, ts, atom, bare, grows⟩ := runs primary base (by decide)
    obtain ⟨-, us, accepted, bareStep⟩ := reads_member admits.behind name hv hw stands.parted rfl
    rw [State.behind_behind] at accepted
    have whole : cs ++ (v ++ ['.'] ++ (w ++ n)) = cs ++ (v ++ '.' :: (w ++ n)) := by simp
    rw [whole] at accepted
    refine ⟨first, t, [.node .attribute none s.here [] (ts ++ us)], atom, ?_, fun us' u further => ?_⟩
    · rw [Tree.bares_node (by decide), Tree.bares_append, bare, bareStep]
      rfl
    · exact grows us' u (grows_step [] (by simp [RefuseAll]) accepted further)

end Footprint.Calls
