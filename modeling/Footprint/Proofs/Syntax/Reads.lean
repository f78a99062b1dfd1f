import Footprint.Proofs.Syntax.Bare
import Footprint.Proofs.Syntax.Forecast
import Footprint.Proofs.Syntax.Lexemes

/-!
# Reading a text by the grammar

A rule reads a text, gaps included, up to what is left of it. The forest is told without its remarks, so
that what may stand in a gap does not show in it.
-/

namespace Footprint.Syntax

/-- A rule reads this text before what is left, as these trees. -/
structure Reads (r : Rule Phrase) (s : State) (read left : List Char) (us : List Tree) : Prop where
  text : s.rest = read ++ left
  accepts : ∃ ts, Accepts grammar r s ts (s.behind read left) ∧ Tree.bares ts = us

/-- A gap that may stand here, and the token behind it. -/
structure Opened (s : State) (w cs : List Char) : Prop where
  text : s.rest = w ++ cs
  gap : s.Allows w
  token : BeginsToken cs

variable {r : Rule Phrase} {rs : List (Rule Phrase)} {s t : State} {read read' left w text : List Char}
  {us vs ts : List Tree} {k : Kind} {h : Head}

namespace State

theorem spelling_behind (h : s.rest = read ++ left) : s.spelling (s.behind read left) = read := by
  simp [spelling, h]

theorem advance_eq_behind (h : s.rest = read ++ left) : s.advance read.length = s.behind read left := by
  simp [advance, behind, h]

end State

theorem Opened.behind (h : Opened s w text) : Opened (s.behind w text) [] text := ⟨rfl, State.allows_nil, h.token⟩

theorem Opened.lead (h : Opened s w text) :
    ∃ extras, Tree.bares extras = [] ∧ s.lead? = some (extras, s.behind w text) ∧
      s.glue? = some (extras, s.behind w text) := by
  obtain ⟨extras, remarks, lead, glue⟩ := State.lead_of_allows h.gap h.token h.text
  exact ⟨extras, Tree.bares_of_remarks remarks, lead, glue⟩

theorem Opened.lead_behind (h : Opened s w text) : (s.behind w text).lead? = some ([], s.behind w text) :=
  (State.lead_of_token h.token).1

theorem Opened.refuses {t : Token} (h : Opened s w text) (spaced : t.isSpaced = true)
    (none : t.length? s.quotes text = .none) : Refuses grammar (.token t) s := by
  obtain ⟨extras, -, lead, -⟩ := h.lead
  refine refuses_token ?_
  rw [Token.read?_eq, if_pos spaced, lead, Option.bind_some, State.quotes_behind, State.rest_behind, none]
  rfl

theorem Opened.refuses_word {n : List Char} (is : r = .token (.keyword n)) (h : Opened s w text)
    (none : (Token.keyword n).length? s.quotes text = .none) : Refuses grammar r s := is ▸ h.refuses rfl none

theorem Opens.opened (opens : Opens h text) (rest : s.rest = w ++ text) (gap : s.Allows w) : Opened s w text :=
  ⟨rest, gap, opens.beginsToken⟩

theorem Opens.ready (opens : Opens h text) (rest : s.rest = w ++ text) (gap : s.Allows w) : Ready h s :=
  .token w text rest gap opens

namespace Reads

theorem cast (h : Reads r s read left us) (same : read = read') : Reads r s read' left us := same ▸ h

theorem nil (text : s.rest = left) : Reads (.each []) s [] left [] :=
  ⟨text, [], (State.behind_nil text).symm ▸ accepts_nil, rfl⟩

theorem cons (head : Reads r s read (read' ++ left) us) (tail : Reads (.each rs) (s.behind read (read' ++ left)) read' left vs) :
    Reads (.each (r :: rs)) s (read ++ read') left (us ++ vs) := by
  obtain ⟨text, ts, first, rfl⟩ := head
  obtain ⟨-, ts', later, rfl⟩ := tail
  refine ⟨by rw [text, List.append_assoc], ts ++ ts', ?_, Tree.bares_append ts ts'⟩
  rw [State.behind_behind] at later
  exact accepts_cons first later

theorem cons_of_eq {mid : List Char} (head : Reads r s read mid us) (same : mid = read' ++ left)
    (tail : Reads (.each rs) (s.behind read mid) read' left vs) :
    Reads (.each (r :: rs)) s (read ++ read') left (us ++ vs) := by
  subst same
  exact head.cons tail

theorem singleton (h : Reads r s read left us) : Reads (.each [r]) s read left us := by
  obtain ⟨text, ts, h, rfl⟩ := h
  exact ⟨text, ts, accepts_singleton h, rfl⟩

theorem pass (head : Accepts grammar r s [] s) (tail : Reads (.each rs) s read left us) :
    Reads (.each (r :: rs)) s read left us := by
  obtain ⟨text, ts, later, rfl⟩ := tail
  exact ⟨text, ts, accepts_cons head later, rfl⟩

theorem first (h : Reads r s read left us) : Reads (.first (r :: rs)) s read left us := by
  obtain ⟨text, ts, h, rfl⟩ := h
  exact ⟨text, ts, accepts_first h, rfl⟩

theorem later (head : Refuses grammar r s) (tail : Reads (.first rs) s read left us) :
    Reads (.first (r :: rs)) s read left us := by
  obtain ⟨text, ts, tail, rfl⟩ := tail
  exact ⟨text, ts, accepts_later head tail, rfl⟩

theorem phrase {n : Phrase} (h : Reads (grammar n) s read left us) : Reads (.phrase n) s read left us := by
  obtain ⟨text, ts, h, rfl⟩ := h
  exact ⟨text, ts, accepts_phrase h, rfl⟩

theorem within {g : Region} (h : Reads r { s with region := g } read left us) :
    Reads (.within g r) s read left us := by
  obtain ⟨text, ts, h, rfl⟩ := h
  exact ⟨text, ts, accepts_within h, rfl⟩

theorem inRole {ro : Role} (h : Reads r s read left us) : Reads (.inRole ro r) s read left (Tree.assign ro us) := by
  obtain ⟨text, ts, h, rfl⟩ := h
  exact ⟨text, _, accepts_inRole h, Tree.bares_assign ro ts⟩

theorem only {ks : List Kind} (h : Reads r s read left us) (kind : (Tree.soleKind? us).any ks.contains = true) :
    Reads (.only ks r) s read left us := by
  obtain ⟨text, ts, h, rfl⟩ := h
  rw [Tree.soleKind?_bares] at kind
  exact ⟨text, ts, accepts_only h kind, rfl⟩

theorem refuses_only {ks : List Kind} (h : Reads r s read left us)
    (kind : (Tree.soleKind? us).any ks.contains = false) : Refuses grammar (.only ks r) s := by
  obtain ⟨text, ts, h, rfl⟩ := h
  rw [Tree.soleKind?_bares] at kind
  exact refuses_only_kind h kind

theorem many_end (text : s.rest = left) (h : Refuses grammar r s) : Reads (.many r) s [] left [] :=
  ⟨text, [], (State.behind_nil text).symm ▸ accepts_many_end h, rfl⟩

theorem many_cons (head : Reads r s read (read' ++ left) us)
    (tail : Reads (.many r) (s.behind read (read' ++ left)) read' left vs) :
    Reads (.many r) s (read ++ read') left (us ++ vs) := by
  obtain ⟨text, ts, first, rfl⟩ := head
  obtain ⟨-, ts', later, rfl⟩ := tail
  refine ⟨by rw [text, List.append_assoc], ts ++ ts', ?_, Tree.bares_append ts ts'⟩
  rw [State.behind_behind] at later
  exact accepts_many_cons first later

theorem skip (text : s.rest = left) (h : Refuses grammar r s) : Reads (Rule.opt r) s [] left [] :=
  later h (first (nil text))

theorem opt (h : Reads r s read left us) : Reads (Rule.opt r) s read left us := h.first

theorem node (opened : Opened s w (read ++ left)) (noComment : k ≠ .comment)
    (h : Reads r (s.behind w (read ++ left)) read left us) :
    Reads (.node k r) s (w ++ read) left [.node k none {} (if k.isSpelled then read else []) us] := by
  obtain ⟨text, ts, h, rfl⟩ := h
  obtain ⟨extras, none, lead, -⟩ := opened.lead
  have accepted := accepts_node (k := k) lead h
  rw [State.spelling_behind text, State.behind_behind] at accepted
  refine ⟨by rw [opened.text, List.append_assoc], _, accepted, ?_⟩
  rw [Tree.bares_append, none, List.nil_append, Tree.bares_node noComment]

theorem chain {steps : List (Kind × Option Role × Rule Phrase)} (opened : Opened s w (read ++ left))
    (h : Reads r (s.behind w (read ++ left)) read left us)
    (refused : RefuseAll grammar (s.behind (w ++ read) left) (steps.map (·.2.2))) :
    Reads (.chain r steps) s (w ++ read) left us := by
  obtain ⟨text, ts, h, rfl⟩ := h
  obtain ⟨extras, none, lead, -⟩ := opened.lead
  rw [State.behind_behind] at h
  refine ⟨by rw [opened.text, List.append_assoc], _, accepts_chain lead h (grows_end refused), ?_⟩
  rw [Tree.bares_append, none, List.nil_append]

theorem chain_token {steps : List (Kind × Option Role × Rule Phrase)} (token : BeginsToken (read ++ left))
    (h : Reads r s read left us) (refused : RefuseAll grammar (s.behind read left) (steps.map (·.2.2))) :
    Reads (.chain r steps) s read left us := by
  have same := State.behind_nil h.text
  exact chain (w := []) ⟨h.text, State.allows_nil, token⟩ (by rwa [same]) refused

theorem chain_behind {steps : List (Kind × Option Role × Rule Phrase)} (opened : Opened s w (read ++ left))
    (h : Reads (.chain r steps) (s.behind w (read ++ left)) read left us) :
    Reads (.chain r steps) s (w ++ read) left us := by
  obtain ⟨text, ts, h, rfl⟩ := h
  obtain ⟨extras, none, lead, -⟩ := opened.lead
  rw [State.behind_behind] at h
  refine ⟨by rw [opened.text, List.append_assoc], _, accepts_chain_behind lead opened.lead_behind h, ?_⟩
  rw [Tree.bares_append, none, List.nil_append]

theorem choose {front : Rule Phrase} (before : List (Kind × Rule Phrase)) {after : List (Kind × Rule Phrase)}
    (opened : Opened s w (read ++ (read' ++ left))) (noComment : k ≠ .comment) (notSpelled : k.isSpelled = false)
    (head : Reads front (s.behind w (read ++ (read' ++ left))) read (read' ++ left) us)
    (refused : RefuseAll grammar (s.behind (w ++ read) (read' ++ left)) (before.map (·.2)))
    (tail : Reads r (s.behind (w ++ read) (read' ++ left)) read' left vs) :
    Reads (.choose front (before ++ (k, r) :: after)) s (w ++ (read ++ read')) left
      [.node k none {} [] (us ++ vs)] := by
  obtain ⟨text, ts, head, rfl⟩ := head
  obtain ⟨-, ts', tail, rfl⟩ := tail
  obtain ⟨extras, none, lead, -⟩ := opened.lead
  rw [State.behind_behind] at head tail
  rw [List.append_assoc] at tail
  refine ⟨by simp [opened.text], _, accepts_choose lead head refused tail, ?_⟩
  rw [Tree.bares_append, none, List.nil_append, Tree.bares_node noComment, notSpelled, Tree.bares_append]
  rfl

theorem choose_token {front : Rule Phrase} (before : List (Kind × Rule Phrase)) {after : List (Kind × Rule Phrase)}
    (token : BeginsToken s.rest) (noComment : k ≠ .comment) (notSpelled : k.isSpelled = false)
    (head : Reads front s read (read' ++ left) us)
    (refused : RefuseAll grammar (s.behind read (read' ++ left)) (before.map (·.2)))
    (tail : Reads r (s.behind read (read' ++ left)) read' left vs) :
    Reads (.choose front (before ++ (k, r) :: after)) s (read ++ read') left [.node k none {} [] (us ++ vs)] := by
  have same := State.behind_nil head.text
  rw [head.text] at token
  exact choose (w := []) before ⟨head.text, State.allows_nil, token⟩ noComment notSpelled (by rwa [same]) refused tail

theorem node_token (token : BeginsToken s.rest) (noComment : k ≠ .comment) (h : Reads r s read left us) :
    Reads (.node k r) s read left [.node k none {} (if k.isSpelled then read else []) us] := by
  have same := State.behind_nil h.text
  rw [h.text] at token
  exact node (w := []) ⟨h.text, State.allows_nil, token⟩ noComment (by rwa [same])

/-- A node at its first token is one tree, which begins there. -/
theorem accepts_node (token : BeginsToken s.rest) (h : Reads r s read left us) :
    ∃ t, Accepts grammar (.node k r) s [t] (s.behind read left) ∧ t.start = s.here ∧
      t.bare = .node k none {} (if k.isSpelled then read else []) us := by
  obtain ⟨text, ts, h, rfl⟩ := h
  have accepted := Syntax.accepts_node (k := k) (State.lead_of_token token).1 h
  rw [State.spelling_behind text, List.nil_append] at accepted
  exact ⟨_, accepted, rfl, rfl⟩

/-! ### Tokens -/

theorem token {t : Token} (opened : Opened s w (read ++ left)) (spaced : t.isSpaced = true)
    (length : t.length? s.quotes (read ++ left) = some read.length) (untracked : ∀ cs qs, t.track cs qs = qs) :
    Reads (.token t) s (w ++ read) left [] := by
  obtain ⟨extras, none, lead, -⟩ := opened.lead
  refine ⟨by rw [opened.text, List.append_assoc], extras, accepts_token ?_, none⟩
  rw [Token.read?_eq, if_pos spaced, lead]
  simp only [Option.bind_some, State.quotes_behind, State.rest_behind, length, Option.map_some, untracked]
  rw [State.advance_eq_behind State.rest_behind, State.behind_behind]
  rfl

theorem mark {m : List Char} (is : r = .token (.mark m)) (opens : OpensMark m (m ++ left))
    (text : s.rest = w ++ (m ++ left)) (gap : s.Allows w) : Reads r s (w ++ m) left [] := by
  subst is
  exact token (Opens.opened (h := .mark m) opens text gap) rfl opens.length_eq fun _ _ => rfl

theorem keyword {n : List Char} (is : r = .token (.keyword n))
    (start : ∃ c v, n = c :: v ∧ Text.isIdentifierStart c = true) (rest : ∀ c ∈ n, Text.isIdentifierRest c = true)
    (parted : HeadIn separators left) (text : s.rest = w ++ (n ++ left)) (gap : s.Allows w) :
    Reads r s (w ++ n) left [] := by
  subst is
  obtain ⟨length, opens⟩ : (Token.keyword n).length? s.quotes (n ++ left) = some n.length ∧ _ :=
    keyword_wordAt start rest parted
  exact token (opens.opened text gap) rfl length fun _ _ => rfl

theorem word (except : List String) {n : List Char} (name : IsName n) (opened : Opened s w (n ++ left))
    (ends : ∀ c ∈ left.head?, Text.isIdentifierRest c = false)
    (sub : ∀ w ∈ except.map String.toList, w ∈ reservedWords) :
    Reads (Rule.name except) s (w ++ n) left [.node .identifier none {} n []] :=
  node opened (by decide) (token opened.behind rfl (name.length_eq ends sub) fun _ _ => rfl)

theorem name (except : List String) {n : List Char} (name : IsName n) (parted : HeadIn separators left)
    (text : s.rest = w ++ (n ++ left)) (gap : s.Allows w)
    (sub : ∀ w ∈ except.map String.toList, w ∈ reservedWords) :
    Reads (Rule.name except) s (w ++ n) left [.node .identifier none {} n []] :=
  word except name ((name.opens parted).opened text gap) parted.endsWord sub

theorem glue (opened : Opened s w left) : Reads (.layout .glue) s w left [] := by
  obtain ⟨extras, none, -, glue⟩ := opened.lead
  exact ⟨opened.text, extras, accepts_layout glue, none⟩

end Reads

end Footprint.Syntax
