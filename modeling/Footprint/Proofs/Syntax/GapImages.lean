import Footprint.Proofs.Syntax.Mirror

/-!
# Gaps and their images

Two scans that have come to corresponding places with like progress go on alike. How far lines are indented may be
compared in any way that counts blanks on both sides.
-/

namespace Footprint.Syntax

/-- A way to compare indentations. -/
structure Comparison where
  holds : Nat → Nat → Prop
  zero : holds 0 0
  add {a b : Nat} (n : Nat) : holds a b → holds (a + n) (b + n)

def Comparison.equal : Comparison := ⟨Eq, rfl, fun _ same => by rw [same]⟩

def Comparison.atMost : Comparison := ⟨(· ≤ ·), Nat.le_refl 0, fun n le => Nat.add_le_add_right le n⟩

namespace Gap

variable {m : Mirror} {c : Comparison} {g g' : Progress} {p p' : Position}

/-- Scans that have met the same comments and joins so far, up to further joins, and indented alike. -/
structure Progress.Like (m : Mirror) (c : Comparison) (g g' : Progress) : Prop where
  extras : m.Forests g.extras g'.extras
  joins : m.Forests g.joins g'.joins
  stops : List.Forall₂ c.holds g.stops g'.stops
  indent : c.holds g.indent g'.indent
  broken : g'.broken = g.broken
  frozen : g'.frozen = g.frozen
  comment : Option.Rel m.Places g.comment g'.comment

/-- Gaps that hold the same comments and joins, up to further joins, and end at corresponding places. -/
structure Like (m : Mirror) (c : Comparison) (g g' : Gap) : Prop where
  extras : m.Forests g.extras g'.extras
  stops : List.Forall₂ c.holds g.stops g'.stops
  place : ∃ before before', m.cuts before g.rest before' g'.rest ∧ g.here = ({} : Position).afterAll before ∧
    g'.here = ({} : Position).afterAll before'

theorem filler_paired {k : Kind} (kind : k ≠ .string) (places : m.Places p p') :
    m.Forests [.node k none p [] []] [.node k none p' [] []] :=
  .singleton ⟨rfl, rfl, places, fun _ => rfl, fun string => absurd string kind, nofun⟩ .nil

namespace Progress.Like

theorem empty : ({} : Progress).Like m c {} := ⟨.nil, .nil, .nil, c.zero, rfl, rfl, .none⟩

theorem closed (h : g.Like m c g') : List.Forall₂ c.holds g.closed g'.closed := by
  rw [Progress.closed, Progress.closed, h.broken]
  split
  · exact List.rel_append h.stops (.cons h.indent .nil)
  · exact h.stops

theorem breakLine (h : g.Like m c g') : g.breakLine.Like m c g'.breakLine := by
  rw [Progress.breakLine, Progress.breakLine, h.frozen]
  split
  · exact h
  · exact ⟨h.extras, h.joins, h.stops, c.zero, rfl, rfl, h.comment⟩

theorem indentBy (h : g.Like m c g') (n : Nat) : (g.indentBy n).Like m c (g'.indentBy n) := by
  rw [Progress.indentBy, Progress.indentBy, h.frozen]
  split
  · exact h
  · exact ⟨h.extras, h.joins, h.stops, c.add n h.indent, h.broken, rfl, h.comment⟩

theorem unindent (h : g.Like m c g') : g.unindent.Like m c g'.unindent := by
  rw [Progress.unindent, Progress.unindent, h.frozen]
  split
  · exact h
  · exact ⟨h.extras, h.joins, h.stops, c.zero, h.broken, rfl, h.comment⟩

theorem freeze (h : g.Like m c g') : { g with frozen := true }.Like m c { g' with frozen := true } :=
  ⟨h.extras, h.joins, h.stops, h.indent, h.broken, rfl, h.comment⟩

theorem join (h : g.Like m c g') (places : m.Places p p') : (g.join p).Like m c (g'.join p') :=
  ⟨h.extras, h.joins.append (filler_paired (by decide) places), h.stops, h.indent, h.broken, h.frozen, h.comment⟩

theorem beginComment (h : g.Like m c g') (places : m.Places p p') : (g.beginComment p).Like m c (g'.beginComment p') :=
  ⟨h.extras.append h.joins, .nil, h.closed, c.zero, rfl, rfl, .some places⟩

theorem endComment (h : g.Like m c g') (places : m.Places p p') : (g.endComment p).Like m c (g'.endComment p') :=
  ⟨h.extras.append (filler_paired (by decide) places), .nil, h.stops, c.zero, rfl, rfl, .none⟩

theorem atMost (h : g.Like m .equal g') : g.Like m .atMost g' :=
  ⟨h.extras, h.joins, h.stops.imp fun _ _ same => Nat.le_of_eq same, Nat.le_of_eq h.indent, h.broken, h.frozen, h.comment⟩

theorem apply (h : g.Like m c g') (pass : Pass) (places : m.Places p p') : (pass.apply p g).Like m c (pass.apply p' g') := by
  cases pass with
  | breakLine => exact h.breakLine
  | indent n => exact h.indentBy n
  | unindent => exact h.unindent
  | freeze => exact h.freeze
  | comment => exact h.beginComment places
  | join => exact h.join places

variable {before behind before' behind' : List Char}

theorem finish (h : g.Like m c g') (cut : m.cuts before behind before' behind')
    (string : beginsString behind' = beginsString behind) :
    (g.finish behind (({} : Position).afterAll before)).Like m c (g'.finish behind' (({} : Position).afterAll before')) := by
  refine ⟨h.extras.append ?_, h.closed, before, before', cut, rfl, rfl⟩
  rw [string]
  split
  · exact .nil
  · exact h.joins

theorem finishText (h : g.Like m c g') (cut : m.cuts before [] before' []) :
    (g.finishText (({} : Position).afterAll before)).Like m c (g'.finishText (({} : Position).afterAll before')) := by
  have last {g g' : Progress} (h : g.Like m c g') :
      m.Forests (g.extras ++ g.joins) (g'.extras ++ g'.joins) ∧ List.Forall₂ c.holds (g.stops ++ [0]) (g'.stops ++ [0]) :=
    ⟨h.extras.append h.joins, List.rel_append h.stops (.cons c.zero .nil)⟩
  rw [Progress.finishText, Progress.finishText]
  have comment := h.comment
  generalize g.comment = x, g'.comment = y at comment
  cases comment with
  | none => exact ⟨(last h).1, (last h).2, before, before', cut, rfl, rfl⟩
  | some places =>
    have h := h.endComment places
    exact ⟨(last h).1, (last h).2, before, before', cut, rfl, rfl⟩

end Progress.Like

/-- Gaps behind which the text goes on alike, indented the same. -/
structure Alike (m : Mirror) (g g' : Gap) : Prop extends Like m .equal g g' where
  ends : g'.rest.isEmpty = g.rest.isEmpty
  quoted : g'.rest.head?.any isQuoteMark = g.rest.head?.any isQuoteMark

namespace Alike

variable {g g' : Gap}

theorem stops_eq (h : Alike m g g') : g'.stops = g.stops := (List.forall₂_eq_eq_eq ▸ h.stops : g.stops = g'.stops).symm

theorem isBroken_eq (h : Alike m g g') : g'.isBroken = g.isBroken := by rw [isBroken, isBroken, h.stops_eq]

theorem leaves_eq (h : Alike m g g') (n : Nat) : g'.leaves n = g.leaves n := by rw [leaves, leaves, h.stops_eq]

theorem breaksOut_eq_any (g : Gap) (n : Nat) :
    g.breaksOut n = (if g.rest.head?.any isQuoteMark then g.stops.dropLast else g.stops).any (· < n) := by
  rw [breaksOut]
  cases g.rest <;> rfl

theorem breaksOut_eq (h : Alike m g g') (n : Nat) : g'.breaksOut n = g.breaksOut n := by
  rw [breaksOut_eq_any, breaksOut_eq_any, h.quoted, h.stops_eq]

end Alike

end Gap

/-- Reads a token behind extras, where the gap before it has been passed. -/
def Token.readBehind? (t : Token) (p : List Tree × State) : Option (List Tree × State) :=
  (t.length? p.2.quotes p.2.rest).map fun n => (p.1, { p.2.advance n with quotes := t.track p.2.rest p.2.quotes })

theorem Token.read?_eq_bind (t : Token) (s : State) :
    t.read? s = (if t.isSpaced then s.lead? else some ([], s)).bind t.readBehind? := t.read?_eq s

namespace Mirror.States

variable {m : Mirror} {c : Comparison} {s u : State}

theorem suite_eq (h : m.States s u) : u.suite = s.suite := by rw [State.suite, State.suite, h.suites]

theorem past (h : m.States s u) (like : s.gap.Like m c u.gap) : m.States (s.past s.gap) (u.past u.gap) :=
  ⟨like.place, h.suites, h.quotes, h.region, h.marked⟩

/-- What a place in the layout is taken for is settled by its gap. -/
theorem layout (h : m.States s u) (alike : s.gap.Alike m u.gap) (l : Layout) :
    m.coupling.Answers (l.read? s) (l.read? u) := by
  have passed : m.coupling.Answers (some (s.gap.extras, s.past s.gap)) (some (u.gap.extras, u.past u.gap)) :=
    .read alike.extras (h.past alike.toLike)
  cases l <;> simp only [Layout.read?]
  case lead =>
    rw [State.lead?, State.lead?, h.region, h.suite_eq, alike.breaksOut_eq, alike.isBroken_eq]
    cases s.region
    all_goals
      dsimp only
      split
      · exact .none
      · exact passed
  case glue =>
    rw [State.glue?, State.glue?, h.suite_eq, alike.breaksOut_eq]
    split
    · exact .none
    · exact passed
  case line =>
    rw [State.line?, State.line?, h.suite_eq, alike.leaves_eq, alike.ends]
    split
    · exact .none
    · exact passed
  case newline =>
    rw [State.newline?, State.newline?, alike.isBroken_eq]
    split
    · exact .read .nil h
    · exact .none
  case indent =>
    rw [State.indent?, State.indent?, alike.stops_eq]
    split
    · rw [h.suite_eq, h.suites]
      split
      · exact .read .nil ⟨h.place, rfl, h.quotes, h.region, h.marked⟩
      · exact .none
    · exact .none
  case dedent =>
    rw [State.dedent?, State.dedent?, h.suite_eq, alike.leaves_eq, h.suites]
    split
    · exact .read .nil ⟨h.place, rfl, h.quotes, h.region, h.marked⟩
    · exact .none
  case finish =>
    rw [State.finish?, State.finish?, alike.ends]
    split
    · exact passed
    · exact .none

theorem token_of_lead {t : Token} (lead : m.coupling.Answers s.lead? u.lead?)
    (behind : ∀ ts us, m.Forests ts us → m.States (s.past s.gap) (u.past u.gap) →
      m.coupling.Answers (t.readBehind? (ts, s.past s.gap)) (t.readBehind? (us, u.past u.gap))) :
    m.coupling.Answers (s.lead?.bind t.readBehind?) (u.lead?.bind t.readBehind?) := by
  cases read : s.lead? with
  | none =>
    rw [read] at lead
    generalize u.lead? = y at lead
    cases lead
    exact .none
  | some p =>
    obtain ⟨ts, s'⟩ := p
    cases read' : u.lead? with
    | none =>
      rw [read, read'] at lead
      cases lead
    | some q =>
      obtain ⟨us, u'⟩ := q
      obtain ⟨-, rfl⟩ := State.eq_past_of_lead read
      obtain ⟨-, rfl⟩ := State.eq_past_of_lead read'
      rw [read, read'] at lead
      cases lead with
      | read forests states => exact behind ts us forests states

end Mirror.States

end Footprint.Syntax
