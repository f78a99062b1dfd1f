import Footprint.Proofs.Syntax.Consumption
import Footprint.Proofs.Syntax.Gaps

/-!
# Positions

Wherever a reading has come to, its position is that of the end of what it has read: nothing is counted
twice, and nothing is left out.
-/

namespace Footprint.Syntax

/-- A position is that of a place in a text that begins at another. -/
def Position.IsIn (origin : Position) (source : List Char) (p : Position) : Prop :=
  ∃ before behind, source = before ++ behind ∧ p = origin.afterAll before

/-- A comment or line join, as a gap of the text holds it. -/
def Tree.IsFillerOf (origin : Position) (source : List Char) (t : Tree) : Prop :=
  ∃ k p, (k = .comment ∨ k = .lineJoin) ∧ origin.IsIn source p ∧ t = .node k none p [] []

namespace Gap

variable {origin : Position} {source : List Char} {g : Progress}

/-- All that a scan has collected stands in the text. -/
structure Progress.IsOf (origin : Position) (source : List Char) (g : Progress) : Prop where
  extras : ∀ t ∈ g.extras, t.IsFillerOf origin source
  joins : ∀ t ∈ g.joins, t.IsFillerOf origin source
  comment : ∀ p ∈ g.comment, origin.IsIn source p

namespace Progress.IsOf

theorem empty : ({} : Progress).IsOf origin source := ⟨by simp, by simp, by simp⟩

theorem breakLine (h : g.IsOf origin source) : g.breakLine.IsOf origin source := by
  rw [Progress.breakLine]
  split
  · exact h
  · exact ⟨h.extras, h.joins, h.comment⟩

theorem indentBy (h : g.IsOf origin source) (n : Nat) : (g.indentBy n).IsOf origin source := by
  rw [Progress.indentBy]
  split
  · exact h
  · exact ⟨h.extras, h.joins, h.comment⟩

theorem unindent (h : g.IsOf origin source) : g.unindent.IsOf origin source := by
  rw [Progress.unindent]
  split
  · exact h
  · exact ⟨h.extras, h.joins, h.comment⟩

theorem freeze (h : g.IsOf origin source) : { g with frozen := true }.IsOf origin source := ⟨h.extras, h.joins, h.comment⟩

variable {p : Position}

theorem join (h : g.IsOf origin source) (place : origin.IsIn source p) : (g.join p).IsOf origin source := by
  refine ⟨h.extras, fun t mem => ?_, h.comment⟩
  rcases List.mem_append.mp mem with old | new
  · exact h.joins t old
  · exact ⟨.lineJoin, p, .inr rfl, place, List.mem_singleton.mp new⟩

theorem beginComment (h : g.IsOf origin source) (place : origin.IsIn source p) : (g.beginComment p).IsOf origin source := by
  refine ⟨fun t mem => ?_, by simp [Progress.beginComment], ?_⟩
  · rcases List.mem_append.mp mem with old | new
    · exact h.extras t old
    · exact h.joins t new
  · rintro q ⟨⟩
    exact place

theorem endComment (h : g.IsOf origin source) (place : origin.IsIn source p) : (g.endComment p).IsOf origin source := by
  refine ⟨fun t mem => ?_, by simp [Progress.endComment], by simp [Progress.endComment]⟩
  rcases List.mem_append.mp mem with old | new
  · exact h.extras t old
  · exact ⟨.comment, p, .inl rfl, place, List.mem_singleton.mp new⟩

theorem apply (h : g.IsOf origin source) (pass : Pass) (place : origin.IsIn source p) :
    (pass.apply p g).IsOf origin source := by
  cases pass with
  | breakLine => exact h.breakLine
  | indent n => exact h.indentBy n
  | unindent => exact h.unindent
  | freeze => exact h.freeze
  | comment => exact h.beginComment place
  | join => exact h.join place

theorem finish (h : g.IsOf origin source) (rest : List Char) (here : Position) :
    ∀ t ∈ (g.finish rest here).extras, t.IsFillerOf origin source := by
  intro t mem
  rcases List.mem_append.mp mem with old | new
  · exact h.extras t old
  · split at new
    · cases new
    · exact h.joins t new

theorem finishText (h : g.IsOf origin source) (here : Position) :
    ∀ t ∈ (g.finishText here).extras, t.IsFillerOf origin source := by
  have closed : ∀ g' : Progress, g'.IsOf origin source → ∀ t ∈ g'.extras ++ g'.joins, t.IsFillerOf origin source := by
    intro g' h' t mem
    rcases List.mem_append.mp mem with old | new
    · exact h'.extras t old
    · exact h'.joins t new
  rw [Progress.finishText]
  split
  · rename_i q open_
    exact closed _ (h.endComment (h.comment q open_))
  · exact closed _ h

end Progress.IsOf

/-- A scan stops somewhere in the text, and collects what stands before that place. -/
structure IsOf (origin : Position) (source : List Char) (g : Gap) : Prop where
  place : ∃ before, source = before ++ g.rest ∧ g.here = origin.afterAll before
  extras : ∀ t ∈ g.extras, t.IsFillerOf origin source

/-- The induction is on how long the text is, since a scan passes two or three characters where lines are joined. -/
theorem isOf_scanFrom (h : g.IsOf origin source) {before cs : List Char} (split : source = before ++ cs) :
    (scanFrom g (origin.afterAll before) cs).IsOf origin source := by
  induction bound : cs.length using Nat.strongRecOn generalizing g before cs with
  | ind n ih =>
    have further {g' : Progress} (passed ds : List Char) (h' : g'.IsOf origin source) (some : passed ≠ [])
        (same : cs = passed ++ ds) : (scanFrom g' ((origin.afterAll before).afterAll passed) ds).IsOf origin source := by
      rw [← Position.afterAll_append]
      refine ih ds.length ?_ h' (by rw [split, same, List.append_assoc]) rfl
      have := List.length_pos_iff.mpr some
      rw [← bound, same, List.length_append]
      omega
    have here : origin.IsIn source (origin.afterAll before) := ⟨before, cs, split, rfl⟩
    cases cs with
    | nil => exact ⟨⟨before, split, rfl⟩, h.finishText _⟩
    | cons c cs =>
      cases open_ : g.comment with
      | some p =>
        rw [scanFrom_inside open_]
        split
        · exact further [c] cs (h.endComment (h.comment p open_)).breakLine (by simp) rfl
        split
        · exact ⟨⟨before, split, rfl⟩, (h.endComment (h.comment p open_)).finish _ _⟩
        · exact further [c] cs h (by simp) rfl
      | none =>
        rw [scanFrom_next open_ (List.cons_ne_nil c cs)]
        split
        · rename_i pass m next
          obtain ⟨some, le⟩ := length_of_next next
          refine further _ _ (h.apply pass here) (fun none => ?_) (List.take_append_drop m _).symm
          have length := congrArg List.length none
          rw [List.length_take, Nat.min_eq_left le, List.length_nil] at length
          omega
        · exact ⟨⟨before, split, rfl⟩, h.finish _ _⟩

theorem isOf_scan {before cs : List Char} (split : source = before ++ cs) : (scan cs (origin.afterAll before)).IsOf origin source :=
  isOf_scanFrom .empty split

theorem isExtra_of_mem_scan {cs : List Char} {here : Position} {t : Tree} (mem : t ∈ (scan cs here).extras) :
    t.IsExtra := by
  have scanned : (scan cs (here.afterAll [])).IsOf here cs := isOf_scan rfl
  obtain ⟨k, p, kind, -, rfl⟩ := scanned.extras t mem
  exact kind

/-- Text that no gap comes before. -/
def Ends (cs : List Char) : Prop := ∀ p, (scan cs p).rest = cs ∧ (scan cs p).here = p ∧ (scan cs p).extras = []

theorem ends_of_finish {cs : List Char} (stops : ∀ p, scanFrom {} p cs = Progress.finish {} cs p) : Ends cs := by
  intro p
  rw [scan, stops]
  exact ⟨rfl, rfl, by simp [Progress.finish]⟩

theorem ends_scanFrom (g : Progress) (here : Position) (cs : List Char) : Ends (scanFrom g here cs).rest := by
  induction bound : cs.length using Nat.strongRecOn generalizing g here cs with
  | ind n ih =>
    have further (g' : Progress) (there : Position) (ds : List Char) (h : ds.length < n) :
        Ends (scanFrom g' there ds).rest := ih _ h g' there ds rfl
    subst bound
    cases cs with
    | nil => exact fun p => ⟨rfl, rfl, rfl⟩
    | cons c cs =>
      cases open_ : g.comment with
      | some q =>
        rw [scanFrom_inside open_]
        split
        · exact further _ _ _ (Nat.lt_succ_self _)
        split
        · rename_i null
          subst null
          exact ends_of_finish fun p => scanFrom_solid rfl (by decide)
        · exact further _ _ _ (Nat.lt_succ_self _)
      | none =>
        rw [scanFrom_next open_ (List.cons_ne_nil c cs)]
        split
        · rename_i next
          refine further _ _ _ ?_
          rw [List.length_drop]
          have := (length_of_next next).1
          simp only [List.length_cons]
          omega
        · rename_i stops
          show Ends (c :: cs)
          refine ends_of_finish fun p => ?_
          rw [scanFrom_next (g := {}) rfl (List.cons_ne_nil c cs), stops]

theorem next?_of_ends {cs : List Char} (ends : Ends cs) : next? cs = none := by
  cases next : next? cs with
  | none => rfl
  | some p =>
    obtain ⟨pass, k⟩ := p
    have reach := length_of_next next
    have more : cs ≠ [] := by
      rintro rfl
      cases next
    have rest := (ends {}).1
    rw [scan, scanFrom_next rfl more, next] at rest
    have shorter := length_rest_scanFrom (pass.apply {} {}) (({} : Position).afterAll (cs.take k)) (cs.drop k)
    rw [rest, List.length_drop] at shorter
    omega

end Gap

section Behind

variable {s s' : State} {ts : List Tree}

theorem State.ends_of_lead (read : s.lead? = some (ts, s')) : Gap.Ends s'.rest := by
  obtain ⟨-, rfl⟩ := State.eq_past_of_lead read
  exact Gap.ends_scanFrom {} s.here s.rest

theorem State.past_gap_of_ends (ends : Gap.Ends s.rest) : s.past s.gap = s := by
  obtain ⟨rest, here, -⟩ := ends s.here
  rw [State.past, State.gap, rest, here]

theorem Token.read_of_ends {t : Token} (ends : Gap.Ends s.rest) (read : t.read? s = some (ts, s')) :
    ∃ n, t.length? s.quotes s.rest = some n ∧ s' = { s.advance n with quotes := t.track s.rest s.quotes } := by
  rw [Token.read?_eq] at read
  obtain ⟨⟨extras, s₁⟩, lead, read⟩ := Option.bind_eq_some_iff.mp read
  obtain ⟨n, length, read⟩ := Option.map_eq_some_iff.mp read
  obtain ⟨-, rfl⟩ := Prod.mk.inj read
  have same : s₁ = s := by
    split at lead
    · obtain ⟨-, rfl⟩ := State.eq_past_of_lead lead
      exact State.past_gap_of_ends ends
    · exact (Prod.mk.inj (Option.some.inj lead)).2.symm
  subst same
  exact ⟨n, length, rfl⟩

theorem State.spelling_advance (s : State) (n : Nat) (quotes : List Quote) :
    s.spelling { s.advance n with quotes } = s.rest.take n := by
  have offset : ({ s.advance n with quotes } : State).here.offset = s.here.offset + (s.rest.take n).length :=
    Position.offset_afterAll _ _
  rw [State.spelling, offset, Nat.add_sub_cancel_left, List.length_take, ← List.take_eq_take_min]

end Behind

def State.IsMarked (s : State) : Prop := ∀ q ∈ s.quotes, isQuoteMark q.mark = true

theorem Quote.isQuoteMark_of_opening {cs : List Char} {q : Quote} {n : Nat} (h : Quote.opening? cs = some (q, n)) :
    isQuoteMark q.mark = true := by
  simp only [Quote.opening?] at h
  split at h
  · cases h
  · obtain ⟨isMark, same⟩ := Option.ite_none_right_eq_some.mp h
    obtain ⟨rfl, -⟩ := Prod.mk.inj (Option.some.inj same)
    exact isMark

theorem Token.isMarked_track {t : Token} {cs : List Char} {quotes : List Quote}
    (h : ∀ q ∈ quotes, isQuoteMark q.mark = true) : ∀ q ∈ t.track cs quotes, isQuoteMark q.mark = true := by
  cases t <;> simp only [Token.track]
  case openFormatted =>
    split
    · rename_i opened
      exact List.forall_mem_cons.mpr ⟨Quote.isQuoteMark_of_opening opened, h⟩
    · exact h
  case closeFormatted => exact fun q mem => h q (List.mem_of_mem_tail mem)
  all_goals exact h

structure State.StandsIn (source : List Char) (s : State) : Prop where
  place : ∃ before, source = before ++ s.rest ∧ s.here = ({} : Position).afterAll before
  marked : s.IsMarked

namespace State.StandsIn

variable {source : List Char} {s s' : State} {ts : List Tree}

theorem gap (h : s.StandsIn source) : s.gap.IsOf {} source := by
  obtain ⟨before, split, here⟩ := h.place
  rw [State.gap, here]
  exact Gap.isOf_scan split

theorem past (h : s.StandsIn source) : (s.past s.gap).StandsIn source := ⟨h.gap.place, h.marked⟩

theorem advance (h : s.StandsIn source) (n : Nat) {quotes : List Quote} (marked : ∀ q ∈ quotes, isQuoteMark q.mark = true) :
    { s.advance n with quotes }.StandsIn source := by
  obtain ⟨before, split, here⟩ := h.place
  refine ⟨⟨before ++ s.rest.take n, ?_, ?_⟩, marked⟩
  · rw [List.append_assoc]
    exact split.trans (congrArg (before ++ ·) (List.take_append_drop n s.rest).symm)
  · rw [Position.afterAll_append, ← here]
    rfl

theorem lead (h : s.StandsIn source) (read : s.lead? = some (ts, s')) :
    s'.StandsIn source ∧ ∀ t ∈ ts, t.IsFillerOf {} source := by
  obtain ⟨rfl, rfl⟩ := State.eq_past_of_lead read
  exact ⟨h.past, h.gap.extras⟩

theorem layout {l : Layout} (h : s.StandsIn source) (read : l.read? s = some (ts, s')) :
    s'.StandsIn source ∧ ∀ t ∈ ts, t.IsFillerOf {} source := by
  cases l <;> simp only [Layout.read?] at read
  case lead => exact h.lead read
  case newline | indent | dedent =>
    simp only [State.newline?, State.indent?, State.dedent?] at read
    repeat' split at read
    all_goals
      first
      | cases read; done
      | obtain ⟨rfl, rfl⟩ := Prod.mk.inj (Option.some.inj read); exact ⟨⟨h.place, h.marked⟩, by simp⟩
  case glue | line | finish =>
    simp only [State.glue?, State.line?, State.finish?] at read
    split at read
    all_goals
      first
      | cases read; done
      | obtain ⟨rfl, rfl⟩ := Prod.mk.inj (Option.some.inj read); exact ⟨h.past, h.gap.extras⟩

theorem token {t : Token} (h : s.StandsIn source) (read : t.read? s = some (ts, s')) :
    s'.StandsIn source ∧ ∀ t ∈ ts, t.IsFillerOf {} source := by
  rw [Token.read?_eq] at read
  obtain ⟨⟨extras, s₁⟩, lead, read⟩ := Option.bind_eq_some_iff.mp read
  obtain ⟨n, -, read⟩ := Option.map_eq_some_iff.mp read
  obtain ⟨rfl, rfl⟩ := Prod.mk.inj read
  split at lead
  · have passed := (h.lead lead).1
    exact ⟨passed.advance n (Token.isMarked_track passed.marked), (h.lead lead).2⟩
  · obtain ⟨rfl, rfl⟩ := Prod.mk.inj (Option.some.inj lead)
    exact ⟨h.advance n (Token.isMarked_track h.marked), by simp⟩

end State.StandsIn

end Footprint.Syntax
