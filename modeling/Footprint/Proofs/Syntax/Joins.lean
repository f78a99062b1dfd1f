import Footprint.Proofs.Syntax.JoinedGaps
import Footprint.Proofs.Syntax.SettledBodies

/-!
# Reading with a further line join

A text with a line join between two of its tokens is read like the text itself, as long as all that is asked in the
reading is answered alike: no token reaches across the join, and no layout depends on how far its line is indented.
-/

namespace Footprint.Syntax

open Text StringLiteral

variable {a post w x : List Char}

/-! ### Where a join may stand -/

/-- Whether a token reaches as far with the join as without it, and not across. -/
def Token.bearsJoin (k : Nat) (quotes : List Quote) (cs : List Char) (t : Token) : Bool :=
  t.length? quotes (withJoin k cs) == t.length? quotes cs && (t.length? quotes cs).all (· + k ≤ cs.length)

def State.bearsJoin (k : Nat) (s : State) : Bool :=
  if k < s.gap.rest.length then beginsString (withJoin k s.gap.rest) == beginsString s.gap.rest
  else Gap.covers (s.rest.take (s.rest.length - k)) s.here

def State.joinedGap (k : Nat) (s : State) : Gap := Gap.scan (withJoin k s.rest) s.here

/-- Whether a place in the layout is taken for the same with another gap up to the same token. -/
def Layout.bearsJoin (s : State) (g : Gap) : Layout → Bool
  | .lead => s.region != .header || g.breaksOut s.suite == s.gap.breaksOut s.suite
  | .glue => g.breaksOut s.suite == s.gap.breaksOut s.suite
  | .newline | .finish => true
  | .line | .dedent => g.leaves s.suite == s.gap.leaves s.suite
  | .indent => g.stops.getLast? == s.gap.stops.getLast?

/-- Whether an answer is the same with a line join so many characters before the end of the text. -/
def Question.bearsJoin (k : Nat) (s : State) : Question → Bool
  | .token t =>
    decide (s.rest.length < k) ||
      if t.isSpaced then
        s.bearsJoin k &&
          if k < s.gap.rest.length then t.bearsJoin k s.quotes s.gap.rest
          else Layout.lead.bearsJoin s (s.joinedGap k) || (t.length? s.quotes s.gap.rest).isNone
      else t.bearsJoin k s.quotes s.rest
  | .layout l => decide (s.rest.length < k) || s.bearsJoin k && (decide (k < s.gap.rest.length) || l.bearsJoin s (s.joinedGap k))

namespace Gap

variable {m : Mirror} {g g' : Gap}

theorem isBroken_of_atMost (h : g.Like m .atMost g') : g'.isBroken = g.isBroken := by
  rw [isBroken, isBroken]
  have stops := h.stops
  generalize g.stops = l, g'.stops = l' at stops
  cases stops <;> rfl

end Gap

namespace Mirror.States

variable {m : Mirror} {s s' u u' : State} {n : Nat}

theorem layout_atMost (h : m.States s u) (like : s.gap.Like m .atMost u.gap) (rest : u.gap.rest = s.gap.rest) {l : Layout}
    (bears : l.bearsJoin s u.gap = true) : m.coupling.Answers (l.read? s) (l.read? u) := by
  have passed : m.coupling.Answers (some (s.gap.extras, s.past s.gap)) (some (u.gap.extras, u.past u.gap)) :=
    .read like.extras (h.past like)
  cases l <;> simp only [Layout.read?]
  case lead =>
    rw [Layout.bearsJoin, Bool.or_eq_true, bne_iff_ne, beq_iff_eq] at bears
    rw [State.lead?, State.lead?, h.region, h.suite_eq]
    cases region : s.region with
    | free => exact passed
    | header =>
      dsimp only
      rw [bears.resolve_left (not_not_intro region)]
      split
      · exact .none
      · exact passed
    | line =>
      dsimp only
      rw [Gap.isBroken_of_atMost like]
      split
      · exact .none
      · exact passed
  case glue =>
    rw [State.glue?, State.glue?, h.suite_eq, beq_iff_eq.mp bears]
    split
    · exact .none
    · exact passed
  case line =>
    rw [State.line?, State.line?, h.suite_eq, beq_iff_eq.mp bears, rest]
    split
    · exact .none
    · exact passed
  case newline =>
    rw [State.newline?, State.newline?, Gap.isBroken_of_atMost like]
    split
    · exact .read .nil h
    · exact .none
  case indent =>
    rw [State.indent?, State.indent?, beq_iff_eq.mp bears]
    split
    · rw [h.suite_eq, h.suites]
      split
      · exact .read .nil ⟨h.place, rfl, h.quotes, h.region, h.marked⟩
      · exact .none
    · exact .none
  case dedent =>
    rw [State.dedent?, State.dedent?, h.suite_eq, beq_iff_eq.mp bears, h.suites]
    split
    · exact .read .nil ⟨h.place, rfl, h.quotes, h.region, h.marked⟩
    · exact .none
  case finish =>
    rw [State.finish?, State.finish?, rest]
    split
    · exact passed
    · exact .none

/-- Gaps at corresponding places are alike, unless they go on across the join. -/
theorem gap_joined (h : (joined a post).States s u) (bears : s.rest.length < post.length ∨ s.bearsJoin post.length = true) :
    s.gap.Alike (joined a post) u.gap ∨
      s.gap.Like (joined a post) .atMost u.gap ∧ u.gap.rest = s.gap.rest ∧ s.gap.rest.length ≤ post.length ∧
        post.length ≤ s.rest.length ∧ u.gap = s.joinedGap post.length := by
  obtain ⟨before, before', ⟨w, split, rest, rfl, rest'⟩ | ⟨x, rfl, split, rfl, rest'⟩, here, here'⟩ := h.place
  · have long : post.length ≤ s.rest.length := by
      rw [rest, List.length_append]
      exact Nat.le_add_left _ _
    have bears : s.bearsJoin post.length = true := bears.resolve_left (Nat.not_lt_of_le long)
    have taken : s.rest.take (s.rest.length - post.length) = w := by
      rw [rest, List.length_append, Nat.add_sub_cancel, List.take_left]
    rw [State.bearsJoin, taken] at bears
    rw [State.gap, State.gap, rest, rest', here, here']
    rw [State.gap, rest, here] at bears
    split at bears
    · rename_i apart
      exact .inl (Gap.scan_apart split apart (by simpa using bears))
    · rename_i across
      have through := Gap.scan_through post split bears
      exact .inr ⟨through.1, through.2, Nat.le_of_not_lt across, rest ▸ long, by rw [State.joinedGap, rest, withJoin_append, here]⟩
  · have behind := Gap.scanFrom_behind (a := a) (c := .equal) .empty split
    left
    rw [State.gap, State.gap, here, here', rest']
    exact ⟨behind.1, by rw [Gap.scan, Gap.scan, behind.2], by rw [Gap.scan, Gap.scan, behind.2]⟩

theorem layout_joined (h : (joined a post).States s u) {l : Layout}
    (bears : (Question.layout l).bearsJoin post.length s = true) : (joined a post).coupling.Answers (l.read? s) (l.read? u) := by
  simp only [Question.bearsJoin, Bool.or_eq_true, decide_eq_true_eq, Bool.and_eq_true] at bears
  rcases h.gap_joined (bears.imp_right And.left) with alike | ⟨like, rest, reach, long, same⟩
  · exact h.layout alike l
  · rcases bears with short | ⟨-, apart | bears⟩
    · exact absurd short (Nat.not_lt_of_le long)
    · exact absurd apart (Nat.not_lt_of_le reach)
    · exact h.layout_atMost like rest (same ▸ bears)

theorem rest_joined (h : (joined a post).States s u) :
    (∃ w, s.rest = w ++ post ∧ u.rest = w ++ (joint ++ post)) ∨ u.rest = s.rest := by
  obtain ⟨_, _, ⟨w, -, rest, -, rest'⟩ | ⟨_, -, -, -, rest'⟩, -⟩ := h.place
  · exact .inl ⟨w, rest, rest'⟩
  · exact .inr rest'

theorem advance_joined (h : (joined a post).States s u)
    (within : ∀ w, s.rest = w ++ post → u.rest = w ++ (joint ++ post) → n ≤ w.length) {quotes : List Quote}
    (marked : ∀ q ∈ quotes, isQuoteMark q.mark = true) :
    (joined a post).States { s.advance n with quotes } { u.advance n with quotes } := by
  obtain ⟨before, before', ⟨w, split, rest, rfl, rest'⟩ | ⟨x, rfl, split, rfl, rest'⟩, here, here'⟩ := h.place
  · have le := within w rest rest'
    refine ⟨⟨before' ++ w.take n, _, .inl ⟨w.drop n, ?_, ?_, rfl, ?_⟩, ?_, ?_⟩, h.suites, rfl, h.region, marked⟩
    · rw [List.append_assoc, List.take_append_drop]
      exact split
    · show s.rest.drop n = _
      rw [rest, List.drop_append_of_le_length le]
    · show u.rest.drop n = _
      rw [rest', List.drop_append_of_le_length le]
    · show s.here.afterAll (s.rest.take n) = _
      rw [here, rest, List.take_append_of_le_length le, Position.afterAll_append]
    · show u.here.afterAll (u.rest.take n) = _
      rw [here', rest', List.take_append_of_le_length le, Position.afterAll_append]
  · refine ⟨⟨_, _, .inr ⟨x ++ s.rest.take n, rfl, ?_, rfl, ?_⟩, ?_, ?_⟩, h.suites, rfl, h.region, marked⟩
    · show post = x ++ s.rest.take n ++ s.rest.drop n
      rw [List.append_assoc, List.take_append_drop]
      exact split
    · show u.rest.drop n = s.rest.drop n
      rw [rest']
    · show s.here.afterAll (s.rest.take n) = _
      rw [here, ← Position.afterAll_append, List.append_assoc]
    · show u.here.afterAll (u.rest.take n) = _
      rw [here', rest', ← Position.afterAll_append, List.append_assoc, List.append_assoc]

theorem append_joint_ne (w post : List Char) : w ++ (joint ++ post) ≠ w ++ post := by
  intro same
  have length := congrArg List.length (List.append_cancel_left same)
  simp only [joint, List.length_append, List.length_cons, List.length_nil] at length
  omega

/-- A token that does not reach across the join reaches as far with it, and opens the same strings. -/
theorem length?_joined (h : (joined a post).States s u) {t : Token}
    (bears : ∀ w, s.rest = w ++ post → u.rest = w ++ (joint ++ post) → t.bearsJoin post.length s.quotes s.rest = true) :
    t.length? s.quotes u.rest = t.length? s.quotes s.rest ∧ ∀ n, t.length? s.quotes s.rest = some n →
      t.track u.rest s.quotes = t.track s.rest s.quotes ∧
        ∀ w, s.rest = w ++ post → u.rest = w ++ (joint ++ post) → n ≤ w.length := by
  rcases h.rest_joined with ⟨w, rest, rest'⟩ | same
  · have bears := bears w rest rest'
    rw [Token.bearsJoin, Bool.and_eq_true, beq_iff_eq, rest, withJoin_append, ← rest, ← rest'] at bears
    refine ⟨bears.1, fun n length => ?_⟩
    have reach : n ≤ w.length := by
      have within := bears.2
      rw [length, Option.all_some, decide_eq_true_eq, rest, List.length_append] at within
      exact Nat.le_of_add_le_add_right within
    refine ⟨?_, fun v here _ => ?_⟩
    · rw [rest] at length
      rw [rest', rest]
      exact Token.track_append length reach (by decide) _
    · obtain rfl := List.append_cancel_right (rest.symm.trans here)
      exact reach
  · rw [same]
    exact ⟨rfl, fun n _ => ⟨rfl, fun w rest rest' => absurd (rest'.symm.trans rest) (append_joint_ne w post)⟩⟩

/-- A token is read alike, if it does not reach across the join. -/
theorem token_within (h : (joined a post).States s u) {t : Token} {ts us : List Tree}
    (forests : (joined a post).Forests ts us)
    (bears : ∀ w, s.rest = w ++ post → u.rest = w ++ (joint ++ post) → t.bearsJoin post.length s.quotes s.rest = true) :
    (joined a post).coupling.Answers (t.readBehind? (ts, s)) (t.readBehind? (us, u)) := by
  obtain ⟨same, read⟩ := h.length?_joined bears
  simp only [Token.readBehind?]
  rw [h.quotes, same]
  cases length : t.length? s.quotes s.rest with
  | none => exact .none
  | some n =>
    obtain ⟨opens, within⟩ := read n length
    rw [Option.map_some, Option.map_some, opens]
    exact .read forests (h.advance_joined within (Token.isMarked_track h.marked))

theorem not_ends_joint (post : List Char) : ¬Gap.Ends (joint ++ post) := by
  intro ends
  have rest := (ends {}).1
  have shorter := Gap.length_rest_scanFrom (({} : Gap.Progress).indentBy 1) (({} : Position).after ' ') (joint.tail ++ post)
  have scanned : Gap.scan (joint ++ post) {} = Gap.scanFrom (({} : Gap.Progress).indentBy 1) (({} : Position).after ' ')
      (joint.tail ++ post) := Gap.scanFrom_blank rfl
  rw [← scanned, rest] at shorter
  simp only [joint, List.tail_cons, List.length_append, List.length_cons, List.length_nil] at shorter
  omega

theorem length_lt_of_ends (rest : s.rest = w ++ post) (rest' : u.rest = w ++ (joint ++ post)) (ends : Gap.Ends u.rest) :
    post.length < s.rest.length := by
  have some : w ≠ [] := by
    rintro rfl
    exact not_ends_joint post (rest' ▸ ends)
  have := List.length_pos_iff.mpr some
  rw [rest, List.length_append]
  omega

theorem token_joined (h : (joined a post).States s u) {t : Token}
    (bears : (Question.token t).bearsJoin post.length s = true) : (joined a post).coupling.Answers (t.read? s) (t.read? u) := by
  simp only [Question.bearsJoin, Bool.or_eq_true, decide_eq_true_eq] at bears
  rw [Token.read?_eq_bind, Token.read?_eq_bind]
  split at bears
  · rename_i spaced
    rw [if_pos spaced, if_pos spaced]
    rcases h.gap_joined (bears.imp_right fun bears => (Bool.and_eq_true_iff.mp bears).1) with
      alike | ⟨like, rest, reach, long, same⟩
    · refine token_of_lead (h.layout alike .lead) fun ts us forests states =>
        states.token_within forests fun w here there => ?_
      have apart : post.length < s.gap.rest.length :=
        length_lt_of_ends here there (Gap.ends_scanFrom {} u.here u.rest)
      have shorter : s.gap.rest.length ≤ s.rest.length := Gap.length_rest_scan s.rest s.here
      have bears := bears.resolve_left (by omega)
      rw [Bool.and_eq_true, if_pos apart] at bears
      exact bears.2
    · have bears := bears.resolve_left (Nat.not_lt_of_le long)
      rw [Bool.and_eq_true, if_neg (Nat.not_lt_of_le reach), Bool.or_eq_true, Option.isNone_iff_eq_none] at bears
      rcases bears.2 with bears | refused
      · exact token_of_lead (h.layout_atMost (l := .lead) like rest (same ▸ bears)) fun ts us forests states =>
          states.token_within forests fun w here there =>
            absurd (there.symm.trans (rest.trans here)) (append_joint_ne w post)
      · -- a token that is refused behind the gap is refused whether the gap may be passed or not
        have none {s : State} (refused : t.length? s.quotes s.gap.rest = none) : s.lead?.bind t.readBehind? = none := by
          rw [Option.bind_eq_none_iff]
          rintro ⟨ts, s'⟩ read
          obtain ⟨-, rfl⟩ := State.eq_past_of_lead read
          exact Option.map_eq_none_iff.mpr refused
        rw [none refused, none (by rw [rest, h.quotes]; exact refused)]
        exact .none
  · rename_i unspaced
    rw [if_neg unspaced, if_neg unspaced]
    refine h.token_within .nil fun w rest _ => bears.resolve_left ?_
    rw [rest, List.length_append]
    omega

theorem taken_joined (h : (joined a post).States s u) {t : Token} (spaced : t.isSpaced = true)
    (bears : (Question.token t).bearsJoin post.length s = true) (ends : Gap.Ends s.rest) (ends' : Gap.Ends u.rest) {n' : Nat}
    (length : t.length? s.quotes s.rest = some n) (length' : t.length? u.quotes u.rest = some n') :
    n' = n ∧ u.rest.take n' = s.rest.take n := by
  have gap : s.gap.rest = s.rest := (ends s.here).1
  have settled := h.length?_joined (t := t) fun w rest rest' => by
    have apart := length_lt_of_ends rest rest' ends'
    simp only [Question.bearsJoin, Bool.or_eq_true, decide_eq_true_eq, spaced, if_true, gap, if_pos apart] at bears
    exact (Bool.and_eq_true_iff.mp (bears.resolve_left (Nat.lt_asymm apart))).2
  rw [h.quotes, settled.1, length] at length'
  obtain rfl := Option.some.inj length'
  refine ⟨rfl, ?_⟩
  rcases h.rest_joined with ⟨w, rest, rest'⟩ | same
  · have reach := (settled.2 n length).2 w rest rest'
    rw [rest, rest', List.take_append_of_le_length reach, List.take_append_of_le_length reach]
  · rw [same]

theorem offset_joined (h : (joined a post).States s u) :
    s.here.offset + s.left = a.length + post.length ∧ u.here.offset + u.left = a.length + joint.length + post.length := by
  obtain ⟨before, before', ⟨w, split, rest, rfl, rest'⟩ | ⟨x, rfl, split, rfl, rest'⟩, here, here'⟩ := h.place
  · rw [here, here', State.left, State.left, rest, rest', Position.offset_afterAll, split]
    simp only [List.length_append]
    omega
  · rw [here, here', State.left, State.left, rest', Position.offset_afterAll, Position.offset_afterAll, split]
    simp only [List.length_append]
    omega

end Mirror.States

/-- With a line join between two of its tokens, a text is read alike. -/
theorem Mirror.keeps_joined (a post : List Char) :
    (joined a post).Keeps fun q s => q.bearsJoin post.length s = true where
  token _ bears h := h.token_joined bears
  layout bears h := h.layout_joined bears
  name bears h ends ends' length length' := (h.taken_joined rfl bears ends ends' length length').2
  literal bears h ends ends' length length' := .inl (h.taken_joined rfl bears ends ends' length length').2
  formatted {s s' u u' n n'} bears h h' ends ends' length length' le le' := by
    obtain ⟨rfl, taken⟩ := h.taken_joined rfl bears ends ends' length length'
    rw [Token.length?] at length
    split at length
    · rename_i q k opened
      obtain ⟨formatted, same⟩ := Option.ite_none_right_eq_some.mp length
      obtain rfl := Option.some.inj same
      obtain ⟨letters, rest, opens⟩ := Quote.exists_opens opened
      obtain ⟨ds, begins⟩ := delimiter_eq_cons q.mark q.triple
      have head : s.rest.take k = letters ++ q.mark :: ds := by
        rw [← begins, opens.text, opens.length, ← List.append_assoc, ← List.length_append, List.take_left]
      have reads (s s' : State) {w : List Char} (head : s.rest.take k = w) (length : k ≤ s'.here.offset - s.here.offset) :
          ∃ rest, s.spelling s' = w ++ rest := by
        obtain ⟨m, same⟩ := Nat.exists_eq_add_of_le length
        exact ⟨_, by rw [State.spelling, same, List.take_add, head]⟩
      obtain ⟨left, left'⟩ := h.offset_joined
      obtain ⟨leftEnd, leftEnd'⟩ := h'.offset_joined
      have within : k ≤ s.left := opens.inLine.le
      have within' : k ≤ u.left := by
        have length := congrArg List.length taken
        rw [List.length_take, List.length_take] at length
        rw [State.left] at within ⊢
        omega
      obtain ⟨rest, spelled⟩ := reads s s' head (by omega)
      obtain ⟨rest', spelled'⟩ := reads u u' (taken.trans head) (by omega)
      refine .inr ⟨letters, q.mark, ds ++ rest, ds ++ rest', opens.known, opens.isAnyMark,
        opens.formatted.symm.trans formatted, ?_, ?_⟩
      · rw [spelled, List.append_assoc, List.cons_append]
      · rw [spelled', List.append_assoc, List.cons_append]
    · cases length

end Footprint.Syntax
