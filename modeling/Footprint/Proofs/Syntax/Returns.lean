import Footprint.Proofs.Syntax.GapImages
import Footprint.Proofs.Syntax.Literals

/-!
# Reading with other line ends

A text with a return before each line feed is read like the text itself, as long as literals in single quotes hold
line feeds only behind backslashes: there a line feed may stand where no return may.
-/

namespace Footprint.Syntax

open Text StringLiteral

variable {source before behind cs : List Char} {c : Char}

/-- A text with a return before each of its line feeds, as its image. -/
def Mirror.returns (source : List Char) : Mirror where
  cuts before behind before' behind' :=
    source = before ++ behind ∧ before' = withReturns before ∧ behind' = withReturns behind
  literals w w' := w' = withReturns w ∧ '\r' ∉ w ∧ IsLiteral w
  joins := False

theorem Mirror.cuts_returns (split : source = before ++ behind) :
    (Mirror.returns source).cuts before behind (withReturns before) (withReturns behind) := ⟨split, rfl, rfl⟩

theorem Mirror.places_returns (split : source = before ++ behind) :
    (Mirror.returns source).Places (({} : Position).afterAll before) (({} : Position).afterAll (withReturns before)) :=
  ⟨before, behind, _, _, Mirror.cuts_returns split, rfl, rfl⟩

/-! ### Gaps -/

theorem beginsString_withReturns (cs : List Char) : beginsString (withReturns cs) = beginsString cs := by
  rw [beginsString, beginsString, dropWhile_withReturns (by decide) (by decide)]
  cases cs.dropWhile isStringPrefix with
  | nil => rfl
  | cons c cs =>
    by_cases feed : c = '\n'
    · rw [feed]
      rfl
    · rw [withReturns_cons feed]

namespace Gap

variable {g g' : Progress}

theorem Progress.breakLine_unindent (g : Progress) : g.unindent.breakLine = g.breakLine := by
  cases frozen : g.frozen <;> simp [Progress.unindent, Progress.breakLine, frozen]

theorem joinLength?_withReturns (noReturn : '\r' ∉ cs) : joinLength? (withReturns cs) = (joinLength? cs).map (reach cs) := by
  cases cs with
  | nil => rfl
  | cons c cs =>
    rw [List.mem_cons, not_or] at noReturn
    by_cases feed : c = '\n'
    · rw [feed]
      rfl
    rw [withReturns_cons feed]
    by_cases null : c = '\x00'
    · rw [null]
      rfl
    · have none (ds : List Char) : joinLength? (c :: ds) = Option.none := by
        unfold joinLength?
        split <;> simp_all
      rw [none, none]
      rfl

theorem next?_withReturns (noReturn : '\r' ∉ cs) (feed : cs.head? ≠ some '\n') :
    next? (withReturns cs) = (next? cs).map fun p => (p.1, reach cs p.2) := by
  cases cs with
  | nil => rfl
  | cons c cs =>
    rw [List.mem_cons, not_or] at noReturn
    have feed : c ≠ '\n' := fun same => feed (congrArg some same)
    rw [withReturns_cons feed, next?, next?]
    cases passOf? c with
    | some pass => rw [Option.map_some, reach_cons feed, reach_zero]
    | none =>
      dsimp only
      split
      · rw [joinLength?_withReturns noReturn.2, Option.map_map, Option.map_map]
        refine congrArg (Option.map · _) (funext fun n => ?_)
        rw [Function.comp_apply, Function.comp_apply, reach_cons feed]
      · rfl

theorem scanFrom_returns (noReturn : '\r' ∉ source) (h : g.Like (.returns source) .equal g')
    (split : source = before ++ cs) :
    (scanFrom g (({} : Position).afterAll before) cs).Like (.returns source) .equal
      (scanFrom g' (({} : Position).afterAll (withReturns before)) (withReturns cs)) := by
  induction bound : cs.length using Nat.strongRecOn generalizing g g' before cs with
  | ind n ih =>
    have further {g g' : Progress} (passed ds : List Char) (h : g.Like (.returns source) .equal g')
        (some : passed ≠ []) (same : cs = passed ++ ds) :
        (scanFrom g ((({} : Position).afterAll before).afterAll passed) ds).Like (.returns source) .equal
          (scanFrom g' ((({} : Position).afterAll (withReturns before)).afterAll (withReturns passed))
            (withReturns ds)) := by
      rw [← Position.afterAll_append, ← Position.afterAll_append, ← withReturns_append]
      refine ih ds.length ?_ h (by rw [split, same, List.append_assoc]) rfl
      have := List.length_pos_iff.mpr some
      rw [← bound, same, List.length_append]
      omega
    have here := Mirror.places_returns split
    cases cs with
    | nil => exact h.finishText (Mirror.cuts_returns split)
    | cons c cs =>
      have ret : c ≠ '\r' := by
        rintro rfl
        exact noReturn (by simp [split])
      have comment := h.comment
      by_cases feed : c = '\n'
      · subst feed
        rw [withReturns_newline]
        generalize open_ : g.comment = x, open_' : g'.comment = y at comment
        cases comment with
        | some places =>
          rw [scanFrom_inside open_, if_pos rfl, scanFrom_inside open_', if_neg (by decide), if_neg (by decide),
            scanFrom_inside open_', if_pos rfl]
          exact further ['\n'] cs (h.endComment places).breakLine (by simp) rfl
        | none =>
          rw [scanFrom_break open_, scanFrom_return open_', scanFrom_break]
          · rw [Progress.breakLine_unindent]
            exact further ['\n'] cs h.breakLine (by simp) rfl
          · rw [Progress.unindent]
            split <;> exact open_'
      · have further {g g' : Progress} (n : Nat) (h : g.Like (.returns source) .equal g') (some : 0 < n) (le : n ≤ (c :: cs).length) :
            (scanFrom g ((({} : Position).afterAll before).afterAll ((c :: cs).take n)) ((c :: cs).drop n)).Like
              (.returns source) .equal
              (scanFrom g' ((({} : Position).afterAll (withReturns before)).afterAll
                ((withReturns (c :: cs)).take (reach (c :: cs) n))) ((withReturns (c :: cs)).drop (reach (c :: cs) n))) := by
          rw [take_reach, drop_reach]
          refine further _ _ h (fun none => ?_) (List.take_append_drop n _).symm
          have length := congrArg List.length none
          rw [List.length_take, Nat.min_eq_left le, List.length_nil] at length
          omega
        generalize open_ : g.comment = x, open_' : g'.comment = y at comment
        cases comment with
        | some places =>
          have next := further 1 h Nat.one_pos (Nat.succ_le_succ (Nat.zero_le _))
          rw [reach_cons feed, reach_zero, withReturns_cons feed] at next
          rw [withReturns_cons feed, scanFrom_inside open_, if_neg feed, scanFrom_inside open_', if_neg feed]
          split
          · have stop := (h.endComment places).finish (Mirror.cuts_returns split) (beginsString_withReturns _)
            rwa [withReturns_cons feed] at stop
          · exact next
        | none =>
          have more : withReturns (c :: cs) ≠ [] := by
            rw [withReturns_cons feed]
            exact List.cons_ne_nil _ _
          rw [scanFrom_next open_ (List.cons_ne_nil c cs), scanFrom_next open_' more,
            next?_withReturns (fun mem => noReturn (by simp [split, mem])) (by simp [feed])]
          cases next : next? (c :: cs) with
          | some p =>
            obtain ⟨some, le⟩ := length_of_next next
            exact further p.2 (h.apply p.1 here) some le
          | none => exact h.finish (Mirror.cuts_returns split) (beginsString_withReturns _)

end Gap

/-! ### Tokens -/

/-- Whether a string that is read here is also read if lines end in returns. -/
def Token.bearsReturns (quotes : List Quote) (cs : List Char) : Token → Bool
  | .plainString =>
    match Quote.opening? cs with
    | some (q, n) => q.formatted || q.bearsReturns (cs.drop n)
    | none => true
  | .formattedText =>
    match quotes with
    | q :: _ => q.bearsReturns cs
    | [] => true
  | _ => true

def Question.bearsReturns (s : State) : Question → Bool
  | .token t => t.bearsReturns s.quotes (if t.isSpaced then s.gap.rest else s.rest)
  | .layout _ => true

namespace Token

variable {quotes : List Quote} {t : Token}

theorem track_withReturns (cs : List Char) : t.track (withReturns cs) quotes = t.track cs quotes := by
  cases t <;> simp only [track, Quote.opening?_withReturns]

theorem nonempty_reach (more : cs ≠ []) (n : Nat) : nonempty (reach cs n) = (nonempty n).map (reach cs) := by
  cases n with
  | zero => rw [reach_zero]; rfl
  | succ n =>
    obtain ⟨m, reached⟩ : ∃ m, reach cs (n + 1) = m + 1 := by
      obtain ⟨c, cs, rfl⟩ := List.exists_cons_of_ne_nil more
      by_cases feed : c = '\n'
      · exact ⟨_, by rw [feed, reach_newline]⟩
      · exact ⟨_, reach_cons feed cs n⟩
    rw [reached]
    exact congrArg some reached.symm

theorem length?_closeFormatted_withReturns (marked : ∀ q ∈ quotes, isQuoteMark q.mark = true) (cs : List Char) :
    closeFormatted.length? quotes (withReturns cs) = (closeFormatted.length? quotes cs).map (reach cs) := by
  rcases quotes with _ | ⟨q, quotes⟩
  · rfl
  rcases cs with _ | ⟨c, cs⟩
  · rfl
  have marked := marked q List.mem_cons_self
  obtain ⟨feed, ret⟩ := ne_of_isQuoteMark marked
  by_cases isFeed : c = '\n'
  · subst isFeed
    rw [withReturns_newline, length?, length?, if_neg (by simp [Ne.symm ret]), if_neg (by simp [Ne.symm feed])]
    rfl
  rw [withReturns_cons isFeed, length?, length?, doubled_withReturns feed ret]
  split
  · rename_i closes
    obtain ⟨after, text⟩ := Quote.delimiter_of_closes closes
    have inLine := inLine_delimiter marked q.triple after
    rw [text, Quote.length_delimiter] at inLine
    exact congrArg some inLine.reach_eq.symm
  · rfl

theorem length?_formatText_withReturns (cs : List Char) :
    formatText.length? quotes (withReturns cs) = (formatText.length? quotes cs).map (reach cs) := by
  by_cases more : cs = []
  · rw [more]
    rfl
  · rw [length?, length?, takeWhile_withReturns_over (by decide) (by decide), ← nonempty_reach more, reach,
      ← List.prefix_iff_eq_take.mp (List.takeWhile_prefix _)]

theorem length?_formattedText_withReturns (marked : ∀ q ∈ quotes, isQuoteMark q.mark = true) (noReturn : '\r' ∉ cs)
    (bears : formattedText.bearsReturns quotes cs = true) :
    formattedText.length? quotes (withReturns cs) = (formattedText.length? quotes cs).map (reach cs) := by
  rcases quotes with _ | ⟨q, quotes⟩
  · rfl
  by_cases more : cs = []
  · rw [more]
    rfl
  rw [length?, length?, Quote.bodyLength?_of_bearsReturns (marked q List.mem_cons_self) noReturn bears]
  cases q.bodyLength? 0 true cs with
  | none => rfl
  | some n => exact nonempty_reach more n

/-- A token reaches as far in both texts, returns not counted. -/
theorem length?_withReturns (inline : t.isInline = true) (marked : ∀ q ∈ quotes, isQuoteMark q.mark = true)
    (noReturn : '\r' ∉ cs) (bears : t.bearsReturns quotes cs = true) :
    t.length? quotes (withReturns cs) = (t.length? quotes cs).map (reach cs) := by
  cases t with
  | mark m => exact length?_mark_withReturns (by simpa [isInline] using inline) cs
  | keyword w => exact length?_keyword_withReturns w cs
  | name except => exact length?_name_withReturns except cs
  | number => exact length?_number_withReturns cs
  | plainString =>
    refine (Quote.literalLength?_withReturns noReturn).resolve_right ?_
    rintro ⟨-, q, n, opened, plain, lost⟩
    simp [bearsReturns, opened, plain, lost] at bears
  | openFormatted =>
    rw [length?, length?, Quote.opening?_withReturns]
    cases opened : Quote.opening? cs with
    | none => rfl
    | some p =>
      obtain ⟨letters, rest, opens⟩ := Quote.exists_opens opened
      dsimp only
      split
      · exact congrArg some opens.inLine.reach_eq.symm
      · rfl
  | formattedText => exact length?_formattedText_withReturns marked noReturn bears
  | closeFormatted => exact length?_closeFormatted_withReturns marked cs
  | conversion => exact length?_conversion_withReturns cs
  | colon => exact length?_colon_withReturns cs
  | formatText => exact length?_formatText_withReturns cs

end Token

/-! ### Readings -/

namespace Mirror

variable {s s' u u' : State} {n : Nat}

theorem States.rest_returns (h : (returns source).States s u) : u.rest = withReturns s.rest := by
  obtain ⟨before, before', ⟨-, -, behind⟩, -⟩ := h.place
  exact behind

theorem States.noReturn (noReturn : '\r' ∉ source) (h : (returns source).States s u) : '\r' ∉ s.rest := by
  obtain ⟨before, before', ⟨split, -⟩, -⟩ := h.place
  exact fun mem => noReturn (by rw [split]; exact List.mem_append_right _ mem)

theorem States.alike_returns (noReturn : '\r' ∉ source) (h : (returns source).States s u) :
    s.gap.Alike (returns source) u.gap := by
  obtain ⟨before, before', ⟨split, rfl, behind⟩, here, here'⟩ := h.place
  have like : s.gap.Like (returns source) .equal u.gap := by
    rw [State.gap, State.gap, here, here', behind]
    exact Gap.scanFrom_returns noReturn .empty split
  obtain ⟨_, _, ⟨-, -, rest⟩, -⟩ := like.place
  refine ⟨like, ?_, ?_⟩
  · rw [rest]
    cases s.gap.rest with
    | nil => rfl
    | cons c cs =>
      by_cases feed : c = '\n'
      · rw [feed]
        rfl
      · rw [withReturns_cons feed]
        rfl
  · rw [rest, head?_withReturns, Option.any_map]
    cases s.gap.rest.head? with
    | none => rfl
    | some c =>
      by_cases feed : c = '\n'
      · rw [feed]
        rfl
      · simp [feed]

theorem States.advance_returns (h : (returns source).States s u) (n : Nat) {quotes : List Quote}
    (marked : ∀ q ∈ quotes, isQuoteMark q.mark = true) :
    (returns source).States { s.advance n with quotes } { u.advance (reach s.rest n) with quotes } := by
  obtain ⟨before, before', ⟨split, rfl, behind⟩, here, here'⟩ := h.place
  refine ⟨⟨before ++ s.rest.take n, _, ⟨?_, rfl, ?_⟩, ?_, ?_⟩, h.suites, rfl, h.region, marked⟩
  · rw [List.append_assoc]
    exact split.trans (congrArg (before ++ ·) (List.take_append_drop n s.rest).symm)
  · show u.rest.drop _ = withReturns (s.rest.drop n)
    rw [behind, drop_reach]
  · show s.here.afterAll _ = _
    rw [here, Position.afterAll_append]
  · show u.here.afterAll _ = _
    rw [here', behind, take_reach, withReturns_append, Position.afterAll_append]

theorem States.token_returns (noReturn : '\r' ∉ source) {t : Token} (inline : t.isInline = true)
    (bears : (Question.token t).bearsReturns s = true) (h : (returns source).States s u) :
    (returns source).coupling.Answers (t.read? s) (t.read? u) := by
  have behind {ts us : List Tree} {s u : State} (bears : t.bearsReturns s.quotes s.rest = true)
      (forests : (returns source).Forests ts us) (h : (returns source).States s u) :
      (returns source).coupling.Answers (t.readBehind? (ts, s)) (t.readBehind? (us, u)) := by
    simp only [Token.readBehind?]
    rw [h.quotes, h.rest_returns, Token.length?_withReturns inline h.marked (h.noReturn noReturn) bears,
      Token.track_withReturns]
    cases t.length? s.quotes s.rest with
    | none => exact .none
    | some n => exact .read forests (h.advance_returns n (Token.isMarked_track h.marked))
  rw [Token.read?_eq_bind, Token.read?_eq_bind]
  rw [Question.bearsReturns] at bears
  split at bears
  · rename_i spaced
    rw [if_pos spaced, if_pos spaced]
    exact token_of_lead (h.layout (h.alike_returns noReturn) .lead) fun ts us => behind bears
  · rename_i unspaced
    rw [if_neg unspaced, if_neg unspaced]
    exact behind bears .nil h

theorem States.spelling_returns (h : (returns source).States s u) (h' : (returns source).States s' u')
    (le : s'.left ≤ s.left) :
    ∃ w, s.rest = w ++ s'.rest ∧ s.spelling s' = w ∧ u.spelling u' = withReturns w := by
  obtain ⟨before, _, ⟨split, rfl, behind⟩, here, here'⟩ := h.place
  obtain ⟨before', _, ⟨split', rfl, -⟩, there, there'⟩ := h'.place
  have isHead : before <+: before' := by
    refine List.prefix_of_prefix_length_le ⟨s.rest, split.symm⟩ ⟨s'.rest, split'.symm⟩ ?_
    have length := congrArg List.length (split.symm.trans split')
    rw [List.length_append, List.length_append] at length
    rw [State.left, State.left] at le
    omega
  obtain ⟨w, rfl⟩ := isHead
  have rest : s.rest = w ++ s'.rest := by
    rw [List.append_assoc, split] at split'
    exact List.append_cancel_left split'
  refine ⟨w, rest, ?_, ?_⟩
  · rw [State.spelling, here, there, Position.offset_afterAll, Position.offset_afterAll, rest, List.length_append,
      ← Nat.add_assoc, Nat.add_sub_cancel_left, List.take_left]
  · rw [State.spelling, here', there', Position.offset_afterAll, Position.offset_afterAll, behind, rest,
      withReturns_append, withReturns_append, List.length_append, ← Nat.add_assoc, Nat.add_sub_cancel_left,
      List.take_left]

theorem keeps_returns (noReturn : '\r' ∉ source) : (returns source).Keeps fun q s => q.bearsReturns s = true where
  token inline bears h := h.token_returns noReturn inline bears
  layout _ h := h.layout (h.alike_returns noReturn) _
  name _ h _ _ length length' := by
    rw [h.quotes, h.rest_returns] at length'
    rw [h.rest_returns, Token.take_name_withReturns length length']
  literal {s u n n'} _ h _ _ length length' := by
    rw [h.rest_returns] at length'
    rcases Quote.literalLength?_withReturns (h.noReturn noReturn) with same | ⟨none, -⟩
    · obtain rfl : reach s.rest n = n' := by
        rw [Token.length?] at length length'
        rw [length', length] at same
        exact (Option.some.inj same).symm
      rw [h.rest_returns, take_reach]
      exact ⟨rfl, fun mem => h.noReturn noReturn (List.mem_of_mem_take mem), Quote.isLiteral_of_length length⟩
    · exact absurd (length'.symm.trans none) (Option.some_ne_none _)
  formatted {s s' u u' n n'} _ h h' _ _ length length' le le' := by
    rw [Token.length?] at length
    split at length
    · rename_i q k opened
      obtain ⟨formatted, same⟩ := Option.ite_none_right_eq_some.mp length
      obtain rfl := Option.some.inj same
      obtain ⟨letters, rest, opens⟩ := Quote.exists_opens opened
      obtain ⟨w, text, spelled, spelled'⟩ := h.spelling_returns h' (Nat.le_trans le (Nat.sub_le _ _))
      rw [spelled, spelled']
      refine ⟨rfl, fun mem => h.noReturn noReturn (by rw [text]; exact List.mem_append_left _ mem),
        opens.isLiteral formatted ⟨_, text.symm⟩ ?_⟩
      have within := opens.inLine.le
      have length := congrArg List.length text
      rw [List.length_append] at length
      rw [State.left, State.left] at le
      omega
    · cases length

end Mirror

end Footprint.Syntax
