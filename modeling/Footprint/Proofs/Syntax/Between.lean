import Footprint.Proofs.Syntax.Joins
import Footprint.Proofs.Syntax.Questions
import Footprint.Proofs.Syntax.SettledTokens

/-!
# Joins between lexemes

A line join may be put in wherever it stands between two lexemes of the cut and moves no line across the indentation of a
suite. That is told from the places of the cut alone: all that is asked in a reading is asked at one of them.
-/

namespace Footprint.Syntax

variable {source cs : List Char} {s : State} {p : Place} {t : Token} {quotes : List Quote} {k n : Nat}

/-- How far lines outside all brackets are indented that begin before the join. -/
def indentations (k : Nat) (source : List Char) : List Nat :=
  (places source).filterMap fun p => if p.frames = [] ∧ k ≤ p.rest.length then p.gap.stops.getLast? else none

namespace Place

def joinedGap (k : Nat) (p : Place) : Gap := Gap.scan (withJoin k p.rest) p.here

/-- Whether the gap goes on to the join or across it. -/
def meetsJoin (k : Nat) (p : Place) : Bool := p.isCode && decide (p.past.rest.length ≤ k)

/-- Whether the join is passed as a part of the gap, and no line is taken for another because of it. -/
def passesJoin (k : Nat) (suites : List Nat) (p : Place) : Bool :=
  Gap.covers (p.rest.take (p.rest.length - k)) p.here &&
    ((p.joinedGap k).stops == p.gap.stops ||
      !p.frames.isEmpty && suites.all fun m =>
        (p.joinedGap k).stops.map (fun n => decide (n < m)) == p.gap.stops.map fun n => decide (n < m))

/-- Whether what is next ends before the join. The text of a string or format must also be the same with the join. -/
def endsBefore (k : Nat) (p : Place) : Bool :=
  decide (0 < k) && !p.next.isEmpty && p.next.all (fun q => k ≤ q.rest.length) &&
    match p.frames.head? with
    | some .text => Token.formattedText.bearsJoin k p.quotes p.rest
    | some .format => Token.formatText.bearsJoin k p.quotes p.rest
    | _ => true

/-- Whether a line join so many characters before the end of the text stands between two lexemes, as far as this place is
concerned. -/
def bearsJoin (k : Nat) (suites : List Nat) (p : Place) : Bool :=
  decide (p.rest.length < k) || if p.meetsJoin k then p.passesJoin k suites else p.endsBefore k

end Place

/-! ### Lexemes before the join -/

theorem exists_withJoin (k : Nat) (cs : List Char) : ∃ z, withJoin k cs = cs.take (cs.length - k) ++ ' ' :: z ∧
    ('}' ∈ z → '}' ∈ cs.drop (cs.length - k)) := by
  refine ⟨_, rfl, fun mem => ?_⟩
  simpa using mem

theorem EndsWithin.bearsJoin (h : EndsWithin (cs.take (cs.length - k)) (cs.drop (cs.length - k))) (le : k ≤ cs.length)
    (spaced : t.isSpaced = true) (known : ∀ m, t = .mark m → m ∈ marks)
    (converts : t = .conversion → ∀ n, t.length? quotes cs = some n → n + k ≤ cs.length) :
    t.bearsJoin k quotes cs = true := by
  obtain ⟨z, joined, brace⟩ := exists_withJoin k cs
  have whole := List.take_append_drop (cs.length - k) cs
  have length := List.length_take_of_le (Nat.sub_le cs.length k)
  obtain ⟨same, within⟩ := h.length?_eq quotes spaced known (fun isConversion n read => by
    rw [whole] at read
    have := converts isConversion n read
    omega) brace
  rw [whole] at same within
  rw [Token.bearsJoin, joined, same, beq_self_eq_true, Bool.true_and, Option.all_eq_true]
  intro n read
  have := within n read
  rw [decide_eq_true_eq]
  omega

theorem EndsWithin.beginsString_withJoin (h : EndsWithin (cs.take (cs.length - k)) (cs.drop (cs.length - k))) :
    beginsString (withJoin k cs) = beginsString cs := by
  obtain ⟨z, joined, -⟩ := exists_withJoin k cs
  have same := h.beginsString_eq z
  rwa [List.take_append_drop, ← joined] at same

theorem wordLength_lt_of_opening {q : Quote} (opened : Quote.opening? cs = some (q, n)) : wordLength cs < n := by
  obtain ⟨letters, rest, opens⟩ := Quote.exists_opens opened
  obtain ⟨ds, begins⟩ := StringLiteral.delimiter_eq_cons q.mark q.triple
  have length := opens.length
  rw [begins, List.length_cons] at length
  rw [opens.text, begins, List.cons_append, wordLength_letters opens.prefixes opens.marked]
  omega

namespace Place

/-- Some lexeme is next, and ends before the join. -/
structure EndsBefore (k : Nat) (p : Place) : Prop where
  pos : 0 < k
  next : p.next ≠ []
  before : ∀ q ∈ p.next, k ≤ q.rest.length

namespace EndsBefore

variable (h : p.EndsBefore k)
include h

theorem within {fs : List Frame} (lexeme : t ∈ p.lexemes)
    (length : t.length? p.quotes (if t.isSpaced then p.past else p).rest = some n)
    (frames : t.frames p.frames = some fs) :
    n + k ≤ (if t.isSpaced then p.past else p).rest.length := by
  have same : (if t.isSpaced then p.past else p).quotes = p.quotes ∧
      (if t.isSpaced then p.past else p).frames = p.frames := by
    split <;> exact ⟨rfl, rfl⟩
  have read : p.read? t = some _ := behind?_eq_some_iff.mpr ⟨n, fs, same.1.symm ▸ length, same.2.symm ▸ frames, rfl⟩
  have before := h.before _ (mem_next lexeme read)
  rw [List.length_drop] at before
  have := h.pos
  omega

/-- A literal that is opened here is opened before the join, and closed there if it is read as a whole. -/
theorem exists_literal (code : p.isCode = true) (string : beginsString p.past.rest = true) :
    ∃ q n, Quote.opening? p.past.rest = some (q, n) ∧ n + k ≤ p.past.rest.length ∧
      (q.formatted = false → ∃ m, Quote.literalLength? p.past.rest = some m ∧ m + k ≤ p.past.rest.length) := by
  obtain ⟨q, next⟩ := List.exists_mem_of_ne_nil _ h.next
  obtain ⟨t, lexeme, read⟩ := exists_read next
  have only := lexeme
  rw [lexemes_of_isCode code, if_pos string, List.mem_cons, List.mem_singleton] at only
  rcases only with rfl | rfl
  all_goals
    obtain ⟨n, fs, length, frames, -⟩ := behind?_eq_some_iff.mp read
    have within : n + k ≤ p.past.rest.length := h.within lexeme length frames
  · have literal : Quote.literalLength? p.past.rest = some n := length
    have parts := literal
    rw [Quote.literalLength?] at parts
    split at parts
    · rename_i q m opened
      refine ⟨q, m, opened, ?_, fun _ => ⟨n, literal, within⟩⟩
      obtain ⟨-, parts⟩ := Option.ite_none_left_eq_some.mp parts
      split at parts
      · have := Option.some.inj parts
        omega
      · cases parts
    · cases parts
  · have opens : Token.openFormatted.length? p.quotes p.past.rest = some n := length
    rw [Token.length?] at opens
    split at opens
    · rename_i q m opened
      obtain ⟨formatted, same⟩ := Option.ite_none_right_eq_some.mp opens
      refine ⟨q, m, opened, Option.some.inj same ▸ within, fun plain => ?_⟩
      rw [formatted] at plain
      cases plain
    · cases opens

theorem numberLength_le (code : p.isCode = true) (number : Number.length p.past.rest ≠ 0) :
    Number.length p.past.rest + k ≤ p.past.rest.length := by
  refine h.within (number_mem_lexemes code number) (n := Number.length p.past.rest) ?_ rfl
  show nonempty (Number.length p.past.rest) = _
  cases length : Number.length p.past.rest with
  | zero => exact absurd length number
  | succ n => rfl

theorem longMark_le (code : p.isCode = true) {m : List Char} (known : m ∈ longMarks) (begins : m <+: p.past.rest) :
    m.length + k ≤ p.past.rest.length := by
  have long : ∀ m ∈ longMarks, m ∈ marks ∧ 2 ≤ m.length := by decide
  obtain ⟨l, mem, longer, read⟩ := exists_longest p.quotes known begins
  obtain ⟨knownL, two⟩ := long l mem
  have other {c : Char} : l ≠ [c] := by
    rintro rfl
    exact absurd two (by simp)
  have noNumber : Number.length p.past.rest = 0 :=
    Decidable.not_not.mp fun number => other (point_of_number knownL read number).1
  have lexeme := mark_mem_lexemes code knownL (fun isColon => absurd isColon other) read noNumber
  have frames : (Token.mark l).frames p.frames = some p.frames := by simp [Token.frames, Frame.behindMark, other]
  have within : l.length + k ≤ p.past.rest.length := h.within lexeme read frames
  omega

/-- Whatever token of code is next, it ends before the join. -/
theorem endsWithin (code : p.isCode = true) (apart : k < p.past.rest.length) :
    EndsWithin (p.past.rest.take (p.past.rest.length - k)) (p.past.rest.drop (p.past.rest.length - k)) := by
  have length := List.length_take_of_le (Nat.sub_le p.past.rest.length k)
  have literal {q : Quote} {n : Nat} (opened : Quote.opening? p.past.rest = some (q, n)) : n + k ≤ p.past.rest.length ∧
      (q.formatted = false → ∃ m, Quote.literalLength? p.past.rest = some m ∧ m + k ≤ p.past.rest.length) := by
    obtain ⟨q', n', opened', within⟩ := h.exists_literal code (beginsString_of_opening opened)
    rw [opened] at opened'
    obtain ⟨rfl, rfl⟩ := Prod.mk.inj (Option.some.inj opened')
    exact within
  have word : wordLength p.past.rest + k ≤ p.past.rest.length := by
    cases string : beginsString p.past.rest with
    | true =>
      obtain ⟨q, n, opened⟩ := exists_opening string
      have := wordLength_lt_of_opening opened
      have := (literal opened).1
      omega
    | false =>
      by_cases none : wordLength p.past.rest = 0
      · omega
      · refine h.within (name_mem_lexemes code string (numberLength_of_wordLength none)) ?_ rfl
        simp [Token.length?, Token.isSpaced, none]
  constructor
  case ne_nil =>
    intro none
    rw [none, List.length_nil] at length
    omega
  all_goals rw [List.take_append_drop, length]
  case word => omega
  case number =>
    by_cases none : Number.length p.past.rest = 0
    · omega
    · have := h.numberLength_le code none
      omega
  case mark =>
    intro m known begins
    have := h.longMark_le code known begins
    omega
  case opening =>
    intro q n opened
    have := (literal opened).1
    omega
  case literal =>
    intro q n opened plain
    obtain ⟨m, read, within⟩ := (literal opened).2 plain
    exact ⟨m, read, by omega⟩

theorem lt_length : k < p.rest.length := by
  obtain ⟨q, next⟩ := List.exists_mem_of_ne_nil _ h.next
  exact Nat.lt_of_le_of_lt (h.before q next) (length_next next)

theorem mark_apart {m : List Char} {q : Place} (known : m ∈ marks) (lexeme : Token.mark m ∈ p.lexemes)
    (read : p.read? (.mark m) = some q) : k < p.past.rest.length ∧ m <+: p.past.rest := by
  obtain ⟨n, fs, length, frames, -⟩ := behind?_eq_some_iff.mp read
  have within : n + k ≤ p.past.rest.length := h.within lexeme length frames
  obtain ⟨rfl, begins, -⟩ := of_length_mark known length
  have positive := (Token.length_pos (p.isSolid_lexemes _ lexeme) length).1
  exact ⟨by omega, begins⟩

theorem exists_head (reached : Reached source p) (content : p.isCode = false) (spent : p.isSpent = true) :
    k < p.past.rest.length ∧ ∃ c ds, p.past.rest = c :: ds ∧ (c = '\x7b' ∨ c = '\x7d' ∨ isQuoteMark c = true) := by
  obtain ⟨q, next⟩ := List.exists_mem_of_ne_nil _ h.next
  obtain ⟨t, lexeme, read⟩ := exists_read next
  have kinds : t = .closeFormatted ∨ t = .mark ['\x7b'] ∨ t = .mark ['\x7d'] := by
    rw [lexemes] at lexeme
    rcases exists_of_not_isCode content with head | head
    all_goals
      rw [head] at lexeme
      dsimp only at lexeme
      rw [if_pos spent, List.mem_cons, List.mem_singleton] at lexeme
    · exact lexeme.imp_right .inl
    · exact .inr lexeme
  rcases kinds with rfl | rfl | rfl
  · obtain ⟨n, fs, length, -⟩ := behind?_eq_some_iff.mp read
    have length : Token.closeFormatted.length? p.quotes p.rest = some n := length
    obtain ⟨q, opened, ds, quotes, begins, -⟩ := of_length_close length
    have quote := reached.isMarked q (quotes ▸ List.mem_cons_self)
    have rest : p.past.rest = q.mark :: ds := by
      have solid := (isIdentifierRest_of_isQuoteMark quote).2.2.2.2.2.2
      show p.gap.rest = _
      rw [gap, begins, Gap.scan, Gap.scanFrom_solid rfl solid]
      rfl
    refine ⟨?_, q.mark, ds, rest, .inr (.inr quote)⟩
    rw [rest, ← begins]
    exact h.lt_length
  · obtain ⟨apart, ds, begins⟩ := h.mark_apart (by decide) lexeme read
    exact ⟨apart, _, ds, begins.symm, .inl rfl⟩
  · obtain ⟨apart, ds, begins⟩ := h.mark_apart (by decide) lexeme read
    exact ⟨apart, _, ds, begins.symm, .inr (.inl rfl)⟩

theorem closeFormatted_bearsJoin (reached : Reached source p) (text : p.frames.head? = some .text) :
    Token.closeFormatted.bearsJoin k p.quotes p.rest = true := by
  have within {n : Nat} (length : Token.closeFormatted.length? p.quotes p.rest = some n) : n + k ≤ p.rest.length :=
    h.within (close_mem_lexemes reached text length) length rfl
  have long := h.lt_length
  obtain ⟨z, joined, -⟩ := exists_withJoin k p.rest
  rw [Token.bearsJoin, Bool.and_eq_true, beq_iff_eq, Option.all_eq_true]
  refine ⟨?_, fun n length => decide_eq_true (within length)⟩
  have parts := List.take_append_drop (p.rest.length - k) p.rest
  have length := List.length_take_of_le (Nat.sub_le p.rest.length k)
  have marked := reached.isMarked
  obtain ⟨c, w, begins⟩ := List.exists_cons_of_ne_nil (l := p.rest.take (p.rest.length - k)) (by
    rw [← List.length_pos_iff]
    omega)
  rw [begins] at joined parts length
  cases opened : p.quotes with
  | nil => rfl
  | cons q quotes =>
    rw [opened] at marked within
    rw [joined, List.cons_append,
      length?_closeFormatted (marked q List.mem_cons_self) (x := p.rest.drop (p.rest.length - k))]
    · rw [← List.cons_append, parts]
    · intro n read
      rw [← List.cons_append, parts] at read
      have := within read
      rw [List.length_cons] at length
      omega

end EndsBefore

theorem of_endsBefore (h : p.endsBefore k = true) : p.EndsBefore k ∧
    (p.frames.head? = some .text → Token.formattedText.bearsJoin k p.quotes p.rest = true) ∧
    (p.frames.head? = some .format → Token.formatText.bearsJoin k p.quotes p.rest = true) := by
  simp only [endsBefore, Bool.and_eq_true, decide_eq_true_eq, Bool.not_eq_true', List.isEmpty_eq_false_iff,
    List.all_eq_true] at h
  obtain ⟨⟨⟨pos, next⟩, before⟩, text⟩ := h
  refine ⟨⟨pos, next, before⟩, fun head => ?_, fun head => ?_⟩
  · rwa [head] at text
  · rwa [head] at text

end Place

/-! ### Marks and quotes before the join -/

section Heads

variable {c b : Char} {ds : List Char}

theorem exists_withJoin_cons (apart : k < (c :: ds).length) : ∃ es, withJoin k (c :: ds) = c :: es := by
  obtain ⟨n, some⟩ := Nat.exists_eq_add_of_lt apart
  have length : (c :: ds).length - k = n + 1 := by omega
  exact ⟨_, by rw [withJoin, length, List.take_succ_cons, List.cons_append]⟩

theorem beginsString_withJoin_cons (noPrefix : isStringPrefix c = false) (apart : k < (c :: ds).length) :
    beginsString (withJoin k (c :: ds)) = beginsString (c :: ds) := by
  obtain ⟨es, joined⟩ := exists_withJoin_cons apart
  rw [joined, beginsString_cons noPrefix, beginsString_cons noPrefix]

theorem length?_brace (brace : b = '\x7b' ∨ b = '\x7d') (quotes : List Quote) (c : Char) (ds : List Char) :
    (Token.mark [b]).length? quotes (c :: ds) = if c = b then some 1 else none := by
  have others : ∀ l ∈ longMarks, l ≠ [] ∧ l.head? ≠ some '\x7b' ∧ l.head? ≠ some '\x7d' := by decide
  by_cases isHead : c = b
  · subst isHead
    have longest : (longMarks.all fun l => l.length ≤ [c].length || !l.isPrefixOf (c :: ds)) = true := by
      rw [List.all_eq_true]
      intro l mem
      obtain ⟨more, noOpening, noClosing⟩ := others l mem
      obtain ⟨d, l, rfl⟩ := List.exists_cons_of_ne_nil more
      rw [Bool.or_eq_true, Bool.not_eq_true', ← Bool.not_eq_true, List.isPrefixOf_iff_prefix, List.cons_prefix_cons]
      refine .inr fun begins => ?_
      obtain ⟨rfl, -⟩ := begins
      exact brace.elim (fun same => noOpening (congrArg some same)) fun same => noClosing (congrArg some same)
    rw [Token.length?, longest]
    simp
  · simp [Token.length?, isHead, Ne.symm isHead]

theorem brace_bearsJoin (brace : b = '\x7b' ∨ b = '\x7d') (apart : k < (c :: ds).length) :
    (Token.mark [b]).bearsJoin k quotes (c :: ds) = true := by
  obtain ⟨es, joined⟩ := exists_withJoin_cons apart
  rw [Token.bearsJoin, joined, length?_brace brace, length?_brace brace, beq_self_eq_true, Bool.true_and,
    Option.all_eq_true]
  intro n length
  obtain ⟨-, same⟩ := Option.ite_none_right_eq_some.mp length
  obtain rfl := Option.some.inj same
  rw [decide_eq_true_eq]
  omega

theorem two_le_numberLength (digit : Text.isDigit c = true) (ds : List Char) : 2 ≤ Number.length ('.' :: c :: ds) := by
  have noDigit : Text.isDigit '.' = false := by decide
  have whole : Number.digits ('.' :: c :: ds) = 0 := by simp [Number.digits, Number.digitsAfter, noDigit]
  have fraction : 0 < Number.digits (c :: ds) := by
    rw [Number.digits, Number.digitsAfter, if_pos digit]
    omega
  show 2 ≤ Number.decimal ('.' :: c :: ds)
  have point : ('.' :: c :: ds).drop (Number.digits ('.' :: c :: ds)) = '.' :: c :: ds := by rw [whole, List.drop_zero]
  rw [Number.decimal_point point, if_neg (by omega)]
  dsimp only
  omega

end Heads

/-! ### States -/

section Apart

variable {l : Layout}

theorem Question.layout_bearsJoin_of_apart (apart : k < s.gap.rest.length)
    (string : beginsString (withJoin k s.gap.rest) = beginsString s.gap.rest) :
    (Question.layout l).bearsJoin k s = true := by
  simp [Question.bearsJoin, State.bearsJoin, apart, string]

theorem Question.token_bearsJoin_of_apart (spaced : t.isSpaced = true) (apart : k < s.gap.rest.length)
    (string : beginsString (withJoin k s.gap.rest) = beginsString s.gap.rest)
    (token : t.bearsJoin k s.quotes s.gap.rest = true) : (Question.token t).bearsJoin k s = true := by
  simp [Question.bearsJoin, State.bearsJoin, spaced, apart, string, token]

end Apart

/-- What has gone astray stands before the join or behind it. -/
theorem State.Astray.apart (h : s.Astray source)
    (bears : ∀ p, Reached source p → p.bearsJoin k (indentations k source) = true) :
    s.rest.length < k ∨ k < s.rest.length := by
  have before {p : Place} {w : List Char} (reached : Reached source p) (code : p.isCode = true)
      (text : p.past.rest = w ++ s.rest) (some : w ≠ [])
      (reads : p.EndsBefore k → w.length + k < p.past.rest.length) : s.rest.length < k ∨ k < s.rest.length := by
    have bears := bears p reached
    have shorter := p.length_past
    have length := congrArg List.length text
    have positive := List.length_pos_iff.mpr some
    rw [List.length_append] at length
    rw [Place.bearsJoin, Bool.or_eq_true, decide_eq_true_eq] at bears
    rcases bears with short | bears
    · exact .inl (by omega)
    split at bears
    · rename_i meets
      rw [Place.meetsJoin, Bool.and_eq_true, decide_eq_true_eq] at meets
      exact .inl (by omega)
    · have := reads (Place.of_endsBefore bears).1
      exact .inr (by omega)
  cases h with
  | letters reached code text some letters rest quote =>
    refine before reached code text some fun ends => ?_
    rw [rest] at text
    obtain ⟨q, n, opened, within, -⟩ := ends.exists_literal code (text ▸ beginsString_append letters quote)
    have more := wordLength_lt_of_opening opened
    rw [text, wordLength_letters letters quote] at more
    omega
  | @point p ds c reached code text rest digit =>
    refine before (w := ['.']) reached code text (List.cons_ne_nil _ _) fun ends => ?_
    have two := two_le_numberLength digit ds
    rw [← rest, ← text] at two
    have := ends.numberLength_le code (by omega)
    rw [List.length_singleton]
    omega

/-- Whatever is asked astray is refused with the join too. -/
theorem State.Astray.bearsJoin (h : s.Astray source) (apart : k < s.rest.length) :
    (∀ t : Token, t.isTame = true → (Question.token t).bearsJoin k s = true) ∧
      ∀ l, (Question.layout l).bearsJoin k s = true := by
  have gap : s.gap.rest = s.rest := by rw [h.gap_eq]; rfl
  obtain ⟨c, ds, rest, noMark, noStart, -⟩ := h.exists_head
  have noPrefix : isStringPrefix c = false := by
    refine Bool.eq_false_iff.mpr fun letter => ?_
    rw [(of_isStringPrefix letter).1] at noStart
    cases noStart
  have apart' : k < s.gap.rest.length := gap ▸ apart
  rw [rest] at apart
  have string : beginsString (withJoin k s.gap.rest) = beginsString s.gap.rest := by
    rw [gap, rest]
    exact beginsString_withJoin_cons noPrefix apart
  refine ⟨fun t tame => ?_, fun l => Question.layout_bearsJoin_of_apart apart' string⟩
  refine Question.token_bearsJoin_of_apart (Token.isSpaced_of_isTame tame) apart' string ?_
  obtain ⟨es, joined⟩ := exists_withJoin_cons apart
  rw [Token.bearsJoin, gap, rest, joined, Token.length?_none_of_isTame tame noMark noStart,
    Token.length?_none_of_isTame tame noMark noStart]
  rfl

/-! ### Gaps across the join -/

/-- Whether a gap breaks out of a suite is told from what it has that is indented less. -/
theorem Gap.breaksOut_congr {g g' : Gap} {m : Nat} (rest : g'.rest = g.rest)
    (below : g'.stops.map (fun n => decide (n < m)) = g.stops.map fun n => decide (n < m)) :
    g'.breaksOut m = g.breaksOut m := by
  have any (ns : List Nat) : ns.any (· < m) = (ns.map fun n => decide (n < m)).any id := by
    rw [List.any_map]
    rfl
  rw [Alike.breaksOut_eq_any, Alike.breaksOut_eq_any, rest]
  split
  · rw [any, any, List.map_dropLast, List.map_dropLast, below]
  · rw [any, any, below]

theorem Gap.breaksOut_zero (g : Gap) : g.breaksOut 0 = false := by
  simp [Gap.breaksOut]

theorem Gap.scan_joint_of_ends (ends : Gap.Ends cs) (here : Position) :
    (Gap.scan (joint ++ cs) here).stops = (Gap.scan cs here).stops ∧ (Gap.scan (joint ++ cs) here).rest = cs := by
  rw [Gap.scan, Gap.scan, Gap.scanFrom_joint rfl]
  cases cs with
  | nil => exact ⟨rfl, rfl⟩
  | cons c cs =>
    have more := List.cons_ne_nil c cs
    rw [Gap.scanFrom_next rfl more, Gap.scanFrom_next rfl more, Gap.next?_of_ends ends]
    exact ⟨rfl, rfl⟩

theorem State.IsIndented.suite_mem (h : s.IsIndented source) (le : k ≤ s.rest.length) :
    s.suite ∈ indentations k source ∨ s.suite = 0 := by
  rw [State.suite]
  cases suites : s.suites with
  | nil => exact .inr rfl
  | cons n ns =>
    obtain ⟨p, reached, outside, before, stop⟩ := h n (suites ▸ List.mem_cons_self)
    refine .inl (List.mem_filterMap.mpr ⟨p, reached_iff_mem_places.mp reached, ?_⟩)
    rw [if_pos ⟨outside, Nat.le_trans le before⟩]
    exact stop

/-- A state whose gap goes on to the join or across it, with the join put in. -/
structure State.PassesJoin (k : Nat) (s : State) (frames : List Frame) : Prop where
  le : s.gap.rest.length ≤ k
  covers : Gap.covers (s.rest.take (s.rest.length - k)) s.here = true
  rest : (s.joinedGap k).rest = s.gap.rest
  breaksOut : (s.joinedGap k).breaksOut s.suite = s.gap.breaksOut s.suite
  stops : frames = [] → (s.joinedGap k).stops = s.gap.stops

theorem State.passesJoin_of_ends (ends : Gap.Ends s.rest) (next : s.rest.length = k) (frames : List Frame) :
    s.PassesJoin k frames := by
  have joined : withJoin k s.rest = joint ++ s.rest := by
    rw [withJoin, next, Nat.sub_self]
    rfl
  have gap : s.gap.rest = s.rest := (ends s.here).1
  obtain ⟨stops, rest⟩ := Gap.scan_joint_of_ends ends s.here
  have same : (s.joinedGap k).stops = s.gap.stops ∧ (s.joinedGap k).rest = s.gap.rest := by
    rw [gap, State.joinedGap, joined]
    exact ⟨stops, rest⟩
  refine ⟨Nat.le_of_eq (gap ▸ next), ?_, same.2, Gap.breaksOut_congr same.2 (by rw [same.1]), fun _ => same.1⟩
  rw [next, Nat.sub_self]
  rfl

/-- A gap that goes on across the join ends where it did. -/
theorem Place.rest_joinedGap (reached : Reached source p) (le : k ≤ p.rest.length)
    (covers : Gap.covers (p.rest.take (p.rest.length - k)) p.here = true) : (p.joinedGap k).rest = p.gap.rest := by
  obtain ⟨before, -, here⟩ := reached.standsIn.place
  have long : (p.rest.drop (p.rest.length - k)).length = k := by
    rw [List.length_drop]
    omega
  have through := (Gap.scan_through (a := before ++ p.rest.take (p.rest.length - k)) (p.rest.drop (p.rest.length - k)) rfl
    (here ▸ covers)).2
  rw [List.take_append_drop, ← here] at through
  exact through

theorem State.At.passesJoin (h : s.At p) (reached : Reached source p) (indented : s.IsIndented source)
    (le : k ≤ s.rest.length) (meets : p.meetsJoin k = true) (passes : p.passesJoin k (indentations k source) = true) :
    s.PassesJoin k p.frames := by
  rw [Place.meetsJoin, Bool.and_eq_true, decide_eq_true_eq] at meets
  rw [Place.passesJoin, Bool.and_eq_true, Bool.or_eq_true, beq_iff_eq] at passes
  obtain ⟨covers, stops⟩ := passes
  rcases h.text with ⟨rest, here⟩ | ⟨rest, -⟩
  · have joinedGap : s.joinedGap k = p.joinedGap k := by rw [State.joinedGap, Place.joinedGap, rest, here]
    have gap : s.gap = p.gap := by rw [State.gap, Place.gap, rest, here]
    have same : (p.joinedGap k).rest = p.gap.rest := Place.rest_joinedGap reached (rest ▸ le) covers
    refine ⟨gap ▸ meets.2, rest ▸ here ▸ covers, by rw [joinedGap, gap, same], ?_, fun outside => ?_⟩
    · rw [joinedGap, gap]
      rcases stops with stops | stops
      · exact Gap.breaksOut_congr same (by rw [stops])
      · rw [Bool.and_eq_true, List.all_eq_true] at stops
        rcases indented.suite_mem le with mem | zero
        · exact Gap.breaksOut_congr same (beq_iff_eq.mp (stops.2 _ mem))
        · rw [zero, Gap.breaksOut_zero, Gap.breaksOut_zero]
    · rw [joinedGap, gap]
      refine stops.resolve_right fun stops => ?_
      rw [outside] at stops
      exact absurd (Bool.and_eq_true_iff.mp stops).1 Bool.false_ne_true
  · exact State.passesJoin_of_ends (rest ▸ p.ends_past) (Nat.le_antisymm (rest ▸ meets.2) le) p.frames

namespace State.PassesJoin

variable {frames : List Frame} (h : s.PassesJoin k frames)
include h

theorem bearsJoin : s.bearsJoin k = true := by
  rw [State.bearsJoin, if_neg (Nat.not_lt_of_le h.le)]
  exact h.covers

theorem lead_bearsJoin : Layout.lead.bearsJoin s (s.joinedGap k) = true := by
  rw [Layout.bearsJoin, h.breaksOut, beq_self_eq_true, Bool.or_true]

theorem token_bearsJoin (spaced : t.isSpaced = true) : (Question.token t).bearsJoin k s = true := by
  simp [Question.bearsJoin, spaced, h.bearsJoin, h.lead_bearsJoin, Nat.not_lt_of_le h.le]

theorem layout_bearsJoin {l : Layout} (asked : l.IsAskedAt p) (same : p.frames = frames) :
    (Question.layout l).bearsJoin k s = true := by
  have bears : l.bearsJoin s (s.joinedGap k) = true := by
    cases l with
    | lead => exact h.lead_bearsJoin
    | glue => rw [Layout.bearsJoin, h.breaksOut, beq_self_eq_true]
    | newline | finish => rfl
    | line | dedent =>
      rw [Layout.bearsJoin, Gap.leaves, Gap.leaves, h.stops (same.symm.trans asked), beq_self_eq_true]
    | indent => rw [Layout.bearsJoin, h.stops (same.symm.trans asked), beq_self_eq_true]
  rw [Question.bearsJoin, h.bearsJoin, bears, Bool.or_true, Bool.and_true, Bool.or_true]

end State.PassesJoin

/-! ### All that is asked -/

/-- A place that the join is behind or before, or in the gap of. -/
theorem Place.cases_bearsJoin {suites : List Nat} (bears : p.bearsJoin k suites = true) (le : k ≤ p.rest.length) :
    p.meetsJoin k = true ∧ p.passesJoin k suites = true ∨
      (p.isCode = true → k < p.past.rest.length) ∧ p.endsBefore k = true := by
  rw [bearsJoin, Bool.or_eq_true, decide_eq_true_eq] at bears
  have bears := bears.resolve_left (Nat.not_lt_of_le le)
  split at bears
  · exact .inl ⟨‹_›, bears⟩
  · rename_i apart
    refine .inr ⟨fun code => ?_, bears⟩
    rw [meetsJoin, code, Bool.true_and, decide_eq_true_eq] at apart
    exact Nat.lt_of_not_le apart

theorem Token.isSpaced_of_isAskedAt (code : p.isCode = true) (asked : t.IsAskedAt p) : t.isSpaced = true := by
  have content {f : Frame} (head : p.frames.head? = some f) : f.isCode = true := by
    rw [Place.isCode, head] at code
    exact code
  cases t with
  | formattedText | closeFormatted | formatText => cases content asked
  | _ => rfl

/-- A token that is asked for before the join is the same with it. -/
theorem Place.EndsBefore.token_bearsJoin (h : p.EndsBefore k) (code : p.isCode = true) (apart : k < p.past.rest.length)
    (asked : t.IsAskedAt p) : t.bearsJoin k p.quotes p.past.rest = true := by
  refine (h.endsWithin code apart).bearsJoin (Nat.le_of_lt apart) (Token.isSpaced_of_isAskedAt code asked) ?_ ?_
  · rintro m rfl
    exact asked.1
  · rintro rfl n length
    have field : p.frames.head? = some .field := asked
    have begins : ∃ ds, p.past.rest = '!' :: ds := by
      simp only [Token.length?] at length
      split at length
      · exact ⟨_, ‹_›⟩
      · cases length
    obtain ⟨ds, begins⟩ := begins
    exact h.within (conversion_mem_lexemes field begins (by decide) (by decide)).1 length rfl

/-- Where the layout or a mark is asked for before the join, the gap ends before it. -/
theorem State.At.apart (h : s.At p) (ends : p.EndsBefore k) (reached : Reached source p)
    (apart : p.isCode = true → k < p.past.rest.length) (spent : p.isSpent = true) :
    k < s.gap.rest.length ∧ beginsString (withJoin k s.gap.rest) = beginsString s.gap.rest := by
  have gap : s.gap.rest = p.past.rest := h.past_gap.1
  rw [gap]
  cases code : p.isCode with
  | true => exact ⟨apart code, (ends.endsWithin code (apart code)).beginsString_withJoin⟩
  | false =>
    obtain ⟨long, c, ds, begins, known⟩ := ends.exists_head reached code spent
    have noPrefix : isStringPrefix c = false := by
      rcases known with rfl | rfl | quote
      · rfl
      · rfl
      · exact (isIdentifierRest_of_isQuoteMark quote).2.2.1
    refine ⟨long, ?_⟩
    rw [begins] at long ⊢
    exact beginsString_withJoin_cons noPrefix long

/-- Before the join, the parts of a string or format are the same with it. -/
theorem Place.EndsBefore.content_bearsJoin (h : p.EndsBefore k) (reached : Reached source p)
    (content : p.isCode = false)
    (texts : (p.frames.head? = some .text → Token.formattedText.bearsJoin k p.quotes p.rest = true) ∧
      (p.frames.head? = some .format → Token.formatText.bearsJoin k p.quotes p.rest = true))
    (stands : s.At p) (unspaced : t.isSpaced = false → s.rest = p.rest) (asked : t.IsAskedAt p) :
    (Question.token t).bearsJoin k s = true := by
  have noCode {α : Prop} (code : p.isCode = true) : α := by
    rw [content] at code
    cases code
  have field {α : Prop} (head : p.frames.head? = some .field) : α := noCode (Place.isCode_of_head head rfl)
  have direct (unspaced' : t.isSpaced = false) (bears : t.bearsJoin k p.quotes p.rest = true) :
      (Question.token t).bearsJoin k s = true := by
    simp [Question.bearsJoin, unspaced', unspaced unspaced', stands.quotes, bears]
  cases t with
  | mark m =>
    obtain ⟨-, spent, brace, -⟩ := asked
    obtain ⟨apart, string⟩ := stands.apart h reached noCode spent
    refine Question.token_bearsJoin_of_apart rfl apart string ?_
    have gap : s.gap.rest = p.past.rest := stands.past_gap.1
    obtain ⟨long, c, ds, begins, -⟩ := h.exists_head reached content spent
    rw [begins] at long
    rw [gap, begins]
    rcases brace.resolve_left noCode with rfl | rfl
    · exact brace_bearsJoin (.inl rfl) long
    · exact brace_bearsJoin (.inr rfl) long
  | keyword | name | number | plainString | openFormatted => exact noCode asked
  | formattedText => exact direct rfl (texts.1 asked)
  | closeFormatted => exact direct rfl (h.closeFormatted_bearsJoin reached asked)
  | formatText => exact direct rfl (texts.2 asked)
  | conversion | colon => exact field asked

/-- Whatever is asked in a reading is answered alike if the join stands between two lexemes. -/
theorem Question.IsAsked.bearsJoin {q : Question} (h : q.IsAsked source s)
    (bears : ∀ p, Reached source p → p.bearsJoin k (indentations k source) = true) : q.bearsJoin k s = true := by
  by_cases short : s.rest.length < k
  · cases q <;> simp [Question.bearsJoin, short]
  have le := Nat.le_of_not_lt short
  cases h with
  | @token t p indented reached stands unspaced asked =>
    have le' := Nat.le_trans le stands.length_le
    rcases Place.cases_bearsJoin (bears p reached) le' with ⟨meets, passes⟩ | ⟨apart, ends⟩
    · have spaced := Token.isSpaced_of_isAskedAt (Bool.and_eq_true_iff.mp meets).1 asked
      exact (stands.passesJoin reached indented le meets passes).token_bearsJoin spaced
    · obtain ⟨ends, texts⟩ := Place.of_endsBefore ends
      cases code : p.isCode with
      | true =>
        have gap : s.gap.rest = p.past.rest := stands.past_gap.1
        obtain ⟨long, string⟩ := stands.apart ends reached apart (Place.isSpent_of_isCode code)
        refine Question.token_bearsJoin_of_apart (Token.isSpaced_of_isAskedAt code asked) long string ?_
        rw [gap, stands.quotes]
        exact ends.token_bearsJoin code (apart code) asked
      | false =>
        exact ends.content_bearsJoin reached code texts stands (fun unspaced' => (unspaced unspaced').1) asked
  | @layout l p indented reached stands asked =>
    have le' := Nat.le_trans le stands.length_le
    rcases Place.cases_bearsJoin (bears p reached) le' with ⟨meets, passes⟩ | ⟨apart, ends⟩
    · exact (stands.passesJoin reached indented le meets passes).layout_bearsJoin asked rfl
    · have spent : p.isSpent = true := by
        cases l with
        | lead => exact asked
        | glue | newline | finish => exact Place.isSpent_of_isCode asked
        | line | indent | dedent => exact Place.isSpent_of_isCode (Place.isCode_of_nil asked)
      obtain ⟨long, string⟩ := stands.apart (Place.of_endsBefore ends).1 reached apart spent
      exact Question.layout_bearsJoin_of_apart long string
  | astray gone tame =>
    exact (gone.bearsJoin ((gone.apart bears).resolve_left short)).1 _ tame
  | astrayLayout gone => exact (gone.bearsJoin ((gone.apart bears).resolve_left short)).2 _

end Footprint.Syntax
