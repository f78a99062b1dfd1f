import Footprint.Proofs.Text.Characters
import Footprint.Proofs.Toml.Spelling

/-!
# What readers of TOML yield: lines, strings and keys

A reader reads a text if it comes through it and leaves what follows. Strings are read from any of their spellings, and
so are keys.
-/

namespace Footprint.Toml

open Text

variable {α β : Type} {r : Reader α} {k : α → Reader β} {x : α} {y : β} {text middle left rest w : List Char}

def Reads (r : Reader α) (text : List Char) (x : α) (left : List Char) : Prop := r text = some (x, left)

theorem Reads.bind (first : Reads r text x middle) (second : Reads (k x) middle y left) :
    Reads (r >>= k) text y left := by
  unfold Reads at first second
  show (r text).bind (fun p => k p.1 p.2) = some (y, left)
  rw [first]
  exact second

theorem Reads.bind_eq_none (first : Reads r text x middle) (h : k x middle = none) : (r >>= k) text = none := by
  show (r text).bind (fun p => k p.1 p.2) = none
  rw [first]
  exact h

theorem bind_eq_none (h : r text = none) : (r >>= k) text = none := by
  show (r text).bind (fun p => k p.1 p.2) = none
  rw [h]
  rfl

theorem reads_pure : Reads (pure x : Reader α) text x text := rfl

theorem reads_peek : Reads peek text text.head? text := rfl

theorem reads_pass (c : Char) : Reads (pass c) (c :: text) () text := if_pos rfl

/-! ### Between tokens -/

def Solid (text : List Char) : Prop := ∀ c ∈ text.head?, isBlank c = false

theorem solid_cons {c : Char} (h : isBlank c = false) : Solid (c :: text) := fun _ same => by
  cases same
  exact h

theorem dropWhile_of_head {p : Char → Bool} (h : ∀ c ∈ text.head?, p c = false) : text.dropWhile p = text := by
  cases text with
  | nil => rfl
  | cons c text => rw [List.dropWhile_cons, h c rfl, if_neg Bool.false_ne_true]

theorem dropWhile_append {p : Char → Bool} (all : ∀ c ∈ w, p c = true) (h : ∀ c ∈ text.head?, p c = false) :
    (w ++ text).dropWhile p = text := by
  rw [List.dropWhile_append_of_pos all, dropWhile_of_head h]

theorem takeWhile_append {p : Char → Bool} (all : ∀ c ∈ w, p c = true) (h : ∀ c ∈ text.head?, p c = false) :
    (w ++ text).takeWhile p = w := by
  rw [List.takeWhile_append_of_pos all]
  cases text with
  | nil => exact List.append_nil w
  | cons c text => rw [List.takeWhile_cons, h c rfl, if_neg Bool.false_ne_true, List.append_nil]

theorem reads_skipBlanks (blanks : IsBlanks w) (solid : Solid text) : Reads skipBlanks (w ++ text) () text :=
  congrArg (fun cs => some ((), cs)) (dropWhile_append blanks solid)

theorem afterBreak?_append {n : List Char} (h : IsBreak n) : afterBreak? (n ++ text) = some text := by
  cases h <;> rfl

/-- A text that is no layout and does not begin with any. -/
def StartsToken (text : List Char) : Prop := ∀ c ∈ text.head?, c ≠ '\n' ∧ c ≠ '\r' ∧ c ≠ '#' ∧ isBlank c = false

theorem dropLayout_of_startsToken (h : StartsToken text) : dropLayout false text = text := by
  cases text with
  | nil => rw [dropLayout]
  | cons c text =>
    obtain ⟨feed, ret, hash, blank⟩ := h c rfl
    simp [dropLayout.eq_def, feed, ret, hash, blank]

theorem isBlank_cases {c : Char} (h : isBlank c = true) : c = ' ' ∨ c = '\t' := by
  simpa [isBlank] using h

theorem dropLayout_break {n : List Char} (h : IsBreak n) (inComment : Bool) :
    dropLayout inComment (n ++ text) = dropLayout false text := by
  cases h with
  | feed =>
    rw [List.singleton_append, dropLayout.eq_def]
    rfl
  | both => rfl

theorem isVerbatim_ne_break {c : Char} (h : isVerbatim c = true) : c ≠ '\n' ∧ c ≠ '\r' := by
  constructor
  · rintro rfl
    cases h
  · rintro rfl
    cases h

theorem dropLayout_comment {cs : List Char} (h : AreVerbatim cs) (text : List Char) :
    dropLayout true (cs ++ text) = dropLayout true text := by
  induction cs with
  | nil => rfl
  | cons c cs ih =>
    have verbatim := h c List.mem_cons_self
    obtain ⟨feed, ret⟩ := isVerbatim_ne_break verbatim
    rw [← ih fun c mem => h c (List.mem_cons_of_mem _ mem), List.cons_append, dropLayout.eq_def]
    simp only [feed, ret, verbatim, if_true, if_false]

theorem dropLayout_append (layout : IsLayout w) (h : StartsToken text) : dropLayout false (w ++ text) = text := by
  induction layout with
  | nil => exact dropLayout_of_startsToken h
  | blank blank _ ih =>
    rcases isBlank_cases blank with rfl | rfl
    all_goals
      rw [List.cons_append, dropLayout.eq_def]
      exact ih
  | line h _ ih =>
    rw [List.append_assoc, dropLayout_break h]
    exact ih
  | comment comment h _ ih =>
    obtain ⟨verbatim⟩ := comment
    have opened (cs : List Char) : dropLayout false ('#' :: cs) = dropLayout true cs := by
      rw [dropLayout.eq_def]
      rfl
    rw [List.append_assoc, List.cons_append, opened, dropLayout_comment verbatim, List.append_assoc, dropLayout_break h]
    exact ih

theorem reads_skipLayout (layout : IsLayout w) (h : StartsToken text) : Reads skipLayout (w ++ text) () text :=
  congrArg (fun cs => some ((), cs)) (dropLayout_append layout h)

/-! ### Strings of one line -/

theorem hexEscape?_code {c : Char} {width : Nat} {ds : List Char} (h : SpellsCode width c.toNat ds) :
    hexEscape? ds = some c := by
  obtain ⟨-, hex, value⟩ := h
  rw [hexEscape?, if_pos (List.all_eq_true.mpr hex), value, charOf?_toNat]

theorem exists_of_length_four {ds : List Char} (h : ds.length = 4) : ∃ a b c d, ds = [a, b, c, d] := by
  match ds, h with
  | [a, b, c, d], _ => exact ⟨a, b, c, d, rfl⟩

theorem exists_of_length_eight {ds : List Char} (h : ds.length = 8) :
    ∃ a b c d e f g i, ds = [a, b, c, d, e, f, g, i] := by
  match ds, h with
  | [a, b, c, d, e, f, g, i], _ => exact ⟨a, b, c, d, e, f, g, i, rfl⟩

theorem basicFrom_char {c : Char} {t : List Char} (h : SpellsChar c t) :
    basicFrom (t ++ text) = prepend c (basicFrom text) := by
  cases h with
  | verbatim verbatim quote slash =>
    rw [List.singleton_append, basicFrom.eq_def]
    simp [quote, slash, verbatim]
  | short code =>
    obtain ⟨a, b, c, d, rfl⟩ := exists_of_length_four code.1
    rw [List.cons_append, basicFrom.eq_def]
    simp [hexEscape?_code code]
  | long code =>
    obtain ⟨a, b, c, d, e, f, g, i, rfl⟩ := exists_of_length_eight code.1
    rw [List.cons_append, basicFrom.eq_def]
    simp [hexEscape?_code code]
  | _ =>
    rw [List.cons_append, basicFrom.eq_def]
    rfl

theorem basicFrom_chars {cs ts : List Char} (h : SpellsChars cs ts) :
    basicFrom (ts ++ '"' :: text) = some (cs, text) := by
  induction h with
  | nil =>
    rw [List.nil_append, basicFrom.eq_def]
    rfl
  | cons first _ ih => rw [List.append_assoc, basicFrom_char first, ih, prepend, Option.map_some]

theorem literalFrom_chars {cs : List Char} (h : AreVerbatim cs) (free : '\'' ∉ cs) :
    literalFrom (cs ++ '\'' :: text) = some (cs, text) := by
  induction cs with
  | nil => rw [List.nil_append, literalFrom, if_pos rfl]
  | cons c cs ih =>
    rw [List.mem_cons, not_or] at free
    have others := ih (fun c mem => h c (List.mem_cons_of_mem _ mem)) free.2
    rw [List.cons_append, literalFrom, if_neg (Ne.symm free.1), if_pos (h c List.mem_cons_self), others, prepend,
      Option.map_some]

theorem shortText?_append {s : String} {ts : List Char} (h : SpellsShort s ts) :
    shortText? (ts ++ text) = some (s.toList, text) := by
  cases h with
  | basic chars =>
    rw [List.cons_append, List.append_assoc, shortText?]
    exact basicFrom_chars chars
  | literal verbatim free =>
    rw [List.cons_append, List.append_assoc, shortText?]
    exact literalFrom_chars verbatim free

/-! ### Strings of several lines -/

theorem plain_of_feed_or_verbatim {c : Char} (h : c = '\n' ∨ isVerbatim c = true) :
    c ≠ '\r' ∧ (c == '\n' || isVerbatim c) = true := by
  rcases h with rfl | verbatim
  · exact ⟨by decide, rfl⟩
  · exact ⟨(isVerbatim_ne_break verbatim).2, by rw [verbatim, Bool.or_true]⟩

theorem closing_final {quote : Char} {q : List Char} (final : AreFinal quote q) (ends : text.head? ≠ some quote) :
    closing quote (q ++ text) = (q, text) := by
  have other (c : Char) (cs : List Char) (same : text = c :: cs) : c ≠ quote := fun eq => ends (by rw [same, eq]; rfl)
  rcases final with rfl | rfl | rfl
  · match text, other with
    | [], _ => rfl
    | [c], other => exact if_neg (other c [] rfl)
    | c :: d :: cs, other => exact if_neg (other c (d :: cs) rfl)
  · cases text with
    | nil => exact if_pos rfl
    | cons c cs => simp [closing, other c cs rfl]
  · simp [closing]

theorem dropBlankLines_append {v : List Char} (lines : AreBlankLines v)
    (ends : ∀ c ∈ text.head?, c ∉ [' ', '\t', '\n', '\r']) : afterJoin?.dropBlankLines (v ++ text) = text := by
  induction lines with
  | nil =>
    cases text with
    | nil => rfl
    | cons c text =>
      have other := ends c rfl
      rw [List.nil_append, afterJoin?.dropBlankLines.eq_def]
      simp_all [isBlank]
  | blank blank _ ih =>
    rcases isBlank_cases blank with rfl | rfl
    all_goals
      rw [List.cons_append, afterJoin?.dropBlankLines.eq_def]
      exact ih
  | line h _ ih =>
    cases h with
    | feed =>
      rw [List.append_assoc, List.singleton_append, afterJoin?.dropBlankLines.eq_def]
      exact ih
    | both =>
      rw [List.append_assoc, List.cons_append, afterJoin?.dropBlankLines.eq_def]
      exact ih

theorem afterJoin?_join {n v : List Char} (blanks : IsBlanks w) (line : IsBreak n) (lines : AreBlankLines v)
    (ends : ∀ c ∈ text.head?, c ∉ [' ', '\t', '\n', '\r']) : afterJoin? (w ++ (n ++ (v ++ text))) = some text := by
  have solid : Solid (n ++ (v ++ text)) := by
    cases line with
    | feed => exact solid_cons rfl
    | both => exact solid_cons rfl
  rw [afterJoin?, dropWhile_append blanks solid, afterBreak?_append line, Option.map_some]
  exact congrArg some (dropBlankLines_append lines ends)

section

variable {f : Nat}

theorem longBasicFrom_verbatim {c : Char} (quote : c ≠ '"') (slash : c ≠ '\\') (h : c = '\n' ∨ isVerbatim c = true) :
    longBasicFrom (f + 1) (c :: text) = prepend c (longBasicFrom f text) := by
  obtain ⟨ret, plain⟩ := plain_of_feed_or_verbatim h
  rw [longBasicFrom.eq_def]
  simp only
  split
  · exact absurd rfl quote
  · exact absurd rfl slash
  · exact absurd rfl slash
  · exact absurd rfl slash
  · exact absurd rfl ret
  · exact if_pos (by simpa using plain)

theorem longBasicFrom_char {c : Char} {t : List Char} (h : SpellsChar c t) :
    longBasicFrom (f + 1) (t ++ text) = prepend c (longBasicFrom f text) := by
  cases h with
  | verbatim verbatim quote slash => exact longBasicFrom_verbatim quote slash (.inr verbatim)
  | short code =>
    obtain ⟨a, b, c, d, rfl⟩ := exists_of_length_four code.1
    rw [List.cons_append, longBasicFrom.eq_def]
    simp [hexEscape?_code code]
  | long code =>
    obtain ⟨a, b, c, d, e, f, g, i, rfl⟩ := exists_of_length_eight code.1
    rw [List.cons_append, longBasicFrom.eq_def]
    simp [hexEscape?_code code]
  | _ =>
    rw [List.cons_append, longBasicFrom.eq_def]
    rfl

theorem longBasicFrom_break {n : List Char} (h : IsBreak n) :
    longBasicFrom (f + 1) (n ++ text) = prepend '\n' (longBasicFrom f text) := by
  cases h with
  | feed => exact longBasicFrom_verbatim (by decide) (by decide) (.inl rfl)
  | both => rw [List.cons_append, longBasicFrom.eq_def]; rfl

theorem longBasicFrom_quote (h : ∀ ts, text ≠ '"' :: '"' :: ts) :
    longBasicFrom (f + 1) ('"' :: text) = prepend '"' (longBasicFrom f text) := by
  rw [longBasicFrom.eq_def]
  simp only
  split
  · rename_i ts same
    exact absurd rfl (h ts)
  · contradiction
  · contradiction
  · contradiction
  · contradiction
  · rfl

theorem longBasicFrom_join {n v : List Char} (blanks : IsBlanks w) (line : IsBreak n) (lines : AreBlankLines v)
    (ends : ∀ c ∈ text.head?, c ∉ [' ', '\t', '\n', '\r']) :
    longBasicFrom (f + 1) ('\\' :: (w ++ (n ++ (v ++ text)))) = longBasicFrom f text := by
  have after := afterJoin?_join blanks line lines ends
  have first : ∃ c cs, w ++ (n ++ (v ++ text)) = c :: cs ∧ c ≠ 'u' ∧ c ≠ 'U' := by
    cases w with
    | nil => cases line <;> exact ⟨_, _, rfl, by decide, by decide⟩
    | cons c w =>
      rcases isBlank_cases (blanks c List.mem_cons_self) with rfl | rfl <;>
        exact ⟨_, _, rfl, by decide, by decide⟩
  obtain ⟨c, cs, same, short, long⟩ := first
  rw [same] at after ⊢
  rw [longBasicFrom.eq_def]
  simp [short, long, after]

theorem longBasicFrom_close {q : List Char} (final : AreFinal '"' q) (ends : text.head? ≠ some '"') :
    longBasicFrom (f + 1) (q ++ ['"', '"', '"'] ++ text) = some (q, text) := by
  have closed : q ++ ['"', '"', '"'] ++ text = '"' :: '"' :: '"' :: (q ++ text) := by
    rcases final with rfl | rfl | rfl <;> rfl
  rw [closed, longBasicFrom.eq_def]
  exact congrArg some (closing_final final ends)

theorem SpellsLongBasic.ne_nil {cs ts : List Char} (h : SpellsLongBasic cs ts) : ts ≠ [] := by
  induction h with
  | close _ => simp
  | char first _ _ => cases first <;> simp
  | line first _ _ => cases first <;> simp
  | quotes _ _ ih => simp [ih]
  | join _ _ _ _ _ _ => simp

/-- The fuel bounds the number of characters. -/
theorem longBasicFrom_append {cs ts : List Char} (h : SpellsLongBasic cs ts) (ends : text.head? ≠ some '"')
    (enough : ts.length ≤ f) : longBasicFrom f (ts ++ text) = some (cs, text) := by
  induction h generalizing f with
  | close final =>
    cases f with
    | zero => simp at enough
    | succ f => exact longBasicFrom_close final ends
  | @char c _ t _ first _ ih =>
    have pos : 0 < t.length := by cases first <;> simp
    rw [List.length_append] at enough
    obtain ⟨f, rfl⟩ : ∃ g, f = g + 1 := ⟨f - 1, by omega⟩
    rw [List.append_assoc, longBasicFrom_char first, ih (by omega), prepend, Option.map_some]
  | @line _ n _ first _ ih =>
    have pos : 0 < n.length := by cases first <;> simp
    rw [List.length_append] at enough
    obtain ⟨f, rfl⟩ : ∃ g, f = g + 1 := ⟨f - 1, by omega⟩
    rw [List.append_assoc, longBasicFrom_break first, ih (by omega), prepend, Option.map_some]
  | @quotes q cs ts inner rest ih =>
    obtain ⟨few, other⟩ := inner
    obtain ⟨c, us, rfl⟩ := List.exists_cons_of_ne_nil rest.ne_nil
    have far : c ≠ '"' := fun same => other (congrArg some same)
    rcases few with rfl | rfl
    · obtain ⟨f, rfl⟩ : ∃ g, f = g + 1 := ⟨f - 1, by simp at enough; omega⟩
      have read := ih (f := f) (by simp at enough ⊢; omega)
      have first : longBasicFrom (f + 1) ('"' :: (c :: us ++ text)) = _ := longBasicFrom_quote (by simp [far])
      rw [List.append_assoc, List.singleton_append, first, read, prepend, Option.map_some]
      rfl
    · obtain ⟨f, rfl⟩ : ∃ g, f = g + 2 := ⟨f - 2, by simp at enough; omega⟩
      have read := ih (f := f) (by simp at enough ⊢; omega)
      have first : longBasicFrom (f + 2) ('"' :: '"' :: (c :: us ++ text)) = _ := longBasicFrom_quote (by simp [far])
      have second : longBasicFrom (f + 1) ('"' :: (c :: us ++ text)) = _ := longBasicFrom_quote (by simp [far])
      rw [List.append_assoc, List.cons_append, List.singleton_append, first, second, read]
      rfl
  | @join cs w n v ts blanks line lines free rest ih =>
    obtain ⟨f, rfl⟩ : ∃ g, f = g + 1 := ⟨f - 1, by simp at enough; omega⟩
    obtain ⟨c, us, rfl⟩ := List.exists_cons_of_ne_nil rest.ne_nil
    have joined : longBasicFrom (f + 1) ('\\' :: (w ++ (n ++ (v ++ (c :: us ++ text))))) = _ :=
      longBasicFrom_join blanks line lines fun d mem => free d mem
    rw [List.cons_append, List.append_assoc, List.append_assoc, List.append_assoc, joined]
    refine ih ?_
    simp at enough ⊢
    omega

end

theorem longLiteralFrom_char {c : Char} (quote : c ≠ '\'') (h : c = '\n' ∨ isVerbatim c = true) :
    longLiteralFrom (c :: text) = prepend c (longLiteralFrom text) := by
  obtain ⟨ret, plain⟩ := plain_of_feed_or_verbatim h
  rw [longLiteralFrom.eq_def]
  simp only
  split
  · exact absurd rfl quote
  · exact absurd rfl ret
  · exact if_pos (by simpa using plain)

theorem longLiteralFrom_break {n : List Char} (h : IsBreak n) :
    longLiteralFrom (n ++ text) = prepend '\n' (longLiteralFrom text) := by
  cases h with
  | feed => exact longLiteralFrom_char (by decide) (.inl rfl)
  | both => rw [List.cons_append, longLiteralFrom.eq_def]; rfl

theorem longLiteralFrom_quote (h : ∀ ts, text ≠ '\'' :: '\'' :: ts) :
    longLiteralFrom ('\'' :: text) = prepend '\'' (longLiteralFrom text) := by
  rw [longLiteralFrom.eq_def]
  simp only
  split
  · rename_i ts same
    exact absurd rfl (h ts)
  · contradiction
  · rfl

theorem longLiteralFrom_close {q : List Char} (final : AreFinal '\'' q) (ends : text.head? ≠ some '\'') :
    longLiteralFrom (q ++ ['\'', '\'', '\''] ++ text) = some (q, text) := by
  have closed : q ++ ['\'', '\'', '\''] ++ text = '\'' :: '\'' :: '\'' :: (q ++ text) := by
    rcases final with rfl | rfl | rfl <;> rfl
  rw [closed, longLiteralFrom.eq_def]
  exact congrArg some (closing_final final ends)

theorem SpellsLongLiteral.ne_nil {cs ts : List Char} (h : SpellsLongLiteral cs ts) : ts ≠ [] := by
  induction h with
  | close _ => simp
  | char _ _ _ _ => simp
  | line first _ _ => cases first <;> simp
  | quotes _ _ ih => simp [ih]

theorem longLiteralFrom_append {cs ts : List Char} (h : SpellsLongLiteral cs ts) (ends : text.head? ≠ some '\'') :
    longLiteralFrom (ts ++ text) = some (cs, text) := by
  induction h with
  | close final => exact longLiteralFrom_close final ends
  | char verbatim quote _ ih =>
    rw [List.cons_append, longLiteralFrom_char quote (.inr verbatim), ih, prepend, Option.map_some]
  | line first _ ih => rw [List.append_assoc, longLiteralFrom_break first, ih, prepend, Option.map_some]
  | @quotes q cs ts inner rest ih =>
    obtain ⟨few, other⟩ := inner
    obtain ⟨c, us, rfl⟩ := List.exists_cons_of_ne_nil rest.ne_nil
    have far : c ≠ '\'' := fun same => other (congrArg some same)
    have last : longLiteralFrom ('\'' :: (c :: us ++ text)) = some ('\'' :: cs, text) := by
      rw [longLiteralFrom_quote (by simp [far]), ih, prepend, Option.map_some]
    rcases few with rfl | rfl
    · exact last
    · rw [List.append_assoc, List.cons_append, List.singleton_append, longLiteralFrom_quote (by simp [far]), last]
      rfl

/-! ### Strings -/

theorem dropBreak_append {n ts : List Char} (h : Opens n ts) (nonempty : ts ≠ []) :
    dropBreak (n ++ (ts ++ text)) = ts ++ text := by
  rcases h with line | ⟨rfl, other⟩
  · rw [dropBreak, afterBreak?_append line, Option.getD_some]
  · obtain ⟨c, us, rfl⟩ := List.exists_cons_of_ne_nil nonempty
    obtain ⟨feed, ret⟩ := other c rfl
    rw [dropBreak]
    simp [afterBreak?, feed, ret]

theorem SpellsChars.far {cs ts : List Char} (h : SpellsChars cs ts) (ends : text.head? ≠ some '"') (us : List Char) :
    ts ++ '"' :: text ≠ '"' :: '"' :: us := by
  cases h with
  | nil =>
    intro same
    exact ends (by rw [(List.cons.inj same).2]; rfl)
  | cons first _ =>
    intro same
    cases first with
    | verbatim _ quote _ => exact quote (List.cons.inj same).1
    | _ => cases (List.cons.inj same).1

theorem text?_short {s : String} {ts : List Char} (h : SpellsShort s ts) (ends : ∀ c ∈ text.head?, c ≠ '"' ∧ c ≠ '\'') :
    text? (ts ++ text) = shortText? (ts ++ text) := by
  unfold text?
  split
  · rename_i us same
    cases h with
    | basic chars =>
      rw [List.cons_append, List.append_assoc, List.cons.injEq] at same
      exact absurd same.2 (chars.far (fun quote => (ends _ quote).1 rfl) us)
    | literal _ _ => cases same
  · rename_i us same
    cases h with
    | basic _ => cases same
    | literal _ free =>
      rw [List.cons_append, List.append_assoc, List.cons.injEq] at same
      cases chars : s.toList with
      | nil =>
        rw [chars] at same
        have left : text = '\'' :: us := (List.cons.inj same.2).2
        exact absurd rfl (ends '\'' (by rw [left]; rfl)).2
      | cons c cs =>
        rw [chars] at same free
        rw [(List.cons.inj same.2).1] at free
        exact absurd List.mem_cons_self free
  · rfl

/-- A string is read from any of its spellings, unless it could go on. -/
theorem reads_text {s : String} {ts : List Char} (h : SpellsText s ts)
    (ends : ∀ c ∈ text.head?, c ≠ '"' ∧ c ≠ '\'') : Reads Toml.text (ts ++ text) s text := by
  have noQuote : text.head? ≠ some '"' := fun same => (ends '"' same).1 rfl
  have noTick : text.head? ≠ some '\'' := fun same => (ends '\'' same).2 rfl
  have read : text? (ts ++ text) = some (s.toList, text) := by
    cases h with
    | short short => rw [text?_short short ends, shortText?_append short]
    | longBasic opens long =>
      simp only [List.cons_append, List.append_assoc, text?]
      rw [dropBreak_append opens long.ne_nil]
      exact longBasicFrom_append long noQuote (by simp; omega)
    | longLiteral opens long =>
      simp only [List.cons_append, List.append_assoc, text?]
      rw [dropBreak_append opens long.ne_nil]
      exact longLiteralFrom_append long noTick
  rw [Reads, Toml.text, asString, read, Option.map_some]
  simp only [String.ofList_toList]

/-! ### Keys -/

theorem isBare_ne {c : Char} (h : isBare c = true) : c ≠ '"' ∧ c ≠ '\'' ∧ isBlank c = false := by
  refine ⟨?_, ?_, ?_⟩
  · rintro rfl
    cases h
  · rintro rfl
    cases h
  · cases blank : isBlank c with
    | false => rfl
    | true =>
      rcases isBlank_cases blank with rfl | rfl
      all_goals cases h

theorem keyPart_quoted {q : Char} (h : q = '"' ∨ q = '\'') (cs : List Char) :
    keyPart (q :: cs) = asString shortText? (q :: cs) := by
  rcases h with rfl | rfl <;> rfl

theorem keyPart_bare {c : Char} (quote : c ≠ '"') (tick : c ≠ '\'') (cs : List Char) (nonempty : isBare c = true) :
    keyPart (c :: cs) = some (String.ofList ((c :: cs).takeWhile isBare), (c :: cs).dropWhile isBare) := by
  unfold keyPart asString
  simp [quote, tick, nonempty]

theorem reads_keyPart {s : String} {t : List Char} (h : SpellsPart s t) (ends : ∀ c ∈ text.head?, isBare c = false) :
    Reads keyPart (t ++ text) s text := by
  cases h with
  | bare nonempty bare =>
    obtain ⟨c, cs, word⟩ := List.exists_cons_of_ne_nil nonempty
    have first := bare c (word ▸ List.mem_cons_self)
    obtain ⟨noQuote, noTick, -⟩ := isBare_ne first
    have taken := takeWhile_append bare ends
    have dropped := dropWhile_append bare ends
    rw [word] at taken dropped ⊢
    rw [Reads, List.cons_append, keyPart_bare noQuote noTick _ first]
    rw [List.cons_append] at taken dropped
    rw [taken, dropped, ← word, String.ofList_toList]
  | quoted short =>
    have read : asString shortText? (t ++ text) = some (s, text) := by
      rw [asString, shortText?_append short, Option.map_some]
      simp only [String.ofList_toList]
    cases short with
    | basic _ =>
      rw [Reads, List.cons_append, keyPart_quoted (.inl rfl)]
      exact read
    | literal _ _ =>
      rw [Reads, List.cons_append, keyPart_quoted (.inr rfl)]
      exact read

def EndsKey (text : List Char) : Prop := ∀ c ∈ text.head?, isBare c = false ∧ isBlank c = false ∧ c ≠ '.'

theorem isBare_of_isBlank {c : Char} (h : isBlank c = true) : isBare c = false := by
  rcases isBlank_cases h with rfl | rfl <;> rfl

theorem head_blanks {p : Char → Prop} (blanks : IsBlanks w) (blank : ∀ c, isBlank c = true → p c)
    (h : ∀ c ∈ text.head?, p c) : ∀ c ∈ (w ++ text).head?, p c := by
  cases w with
  | nil => exact h
  | cons c w =>
    intro d same
    obtain rfl : c = d := by simpa using same
    exact blank c (blanks c List.mem_cons_self)

theorem solid_part {s : String} {t : List Char} (h : SpellsPart s t) (text : List Char) : Solid (t ++ text) := by
  cases h with
  | bare nonempty bare =>
    obtain ⟨c, cs, word⟩ := List.exists_cons_of_ne_nil nonempty
    rw [word, List.cons_append]
    exact solid_cons (isBare_ne (bare c (word ▸ List.mem_cons_self))).2.2
  | quoted short =>
    cases short with
    | basic _ => exact solid_cons rfl
    | literal _ _ => exact solid_cons rfl

/-- A key is read with the blanks around it. The induction is on its parts, which the fuel bounds. -/
theorem reads_key {n : Nat} {ks : List String} {t : List Char} (h : SpellsKey n ks t) (ends : EndsKey text) :
    Reads (keyFrom n) (t ++ text) ks text := by
  induction h with
  | last before part behind =>
    simp only [List.append_assoc, keyFrom]
    have bare := head_blanks behind (fun c => isBare_of_isBlank) fun c mem => (ends c mem).1
    refine (reads_skipBlanks before (solid_part part _)).bind ((reads_keyPart part bare).bind ?_)
    refine (reads_skipBlanks behind fun c mem => (ends c mem).2.1).bind (reads_peek.bind ?_)
    have noPoint : text.head? ≠ some '.' := fun same => (ends '.' same).2.2 rfl
    rw [if_neg noPoint]
    exact reads_pure
  | @more _ _ _ _ _ _ ts before part behind _ ih =>
    simp only [List.append_assoc, List.cons_append, keyFrom]
    have point : ∀ c ∈ ('.' :: (ts ++ text)).head?, isBare c = false := fun c same => by
      cases same
      rfl
    have bare := head_blanks behind (fun c => isBare_of_isBlank) point
    refine (reads_skipBlanks before (solid_part part _)).bind ((reads_keyPart part bare).bind ?_)
    refine (reads_skipBlanks behind (solid_cons rfl)).bind (reads_peek.bind ?_)
    rw [List.head?_cons, if_pos rfl]
    exact (reads_pass '.').bind (ih.bind reads_pure)

end Footprint.Toml
