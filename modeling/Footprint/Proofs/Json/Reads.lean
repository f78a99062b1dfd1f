import Footprint.Json.Text
import Footprint.Proofs.Json.Spelling
import Footprint.Proofs.Text.Characters

/-!
# What readers of JSON yield

A reader reads a text if it comes through it from wherever it stands. Places are lines and columns of
the text and have no bearing on what is read, so only the characters left count. Strings come first: a
string is read from any of its spellings.
-/

namespace Footprint.Json

open Text

variable {α β : Type} {r : Reader α} {k : α → Reader β} {x : α} {y : β} {text middle left : List Char}

/-- From every place with this text, a reader yields a value and leaves that text. -/
def Reads (r : Reader α) (text : List Char) (x : α) (left : List Char) : Prop :=
  ∀ c : Cursor, c.rest = text → ∃ d : Cursor, d.rest = left ∧ r c = .ok (x, d)

theorem Reads.bind (first : Reads r text x middle) (second : Reads (k x) middle y left) :
    Reads (r >>= k) text y left := by
  intro c hc
  obtain ⟨d, hd, first⟩ := first c hc
  obtain ⟨e, he, second⟩ := second d hd
  refine ⟨e, he, ?_⟩
  rw [← second]
  simp only [Bind.bind, StateT.bind, first, Except.bind]

theorem reads_pure : Reads (pure x : Reader α) text x text := fun c hc => ⟨c, hc, rfl⟩

theorem reads_advance (a : Char) : Reads advance (a :: text) () text := by
  intro c hc
  refine ⟨c.next, ?_, rfl⟩
  simp [Cursor.next, hc]

theorem reads_peek : Reads peek text text.head? text := fun c hc => ⟨c, hc, by rw [peek, hc]⟩

theorem reads_remaining : Reads remaining text text text := fun c hc => ⟨c, hc, by rw [remaining, hc]⟩

/-- A loop that goes round at most as often as there are characters. -/
theorem Reads.remaining_bind {k : List Char → Reader β} (h : Reads (k text) text y left) :
    Reads (remaining >>= k) text y left := reads_remaining.bind h

theorem isSpace_of_isSpacing {w : List Char} (hw : IsSpacing w) {a : Char} (ha : a ∈ w) :
    Cursor.isSpace a = true := by
  rcases hw a ha with rfl | rfl | rfl | rfl <;> rfl

/-- A text that does not begin with white space. -/
def StartsSolid (text : List Char) : Prop := ∀ a ∈ text.head?, Cursor.isSpace a = false

theorem startsSolid_cons {a : Char} (h : Cursor.isSpace a = false) : StartsSolid (a :: text) := by
  rintro b hb
  obtain rfl : a = b := by simpa using hb
  exact h

theorem rest_skipSpaceFrom {w : List Char} (hw : IsSpacing w) (solid : StartsSolid text) (c : Cursor) :
    (c.skipSpaceFrom (w ++ text)).rest = text := by
  induction w generalizing c with
  | nil =>
    cases text with
    | nil => rfl
    | cons a text =>
      have : Cursor.isSpace a = false := solid a rfl
      simp [Cursor.skipSpaceFrom, this]
  | cons b w ih =>
    have space := isSpace_of_isSpacing hw (List.mem_cons_self : b ∈ b :: w)
    rw [List.cons_append, Cursor.skipSpaceFrom, if_pos space]
    exact ih (fun a ha => hw a (List.mem_cons_of_mem _ ha)) _

theorem rest_skipSpace {w : List Char} (hw : IsSpacing w) (solid : StartsSolid text) {c : Cursor}
    (hc : c.rest = w ++ text) : c.skipSpace.rest = text := by
  rw [Cursor.skipSpace, hc, rest_skipSpaceFrom hw solid]

theorem reads_peekToken {w : List Char} (hw : IsSpacing w) (solid : StartsSolid text) :
    Reads peekToken (w ++ text) text.head? text := by
  intro c hc
  have rest := rest_skipSpace hw solid hc
  exact ⟨c.skipSpace, rest, by rw [← rest]; rfl⟩

theorem reads_peekToken_cons {w : List Char} (hw : IsSpacing w) {a : Char} (h : Cursor.isSpace a = false) :
    Reads peekToken (w ++ a :: text) (some a) (a :: text) := reads_peekToken hw (startsSolid_cons h)

theorem reads_word (cs : List Char) : Reads (word cs) (cs ++ text) () text := by
  induction cs with
  | nil => exact reads_pure
  | cons c cs ih =>
    refine reads_peek.bind ?_
    simp only [List.cons_append, List.head?_cons, if_true]
    exact (reads_advance c).bind ih

section Strings

theorem utf8Size_of_isHex {d : Char} (h : isHex d = true) : d.utf8Size = 1 := by
  have bound : d ≤ 'f' := by
    simp only [isHex, isDigit, Bool.or_eq_true, Bool.and_eq_true, decide_eq_true_eq] at h
    rcases h with (⟨-, h⟩ | ⟨-, h⟩) | ⟨-, h⟩
    · exact Nat.le_trans h (by decide)
    · exact h
    · exact Nat.le_trans h (by decide)
  have : d.val ≤ 0x7f := Nat.le_trans bound (by decide)
  simp [Char.utf8Size, this]

theorem byteLength_of_isHex {ds : List Char} (h : ∀ d ∈ ds, isHex d = true) :
    byteLength ds = ds.length := by
  induction ds with
  | nil => rfl
  | cons d ds ih =>
    rw [List.forall_mem_cons] at h
    have step : byteLength (d :: ds) = d.utf8Size + byteLength ds := rfl
    rw [step, ih h.2, utf8Size_of_isHex h.1, List.length_cons, Nat.add_comm]

theorem reads_hexEscape {ds : List Char} (len : ds.length = 4) (hex : ∀ d ∈ ds, isHex d = true) :
    Reads hexEscape (ds ++ text) (digitsValue 16 ds) text := by
  intro c hc
  have taken : c.rest.take 4 = ds := by rw [hc, ← len, List.take_left]
  have dropped : c.rest.drop 4 = text := by rw [hc, ← len, List.drop_left]
  refine ⟨{ c with rest := c.rest.drop 4, column := c.column + 4 }, dropped, ?_⟩
  have enough : ¬byteLength ds < 4 := by rw [byteLength_of_isHex hex]; omega
  simp only [hexEscape, taken, if_neg enough, List.all_eq_true.mpr hex, if_true]

theorem reads_hexEscape_code {n : Nat} {ds : List Char} (h : SpellsCode n ds) :
    Reads hexEscape (ds ++ text) n text := by
  obtain ⟨len, hex, rfl⟩ := h
  exact reads_hexEscape len hex

theorem reads_codeEscape {c : Char} {ds : List Char} (h : SpellsCode c.toNat ds) :
    Reads codeEscape (ds ++ text) c text := by
  refine (reads_hexEscape_code h).bind ?_
  have valid : c.toNat < 0xD800 ∨ 0xDFFF < c.toNat ∧ c.toNat < 0x110000 := c.valid
  have noLow : (decide (0xDC00 ≤ c.toNat) && decide (c.toNat ≤ 0xDFFF)) = false := by
    rw [Bool.and_eq_false_iff, decide_eq_false_iff_not, decide_eq_false_iff_not]
    omega
  have noHigh : (decide (c.toNat < 0xD800) || decide (0xDBFF < c.toNat)) = true := by
    rw [Bool.or_eq_true, decide_eq_true_eq, decide_eq_true_eq]
    omega
  simp only [noLow, noHigh, Bool.false_eq_true, if_false, if_true, Char.ofNat_toNat]
  exact reads_pure

theorem reads_codeEscape_pair {c : Char} {high low : Nat} {ds es : List Char} (highBound : high < 0x400)
    (lowBound : low < 0x400) (value : c.toNat = 0x10000 + high * 0x400 + low)
    (hds : SpellsCode (0xD800 + high) ds) (hes : SpellsCode (0xDC00 + low) es) :
    Reads codeEscape (ds ++ '\\' :: 'u' :: (es ++ text)) c text := by
  refine (reads_hexEscape_code hds).bind ?_
  have noLow : (decide (0xDC00 ≤ 0xD800 + high) && decide (0xD800 + high ≤ 0xDFFF)) = false := by
    rw [Bool.and_eq_false_iff, decide_eq_false_iff_not]
    omega
  have isHigh : (decide (0xD800 + high < 0xD800) || decide (0xDBFF < 0xD800 + high)) = false := by
    rw [Bool.or_eq_false_iff, decide_eq_false_iff_not, decide_eq_false_iff_not]
    omega
  have isLow : (decide (0xDC00 + low < 0xDC00) || decide (0xDFFF < 0xDC00 + low)) = false := by
    rw [Bool.or_eq_false_iff, decide_eq_false_iff_not, decide_eq_false_iff_not]
    omega
  have joined : Char.ofNat ((0xD800 + high - 0xD800) * 0x400 + (0xDC00 + low - 0xDC00) + 0x10000) = c := by
    have sum : (0xD800 + high - 0xD800) * 0x400 + (0xDC00 + low - 0xDC00) + 0x10000 = c.toNat := by omega
    rw [sum, Char.ofNat_toNat]
  simp only [noLow, isHigh, Bool.false_eq_true, if_false]
  refine reads_peek.bind ?_
  simp only [List.head?_cons]
  refine (reads_advance '\\').bind (reads_peek.bind ?_)
  simp only [List.head?_cons]
  refine (reads_advance 'u').bind ((reads_hexEscape_code hes).bind ?_)
  simp only [isLow, Bool.false_eq_true, if_false, joined]
  exact reads_pure

theorem reads_escape_simple {a c : Char} (notCode : a ≠ 'u') (h : simpleEscape? a = some c) :
    Reads escape (a :: text) c text := by
  refine reads_peek.bind ?_
  rw [List.head?_cons]
  split
  · rename_i none
    cases none
  · rename_i code
    exact absurd (Option.some.inj code) notCode
  · rename_i b _ same
    obtain rfl := Option.some.inj same
    simp only [h]
    exact (reads_advance a).bind reads_pure

theorem reads_escape {c : Char} {t : List Char} (h : SpellsChar c ('\\' :: t)) :
    Reads escape (t ++ text) c text := by
  cases h with
  | plain _ _ noBackslash => exact absurd rfl noBackslash
  | code spelled => exact reads_peek.bind ((reads_advance 'u').bind (reads_codeEscape spelled))
  | @pair _ _ _ ds es highBound lowBound value hds hes =>
    refine reads_peek.bind ((reads_advance 'u').bind ?_)
    have whole : (ds ++ '\\' :: 'u' :: es).append text = ds ++ '\\' :: 'u' :: (es ++ text) :=
      List.append_assoc ..
    rw [whole]
    exact reads_codeEscape_pair highBound lowBound value hds hes
  | _ => exact reads_escape_simple (by decide) rfl

theorem SpellsChar.plain_or_escape {c : Char} {t : List Char} (h : SpellsChar c t) :
    (t = [c] ∧ 0x20 ≤ c.toNat ∧ c ≠ '"' ∧ c ≠ '\\') ∨ ∃ u, t = '\\' :: u := by
  cases h with
  | plain noControl noQuote noBackslash => exact .inl ⟨rfl, noControl, noQuote, noBackslash⟩
  | _ => exact .inr ⟨_, rfl⟩

theorem reads_textFrom {cs ts : List Char} (h : SpellsChars cs ts) {fuel read : List Char}
    (enough : ts.length < fuel.length) :
    Reads (textFrom fuel read) (ts ++ '"' :: text) (read.reverse ++ cs) text := by
  induction h generalizing fuel read with
  | nil =>
    obtain ⟨a, f, rfl⟩ := List.exists_cons_of_length_pos (Nat.zero_lt_of_lt enough)
    rw [textFrom]
    refine reads_peek.bind ((reads_advance '"').bind ?_)
    rw [List.append_nil]
    exact reads_pure
  | @cons c cs t ts spelled _ ih =>
    obtain ⟨a, f, rfl⟩ := List.exists_cons_of_length_pos (Nat.zero_lt_of_lt enough)
    rw [List.length_append, List.length_cons] at enough
    have later : t ≠ [] → Reads (textFrom f (c :: read)) (ts ++ '"' :: text) (read.reverse ++ c :: cs) text := by
      intro ne
      have positive := List.length_pos_iff.mpr ne
      have := @ih f (c :: read) (by omega)
      rwa [List.reverse_cons, List.append_assoc] at this
    rw [textFrom, List.append_assoc]
    rcases spelled.plain_or_escape with ⟨rfl, noControl, noQuote, noBackslash⟩ | ⟨u, rfl⟩
    · refine reads_peek.bind ?_
      rw [List.singleton_append, List.head?_cons]
      split
      · rename_i none
        cases none
      · rename_i quote
        exact absurd (Option.some.inj quote) noQuote
      · rename_i backslash
        exact absurd (Option.some.inj backslash) noBackslash
      · rename_i b _ _ same
        obtain rfl := Option.some.inj same
        rw [if_neg (Nat.not_lt_of_le noControl)]
        exact (reads_advance c).bind (later (List.cons_ne_nil _ _))
    · refine reads_peek.bind ((reads_advance '\\').bind ?_)
      exact (reads_escape spelled).bind (later (List.cons_ne_nil _ _))

/-- A string is read from each of its spellings. -/
theorem reads_text {s : String} {ts : List Char} (h : SpellsChars s.toList ts) :
    Reads Json.text (ts ++ '"' :: text) s text := by
  refine Reads.remaining_bind ((reads_textFrom h ?_).bind ?_)
  · simp
  · rw [List.reverse_nil, List.nil_append, String.ofList_toList]
    exact reads_pure

theorem isSome_simpleEscape? {a : Char} (h : a ∈ ['"', '\\', '/', 'b', 'f', 'n', 'r', 't']) :
    (simpleEscape? a).isSome = true ∧ a ≠ 'u' := by
  revert a
  decide

theorem reads_skipEscape_simple {a : Char} (h : a ∈ ['"', '\\', '/', 'b', 'f', 'n', 'r', 't']) :
    Reads skipEscape (a :: text) () text := by
  obtain ⟨known, notCode⟩ := isSome_simpleEscape? h
  refine reads_peek.bind ?_
  rw [List.head?_cons]
  split
  · rename_i none
    cases none
  · rename_i code
    exact absurd (Option.some.inj code) notCode
  · rename_i b _ same
    obtain rfl := Option.some.inj same
    rw [if_pos known]
    exact reads_advance a

theorem reads_skipTextFrom {ts : List Char} (h : IsStringBody ts) {fuel : List Char}
    (enough : ts.length < fuel.length) : Reads (skipTextFrom fuel) (ts ++ '"' :: text) () text := by
  induction h generalizing fuel with
  | nil =>
    obtain ⟨a, f, rfl⟩ := List.exists_cons_of_length_pos (Nat.zero_lt_of_lt enough)
    exact reads_peek.bind (reads_advance '"')
  | @plain c ts noControl noQuote noBackslash _ ih =>
    obtain ⟨a, f, rfl⟩ := List.exists_cons_of_length_pos (Nat.zero_lt_of_lt enough)
    rw [skipTextFrom]
    refine reads_peek.bind ?_
    rw [List.cons_append, List.head?_cons]
    split
    · rename_i none
      cases none
    · rename_i quote
      exact absurd (Option.some.inj quote) noQuote
    · rename_i backslash
      exact absurd (Option.some.inj backslash) noBackslash
    · rename_i b _ _ same
      obtain rfl := Option.some.inj same
      rw [if_neg (Nat.not_lt_of_le noControl)]
      exact (reads_advance c).bind (ih (Nat.lt_of_succ_lt_succ enough))
  | @escape c ts simple _ ih =>
    obtain ⟨a, f, rfl⟩ := List.exists_cons_of_length_pos (Nat.zero_lt_of_lt enough)
    simp only [List.length_cons] at enough
    refine reads_peek.bind ((reads_advance '\\').bind ?_)
    exact (reads_skipEscape_simple simple).bind (ih (by omega))
  | @code ds ts len hex _ ih =>
    obtain ⟨a, f, rfl⟩ := List.exists_cons_of_length_pos (Nat.zero_lt_of_lt enough)
    simp only [List.length_cons, List.length_append] at enough
    refine reads_peek.bind ((reads_advance '\\').bind ?_)
    have digits : Reads skipEscape ('u' :: (ds ++ (ts ++ '"' :: text))) () (ts ++ '"' :: text) :=
      reads_peek.bind ((reads_advance 'u').bind ((reads_hexEscape len hex).bind reads_pure))
    rw [← List.append_assoc] at digits
    exact digits.bind (ih (by omega))

theorem reads_skipText {ts : List Char} (h : IsStringBody ts) :
    Reads skipText (ts ++ '"' :: text) () text :=
  Reads.remaining_bind (reads_skipTextFrom h (by simp))

end Strings

end Footprint.Json
