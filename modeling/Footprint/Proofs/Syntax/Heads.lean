import Footprint.Proofs.Syntax.Gaps
import Footprint.Proofs.Syntax.Says
import Footprint.Proofs.Text.Characters

/-!
# What a text begins with

The first token of a text, as far as other tokens are ruled out by it. A mark is one only where no longer
mark begins, and the letters before a string literal are a word as well, so both are said of the text and
not of its first character.
-/

namespace Footprint.Syntax

open Text (isDigit isIdentifierStart)

def markCharacters : List Char := "!%&()*+,-./:;<=>@[]^\x7b|\x7d~".toList

def reservedWords : List (List Char) :=
  ["False", "None", "True", "and", "as", "assert", "async", "await", "break", "class", "continue", "def",
    "del", "elif", "else", "except", "finally", "for", "from", "global", "if", "import", "in", "is", "lambda",
    "nonlocal", "not", "or", "pass", "raise", "return", "try", "while", "with", "yield", "match", "case", "_",
    "type", "print", "exec"].map String.toList

inductive Head where
  /-- A word that is not reserved. -/
  | name
  /-- This word. -/
  | word (w : List Char)
  | digit
  /-- A string literal. -/
  | quote
  /-- This mark. -/
  | mark (m : List Char)
  /-- Nothing that may be read in this place. -/
  | stop
  deriving DecidableEq

def wordAt (cs : List Char) : List Char := cs.take (wordLength cs)

/-- A mark that is read where no longer one begins, and that is no fraction of a number. -/
structure OpensMark (m cs : List Char) : Prop where
  isHead : m <+: cs
  solid : ∃ c ds, m = c :: ds ∧ c ∈ markCharacters
  known : m.length = 1 ∨ m ∈ longMarks
  longest : ∀ l ∈ longMarks, l <+: cs → l.length ≤ m.length
  noNumber : Number.length cs = 0

def Opens : Head → List Char → Prop
  | .name, cs => wordAt cs ≠ [] ∧ wordAt cs ∉ reservedWords ∧ beginsString cs = false
  | .word w, cs => wordAt cs = w ∧ w ≠ [] ∧ beginsString cs = false
  | .digit, cs => ∃ d ds, cs = d :: ds ∧ isDigit d = true
  | .quote, cs => ∃ p m ds, cs = p ++ m :: ds ∧ (∀ c ∈ p, isStringPrefix c = true) ∧ (m = '\'' ∨ m = '"')
  | .mark m, cs => OpensMark m cs
  | .stop, _ => False

section Characters

variable {c : Char} {cs ds w m : List Char}

theorem of_mem_markCharacters (h : c ∈ markCharacters) :
    isIdentifierStart c = false ∧ isDigit c = false ∧ isStringPrefix c = false ∧ isQuoteMark c = false ∧
      isSolid c = true := by
  revert c
  decide

theorem of_isDigit (h : isDigit c = true) :
    isIdentifierStart c = false ∧ isStringPrefix c = false ∧ isQuoteMark c = false ∧ isSolid c = true :=
  Text.forall_isDigit (p := fun c => isIdentifierStart c = false ∧ isStringPrefix c = false ∧
    isQuoteMark c = false ∧ isSolid c = true) (by decide) h

theorem isSolid_of_isIdentifierStart (h : isIdentifierStart c = true) : isSolid c = true := by
  by_cases solid : isSolid c = true
  · exact solid
  · simp only [isSolid, isFormatBlank, Bool.not_eq_true', Bool.not_eq_false, Bool.or_eq_true, beq_iff_eq] at solid
    rcases solid with ((((((rfl | rfl) | rfl) | rfl) | rfl) | (rfl | rfl) | rfl) | rfl) | rfl <;>
      exact absurd h (by decide +kernel)

theorem mem_stringPrefixes (h : isStringPrefix c = true) : c ∈ ['r', 'R', 'u', 'U', 'b', 'B', 'f', 'F'] := by
  simp only [isStringPrefix, Bool.or_eq_true, beq_iff_eq] at h
  rcases h with ((((((rfl | rfl) | rfl) | rfl) | rfl) | rfl) | rfl) | rfl <;> decide

theorem of_isStringPrefix (h : isStringPrefix c = true) :
    isIdentifierStart c = true ∧ Text.isIdentifierRest c = true := by
  have known : ∀ c ∈ ['r', 'R', 'u', 'U', 'b', 'B', 'f', 'F'],
      isIdentifierStart c = true ∧ Text.isIdentifierRest c = true := by decide
  exact known c (mem_stringPrefixes h)

theorem wordLength_cons (start : isIdentifierStart c = false) : wordLength (c :: cs) = 0 := by
  rw [wordLength, start]
  rfl

theorem wordAt_cons (start : isIdentifierStart c = false) : wordAt (c :: cs) = [] := by
  rw [wordAt, wordLength_cons start, List.take_zero]

theorem wordAt_append (start : ∃ c v, w = c :: v ∧ isIdentifierStart c = true)
    (rest : ∀ c ∈ w, Text.isIdentifierRest c = true) (stops : ∀ c ∈ cs.head?, Text.isIdentifierRest c = false) :
    wordAt (w ++ cs) = w ∧ wordLength (w ++ cs) = w.length := by
  obtain ⟨c, v, rfl, hc⟩ := start
  have run : (v ++ cs).takeWhile Text.isIdentifierRest = v := by
    rw [List.takeWhile_append_of_pos fun d hd => rest d (List.mem_cons_of_mem c hd)]
    cases cs with
    | nil => simp
    | cons d cs => simp [stops d rfl]
  have length : wordLength (c :: v ++ cs) = (c :: v).length := by
    rw [List.cons_append, wordLength, hc, if_pos rfl, run, List.length_cons, Nat.add_comm]
  exact ⟨by rw [wordAt, length, List.take_left], length⟩

theorem wordAt_quote {p : List Char} {q : Char} (letters : ∀ c ∈ p, isStringPrefix c = true)
    (quote : q = '\'' ∨ q = '"') : wordAt (p ++ q :: ds) = p := by
  have noRest : isIdentifierStart q = false ∧ Text.isIdentifierRest q = false := by
    rcases quote with rfl | rfl <;> decide
  cases p with
  | nil => exact wordAt_cons noRest.1
  | cons c p =>
    refine (wordAt_append ⟨c, p, rfl, (of_isStringPrefix (letters c List.mem_cons_self)).1⟩ ?_ ?_).1
    · exact fun d hd => (of_isStringPrefix (letters d hd)).2
    · intro d hd
      obtain rfl := Option.mem_some.mp hd
      exact noRest.2

theorem exists_of_wordAt (h : wordAt cs ≠ []) : ∃ c ds, cs = c :: ds ∧ isIdentifierStart c = true := by
  cases cs with
  | nil => exact absurd rfl h
  | cons c ds =>
    refine ⟨c, ds, rfl, ?_⟩
    by_cases start : isIdentifierStart c = true
    · exact start
    · exact absurd (wordAt_cons (Bool.eq_false_iff.mpr start)) h

theorem beginsString_cons (noPrefix : isStringPrefix c = false) : beginsString (c :: cs) = isQuoteMark c := by
  rw [beginsString, List.dropWhile_cons_of_neg (by simp [noPrefix])]

theorem opening_of_not_beginsString (h : beginsString cs = false) : Quote.opening? cs = none := by
  rw [beginsString] at h
  rw [Quote.opening?]
  cases hd : cs.dropWhile isStringPrefix with
  | nil => rfl
  | cons m rest =>
    rw [hd] at h
    simp only [h, Bool.false_eq_true, if_false]

theorem numberLength_cons (noDigit : isDigit c = false) (noPoint : c ≠ '.') : Number.length (c :: cs) = 0 := by
  have whole : Number.digits (c :: cs) = 0 := by simp [Number.digits, Number.digitsAfter, noDigit]
  have notZero : c ≠ '0' := by
    rintro rfl
    exact absurd noDigit (by decide)
  have decimal : Number.decimal (c :: cs) = 0 := by
    simp only [Number.decimal, whole, List.drop_zero]
    split
    · rename_i same
      exact absurd (List.cons.inj same).1 noPoint
    · rfl
  simp only [Number.length]
  split
  · rename_i same
    exact absurd (List.cons.inj same).1 notZero
  · exact decimal

end Characters

section Tokens

variable {c : Char} {cs ds k m : List Char} {quotes : List Quote} {h : Head}

def isMarkText (m : List Char) : Bool := m.head?.any markCharacters.contains

theorem length_mark_none (first : c ∉ markCharacters) (mark : isMarkText m = true) :
    (Token.mark m).length? quotes (c :: ds) = none := by
  cases m with
  | nil => cases mark
  | cons a m =>
    have known : a ∈ markCharacters := by simpa [isMarkText] using mark
    have ne : a ≠ c := by
      rintro rfl
      exact first known
    simp [Token.length?, List.isPrefixOf, ne]

theorem length_keyword_none (other : wordAt cs ≠ k) : (Token.keyword k).length? quotes cs = none := by
  rw [wordAt] at other
  simp only [Token.length?, if_neg other]

theorem length_name_none {except : List (List Char)} (h : wordAt cs = [] ∨ wordAt cs ∈ except) :
    (Token.name except).length? quotes cs = none := by
  have none : (decide (wordLength cs = 0) || except.contains (cs.take (wordLength cs))) = true := by
    rw [Bool.or_eq_true, decide_eq_true_eq, List.contains_iff_mem]
    rcases h with empty | mem
    · rw [wordAt, List.take_eq_nil_iff] at empty
      rcases empty with zero | rfl
      · exact .inl zero
      · exact .inl rfl
    · exact .inr mem
  simp only [Token.length?, none, if_true]

theorem length_number_none (h : Number.length cs = 0) : Token.number.length? quotes cs = none := by
  rw [Token.length?, h, nonempty]

theorem length_string_none (h : beginsString cs = false) :
    Token.plainString.length? quotes cs = none ∧ Token.openFormatted.length? quotes cs = none := by
  simp [Token.length?, Quote.literalLength?, opening_of_not_beginsString h]

theorem OpensMark.length_none (opens : OpensMark m cs) (other : m ≠ k)
    (known : k.length = 1 ∨ k ∈ longMarks) : (Token.mark k).length? quotes cs = none := by
  have notBoth : ¬((k.isPrefixOf cs && longMarks.all fun l => decide (l.length ≤ k.length) || !l.isPrefixOf cs) =
      true) := by
    intro both
    rw [Bool.and_eq_true, List.isPrefixOf_iff_prefix, List.all_eq_true] at both
    obtain ⟨isHead, longest⟩ := both
    have le : m.length ≤ k.length := by
      rcases opens.known with one | long
      · obtain ⟨c, ds, rfl, -⟩ := opens.solid
        rcases known with one' | long'
        · omega
        · have : ∀ l ∈ longMarks, 2 ≤ l.length := by decide
          have := this k long'
          omega
      · have := longest m long
        rw [Bool.or_eq_true, decide_eq_true_eq, Bool.not_eq_true', ← Bool.not_eq_true,
          List.isPrefixOf_iff_prefix] at this
        exact this.resolve_right fun no => no opens.isHead
    have ge : k.length ≤ m.length := by
      rcases known with one | long
      · obtain ⟨c, ds, rfl, -⟩ := opens.solid
        rw [one, List.length_cons]
        omega
      · exact opens.longest k long isHead
    have same := (List.prefix_of_prefix_length_le opens.isHead isHead le).eq_of_length
      (Nat.le_antisymm le ge)
    exact other same
  simp only [Token.length?, if_neg notBoth]

/-- What a text that opens with a token has no other token for. -/
def Token.refusedAt : Head → Token → Bool
  | .stop, t => t.isSpaced
  | .mark m, .mark k => m != k && (k.length == 1 || longMarks.contains k)
  | _, .mark k => isMarkText k
  | .name, .keyword k => reservedWords.contains k
  | .word w, .keyword k => w != k
  | .quote, .keyword k => !k.all isStringPrefix
  | _, .keyword k => !k.isEmpty
  | .word w, .name except => except.contains w
  | .digit, .name _ | .mark _, .name _ => true
  | .name, .number | .word _, .number | .quote, .number | .mark _, .number => true
  | .name, .plainString | .word _, .plainString | .digit, .plainString | .mark _, .plainString => true
  | .name, .openFormatted | .word _, .openFormatted | .digit, .openFormatted | .mark _, .openFormatted => true
  | _, _ => false

/-- What every opening but that of a string literal has in common. -/
theorem Opens.notString (opens : Opens h cs) (other : h ≠ .quote) : beginsString cs = false := by
  cases h with
  | name => exact opens.2.2
  | word w => exact opens.2.2
  | digit =>
    obtain ⟨d, ds, rfl, digit⟩ := opens
    obtain ⟨-, noPrefix, noQuote, -⟩ := of_isDigit digit
    rw [beginsString_cons noPrefix, noQuote]
  | quote => exact absurd rfl other
  | mark m =>
    obtain ⟨c, ds, rfl, mem⟩ := opens.solid
    obtain ⟨rest, rfl⟩ := opens.isHead
    obtain ⟨-, -, noPrefix, noQuote, -⟩ := of_mem_markCharacters mem
    rw [List.cons_append, beginsString_cons noPrefix, noQuote]
  | stop => exact opens.elim

theorem Opens.exists_cons (opens : Opens h cs) :
    ∃ c ds, cs = c :: ds ∧ isSolid c = true ∧ ((∃ m, h = .mark m) ∨ c ∉ markCharacters) := by
  have start (ne : wordAt cs ≠ []) : ∃ c ds, cs = c :: ds ∧ isSolid c = true ∧
      ((∃ m, h = .mark m) ∨ c ∉ markCharacters) := by
    obtain ⟨c, ds, rfl, start⟩ := exists_of_wordAt ne
    refine ⟨c, ds, rfl, isSolid_of_isIdentifierStart start, .inr fun mem => ?_⟩
    rw [(of_mem_markCharacters mem).1] at start
    cases start
  cases h with
  | name => exact start opens.1
  | word w => exact start (by rw [opens.1]; exact opens.2.1)
  | digit =>
    obtain ⟨d, ds, rfl, digit⟩ := opens
    refine ⟨d, ds, rfl, (of_isDigit digit).2.2.2, .inr fun mem => ?_⟩
    rw [(of_mem_markCharacters mem).2.1] at digit
    cases digit
  | quote =>
    obtain ⟨p, m, ds, rfl, letters, quote⟩ := opens
    cases p with
    | nil =>
      refine ⟨m, ds, rfl, ?_, .inr ?_⟩ <;> rcases quote with rfl | rfl <;> decide
    | cons c p =>
      have letter := letters c List.mem_cons_self
      refine ⟨c, p ++ m :: ds, rfl, isSolid_of_isIdentifierStart (of_isStringPrefix letter).1, .inr fun mem => ?_⟩
      rw [(of_mem_markCharacters mem).2.2.1] at letter
      cases letter
  | mark m =>
    obtain ⟨c, ds, rfl, mem⟩ := opens.solid
    obtain ⟨rest, rfl⟩ := opens.isHead
    exact ⟨c, ds ++ rest, rfl, (of_mem_markCharacters mem).2.2.2.2, .inl ⟨_, rfl⟩⟩
  | stop => exact opens.elim

theorem Opens.beginsToken (opens : Opens h cs) : BeginsToken cs := by
  obtain ⟨c, ds, rfl, solid, -⟩ := opens.exists_cons
  exact ⟨c, ds, rfl, solid⟩

theorem OpensMark.length_eq (opens : OpensMark m cs) : (Token.mark m).length? quotes cs = some m.length := by
  have both : (m.isPrefixOf cs && longMarks.all fun l => decide (l.length ≤ m.length) || !l.isPrefixOf cs) =
      true := by
    rw [Bool.and_eq_true, List.isPrefixOf_iff_prefix, List.all_eq_true]
    refine ⟨opens.isHead, fun l long => ?_⟩
    rw [Bool.or_eq_true, decide_eq_true_eq, Bool.not_eq_true', ← Bool.not_eq_true, List.isPrefixOf_iff_prefix]
    exact Decidable.or_iff_not_imp_right.mpr fun isHead => opens.longest l long (Decidable.not_not.mp isHead)
  simp only [Token.length?, if_pos both]

/-- The word that a text opens with is as this kind of token says. -/
theorem Opens.keyword_none (opens : Opens h cs) (refused : (Token.keyword k).refusedAt h = true)
    (notStop : h ≠ .stop) : (Token.keyword k).length? quotes cs = none := by
  apply length_keyword_none
  cases h with
  | name =>
    rintro rfl
    exact opens.2.1 (List.contains_iff_mem.mp refused)
  | word w =>
    rw [opens.1]
    simpa [Token.refusedAt] using refused
  | digit =>
    obtain ⟨d, ds, rfl, digit⟩ := opens
    rw [wordAt_cons (of_isDigit digit).1]
    rintro rfl
    cases refused
  | quote =>
    obtain ⟨p, m, ds, rfl, letters, quote⟩ := opens
    rw [wordAt_quote letters quote]
    rintro rfl
    rw [Token.refusedAt, Bool.not_eq_true', List.all_eq_false] at refused
    obtain ⟨c, mem, no⟩ := refused
    exact no (letters c mem)
  | mark m =>
    obtain ⟨c, ds, rfl, mem⟩ := opens.solid
    obtain ⟨rest, rfl⟩ := opens.isHead
    rw [List.cons_append, wordAt_cons (of_mem_markCharacters mem).1]
    rintro rfl
    cases refused
  | stop => exact absurd rfl notStop

theorem Opens.mark_none (opens : Opens h cs) (refused : (Token.mark k).refusedAt h = true)
    (notStop : h ≠ .stop) : (Token.mark k).length? quotes cs = none := by
  obtain ⟨c, ds, rfl, -, mark | noMark⟩ := opens.exists_cons
  · obtain ⟨m, rfl⟩ := mark
    simp only [Token.refusedAt, Bool.and_eq_true, Bool.or_eq_true, bne_iff_ne, beq_iff_eq,
      List.contains_iff_mem] at refused
    exact OpensMark.length_none opens refused.1 refused.2
  · refine length_mark_none noMark ?_
    cases h with
    | stop => exact absurd rfl notStop
    | mark m =>
      obtain ⟨a, es, rfl, mem⟩ := OpensMark.solid opens
      obtain ⟨rest, same⟩ := OpensMark.isHead opens
      rw [List.cons_append] at same
      exact absurd ((List.cons.inj same).1 ▸ mem) noMark
    | _ => exact refused

theorem Opens.name_none {except : List (List Char)} (opens : Opens h cs)
    (refused : (Token.name except).refusedAt h = true) (notStop : h ≠ .stop) :
    (Token.name except).length? quotes cs = none := by
  apply length_name_none
  cases h with
  | name | quote => cases refused
  | word w => exact .inr (opens.1 ▸ List.contains_iff_mem.mp refused)
  | digit =>
    obtain ⟨d, ds, rfl, digit⟩ := opens
    exact .inl (wordAt_cons (of_isDigit digit).1)
  | mark m =>
    obtain ⟨c, ds, rfl, mem⟩ := opens.solid
    obtain ⟨rest, rfl⟩ := opens.isHead
    exact .inl (wordAt_cons (of_mem_markCharacters mem).1)
  | stop => exact absurd rfl notStop

theorem Opens.number_none (opens : Opens h cs) (refused : Token.number.refusedAt h = true)
    (notStop : h ≠ .stop) : Token.number.length? quotes cs = none := by
  apply length_number_none
  have start {c : Char} {ds : List Char} (start : isIdentifierStart c = true) : Number.length (c :: ds) = 0 := by
    apply numberLength_cons
    · by_cases digit : isDigit c = true
      · rw [(of_isDigit digit).1] at start
        cases start
      · exact Bool.eq_false_iff.mpr digit
    · rintro rfl
      exact absurd start (by decide)
  cases h with
  | name =>
    obtain ⟨c, ds, rfl, first⟩ := exists_of_wordAt opens.1
    exact start first
  | word w =>
    obtain ⟨c, ds, rfl, first⟩ := exists_of_wordAt (opens.1 ▸ opens.2.1)
    exact start first
  | digit => cases refused
  | quote =>
    obtain ⟨p, m, ds, rfl, letters, quote⟩ := opens
    cases p with
    | nil => rcases quote with rfl | rfl <;> exact numberLength_cons (by decide) (by decide)
    | cons c p => exact start (of_isStringPrefix (letters c List.mem_cons_self)).1
  | mark m => exact opens.noNumber
  | stop => exact absurd rfl notStop

theorem Token.isSpaced_of_refusedAt {t : Token} (refused : t.refusedAt h = true) : t.isSpaced = true := by
  cases t <;> cases h <;> first | rfl | cases refused

/-- A token that is refused where a text opens with another has no length there. -/
theorem Opens.length_none {t : Token} (opens : Opens h cs) (refused : t.refusedAt h = true)
    (notStop : h ≠ .stop) : t.length? quotes cs = none := by
  cases t with
  | mark k => exact opens.mark_none refused notStop
  | keyword k => exact opens.keyword_none refused notStop
  | name except => exact opens.name_none refused notStop
  | number => exact opens.number_none refused notStop
  | plainString | openFormatted =>
    have notQuote : h ≠ .quote := by
      rintro rfl
      cases refused
    have none : Token.plainString.length? quotes _ = none ∧ Token.openFormatted.length? quotes _ = none :=
      length_string_none (opens.notString notQuote)
    first
    | exact none.1
    | exact none.2
  | _ => cases h <;> first | exact absurd rfl notStop | cases refused

end Tokens

end Footprint.Syntax
