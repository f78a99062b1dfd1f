import Footprint.Proofs.StringLiteral.Spelling
import Footprint.Proofs.Text.Returns

/-!
# Line ends in literals

A backslash takes a line end with it, whether that is a line feed or a return and a line feed. All other line ends
of a body come into the value as they stand: there it shows which of the two the source has.
-/

namespace Footprint.StringLiteral

open Text

variable {c : Char} {cs body letters : List Char} {n : Nat}

/-- How many line feeds of a body no backslash takes. -/
def bareBreaks : List Char → Nat
  | [] => 0
  | '\\' :: _ :: cs => bareBreaks cs
  | c :: cs => (if c = '\n' then 1 else 0) + bareBreaks cs

theorem bareBreaks_cons (noEscape : c ≠ '\\') (cs : List Char) :
    bareBreaks (c :: cs) = (if c = '\n' then 1 else 0) + bareBreaks cs := by
  rw [bareBreaks]
  exact fun _ _ same => absurd same noEscape

theorem bareBreaks_drop (plain : ∀ c ∈ cs.take n, c ≠ '\\' ∧ c ≠ '\n') : bareBreaks (cs.drop n) = bareBreaks cs := by
  induction n generalizing cs with
  | zero => rfl
  | succ n ih =>
    cases cs with
    | nil => rfl
    | cons c cs =>
      rw [List.take_succ_cons, List.forall_mem_cons] at plain
      rw [List.drop_succ_cons, ih plain.2, bareBreaks_cons plain.1.1, if_neg plain.1.2, Nat.zero_add]

theorem takeWhile_take_withReturns {p : Char → Bool} (feed : p '\n' = false) (ret : p '\r' = false) (cs : List Char)
    (n : Nat) : ((withReturns cs).take n).takeWhile p = (cs.take n).takeWhile p := by
  rw [← List.take_takeWhile, ← List.take_takeWhile, takeWhile_withReturns feed ret]

theorem plain_of_takeWhile {p : Char → Bool} (backslash : p '\\' = false) (feed : p '\n' = false) (cs : List Char) (n : Nat) :
    ((cs.take n).takeWhile p).length ≤ cs.length ∧
      ∀ d ∈ cs.take ((cs.take n).takeWhile p).length, d ≠ '\\' ∧ d ≠ '\n' := by
  have isHead : (cs.take n).takeWhile p <+: cs := (List.takeWhile_prefix _).trans (List.take_prefix _ _)
  refine ⟨isHead.length_le, ?_⟩
  rw [← List.prefix_iff_eq_take.mp isHead]
  intro d mem
  have isDigit := List.all_eq_true.mp List.all_takeWhile d mem
  constructor
  · rintro rfl
    rw [backslash] at isDigit
    cases isDigit
  · rintro rfl
    rw [feed] at isDigit
    cases isDigit

/-- An escape that takes no line end is the same in both texts, and what it takes beyond its letter is digits. -/
theorem escape_withReturns (feed : c ≠ '\n') (ret : c ≠ '\r') (cs : List Char) :
    escape (c :: withReturns cs) = escape (c :: cs) ∧
      ∃ m, (escape (c :: cs)).2 = m + 1 ∧ m ≤ cs.length ∧ ∀ d ∈ cs.take m, d ≠ '\\' ∧ d ≠ '\n' := by
  have none : ∃ m, 1 = m + 1 ∧ m ≤ cs.length ∧ ∀ d ∈ cs.take m, d ≠ '\\' ∧ d ≠ '\n' := ⟨0, rfl, Nat.zero_le _, by simp⟩
  rw [escape_cons feed ret, escape_cons feed ret]
  cases letterEscape? c with
  | some d => exact ⟨rfl, none⟩
  | none =>
    dsimp only
    by_cases octal : isOctal c = true
    · rw [if_pos octal, if_pos octal, List.takeWhile_cons_of_pos octal, List.takeWhile_cons_of_pos octal,
        takeWhile_take_withReturns (by decide) (by decide)]
      exact ⟨rfl, _, rfl, plain_of_takeWhile (by decide) (by decide) cs 2⟩
    · rw [if_neg octal, if_neg octal]
      cases hexWidth? c with
      | none => exact ⟨rfl, none⟩
      | some width =>
        simp only [Option.bind_some, hexEscape?_eq, takeWhile_take_withReturns (show isHex '\n' = false by decide)
          (show isHex '\r' = false by decide)]
        refine ⟨trivial, ?_⟩
        by_cases full : ((cs.take width).takeWhile isHex).length = width
        · rw [if_pos full]
          cases charOf? (digitsValue 16 ((cs.take width).takeWhile isHex)) with
          | none => exact none
          | some d =>
            have plain := plain_of_takeWhile (p := isHex) (by decide) (by decide) cs width
            rw [full] at plain
            exact ⟨width, rfl, plain⟩
        · rw [if_neg full]
          exact none

/-- With returns before its line feeds, a body has one more return in its value for each that no backslash takes. -/
theorem decode_withReturns (noReturn : '\r' ∉ body) :
    (decode (withReturns body)).length = (decode body).length + bareBreaks body ∧
      (bareBreaks body = 0 → decode (withReturns body) = decode body) := by
  induction bound : body.length using Nat.strongRecOn generalizing body with
  | ind n ih =>
    subst bound
    have further (ds : List Char) (shorter : ds.length < body.length) (part : ∀ c ∈ ds, c ∈ body) :=
      ih ds.length shorter (fun mem => noReturn (part _ mem)) rfl
    rcases body with _ | ⟨c, cs⟩
    · exact ⟨rfl, fun _ => rfl⟩
    by_cases backslash : c = '\\'
    · subst backslash
      rcases cs with _ | ⟨d, ds⟩
      · exact ⟨rfl, fun _ => rfl⟩
      by_cases feed : d = '\n'
      · subst feed
        rw [withReturns_cons (by decide), withReturns_newline, decode_backslash, decode_backslash]
        exact further ds (by simp only [List.length_cons]; omega)
          fun c mem => List.mem_cons_of_mem _ (List.mem_cons_of_mem _ mem)
      · have ret : d ≠ '\r' := by
          rintro rfl
          exact noReturn (by simp)
        obtain ⟨same, m, taken, le, plain⟩ := escape_withReturns feed ret ds
        have reaches : reach ds m = m := reach_eq_self le fun mem => (plain _ mem).2 rfl
        have dropped : (withReturns ds).drop m = withReturns (ds.drop m) := by
          conv => lhs; rw [← reaches]
          exact drop_reach ds m
        rw [withReturns_cons (by decide), withReturns_cons feed, decode_backslash, decode_backslash, same, taken,
          List.drop_succ_cons, List.drop_succ_cons, dropped, bareBreaks, ← bareBreaks_drop plain]
        obtain ⟨length, eq⟩ := further (ds.drop m) (by simp only [List.length_cons, List.length_drop]; omega)
          fun c mem => List.mem_cons_of_mem _ (List.mem_cons_of_mem _ (List.mem_of_mem_drop mem))
        refine ⟨?_, fun none => by rw [eq none]⟩
        rw [List.length_append, List.length_append, length, Nat.add_assoc]
    · obtain ⟨length, eq⟩ := further cs (Nat.lt_succ_self _) fun c mem => List.mem_cons_of_mem _ mem
      rw [bareBreaks_cons backslash, decode_cons_of_ne backslash]
      by_cases feed : c = '\n'
      · rw [feed, withReturns_newline, decode_cons_of_ne (by decide), decode_cons_of_ne (by decide)]
        simp only [List.length_cons, length, if_true]
        exact ⟨by omega, fun none => by omega⟩
      · rw [withReturns_cons feed, decode_cons_of_ne backslash, if_neg feed, Nat.zero_add]
        simp only [List.length_cons, length]
        exact ⟨by omega, fun none => by rw [eq none]⟩

/-! ### Tokens -/

variable {mark : Char} {triple : Bool} {w rest : List Char} {v : String}

/-- A quote mark of the grammar, which lets a literal be put in backticks too. -/
def IsAnyMark (mark : Char) : Prop := IsMark mark ∨ mark = '`'

/-- What the grammar reads as a string literal: prefix, delimiter, body and delimiter, or the beginning of a formatted
string, which may have any parts. -/
inductive IsLiteral : List Char → Prop
  | quoted {letters body : List Char} {mark : Char} {triple : Bool} : (∀ c ∈ letters, c ∈ prefixLetters) →
    IsAnyMark mark → (triple = false → body.head? ≠ some mark) →
    IsLiteral (letters ++ (delimiter mark triple ++ (body ++ delimiter mark triple)))
  | formatted {letters rest : List Char} {mark : Char} : (∀ c ∈ letters, c ∈ prefixLetters) → IsAnyMark mark →
    hasLetter letters 'f' = true → IsLiteral (letters ++ mark :: rest)

/-- How many line feeds come from a text literal into its value as they stand. -/
def openBreaks (token : List Char) : Nat :=
  let isQuote (c : Char) : Bool := c == '\'' || c == '"'
  let isRaw := hasLetter (token.takeWhile (!isQuote ·)) 'r'
  match token.dropWhile (!isQuote ·) with
  | [] => 0
  | quote :: rest =>
    ((body? (quote :: rest) quote).map fun body => if isRaw then body.count '\n' else bareBreaks body).getD 0

theorem ofToken?_backtick (known : ∀ c ∈ letters, c ∈ prefixLetters) (rest : List Char) :
    ofToken? (letters ++ '`' :: rest) = none := by
  have allowed : ∀ c ∈ prefixLetters, (!(c == '\'' || c == '"')) = true := by decide
  have noQuotes : ∀ c ∈ letters, (!(c == '\'' || c == '"')) = true := fun c mem => allowed c (known c mem)
  have noLetter : isPrefixLetter '`' = false := by decide
  rw [ofToken?, List.takeWhile_append_of_pos noQuotes, List.dropWhile_append_of_pos noQuotes,
    List.takeWhile_cons_of_pos (by decide)]
  split
  · rfl
  · simp [List.all_append, noLetter]

theorem openBreaks_quoted (known : ∀ c ∈ letters, c ∈ prefixLetters) (quote : IsMark mark)
    (alone : triple = false → body.head? ≠ some mark) :
    openBreaks (letters ++ (delimiter mark triple ++ (body ++ delimiter mark triple))) =
      if hasLetter letters 'r' then body.count '\n' else bareBreaks body := by
  have allowed : ∀ c ∈ prefixLetters, (!(c == '\'' || c == '"')) = true := by decide
  have noQuotes : ∀ c ∈ letters, (!(c == '\'' || c == '"')) = true := fun c mem => allowed c (known c mem)
  have stops : (!(mark == '\'' || mark == '"')) = false := by
    rcases quote with rfl | rfl <;> decide
  have between : body? (delimiter mark triple ++ (body ++ delimiter mark triple)) mark = some body := body?_delimited alone
  obtain ⟨ds, delimiter⟩ := delimiter_eq_cons mark triple
  rw [delimiter, List.cons_append] at between ⊢
  rw [openBreaks, List.takeWhile_append_of_pos noQuotes, List.dropWhile_append_of_pos noQuotes,
    List.takeWhile_cons_of_neg (by rw [stops]; exact Bool.false_ne_true),
    List.dropWhile_cons_of_neg (by rw [stops]; exact Bool.false_ne_true), List.append_nil]
  simp only [between, Option.map_some, Option.getD_some]

theorem newline_notMem_letters (known : ∀ c ∈ letters, c ∈ prefixLetters) : '\n' ∉ letters := by
  intro mem
  exact absurd (known _ mem) (by decide)

theorem IsAnyMark.ne_newline (quote : IsAnyMark mark) : mark ≠ '\n' ∧ mark ≠ '\r' := by
  rcases quote with (rfl | rfl) | rfl <;> decide

theorem withReturns_delimiter (quote : IsAnyMark mark) : withReturns (delimiter mark triple) = delimiter mark triple := by
  refine withReturns_eq_self fun mem => quote.ne_newline.1 ?_
  cases triple <;> simpa [delimiter, eq_comm] using mem

theorem withReturns_quoted (known : ∀ c ∈ letters, c ∈ prefixLetters) (quote : IsAnyMark mark) (body : List Char) :
    withReturns (letters ++ (delimiter mark triple ++ (body ++ delimiter mark triple))) =
      letters ++ (delimiter mark triple ++ (withReturns body ++ delimiter mark triple)) := by
  rw [withReturns_append, withReturns_append, withReturns_append, withReturns_delimiter quote,
    withReturns_eq_self (newline_notMem_letters known)]

/-- The same literal, or a text constant with so many characters more. -/
inductive Gains (n : Nat) : Option StringLiteral → Option StringLiteral → Prop
  | text {v v' : String} : v'.length = v.length + n → (n = 0 → v' = v) → Gains n (some (.text v)) (some (.text v'))
  | other {l : Option StringLiteral} : (∀ v, l ≠ some (.text v)) → Gains n l l

/-- With returns before its line feeds, a literal gains one character for each that comes into its value as it stands. -/
theorem ofToken?_withReturns (literal : IsLiteral w) (noReturn : '\r' ∉ w) :
    Gains (openBreaks w) (ofToken? w) (ofToken? (withReturns w)) := by
  cases literal with
  | @formatted letters rest mark known quote isFormatted =>
    have same : withReturns (letters ++ mark :: rest) = letters ++ mark :: withReturns rest := by
      rw [withReturns_append, withReturns_cons quote.ne_newline.1, withReturns_eq_self (newline_notMem_letters known)]
    rw [same]
    rcases quote with quote | rfl
    · rw [ofToken?_prefixed known quote, ofToken?_prefixed known quote, isFormatted]
      exact .other fun v => by simp
    · rw [ofToken?_backtick known, ofToken?_backtick known]
      exact .other nofun
  | @quoted letters body mark triple known quote alone =>
    have alone' : triple = false → (withReturns body).head? ≠ some mark := fun single same =>
      alone single ((head?_withReturns_eq quote.ne_newline.1 quote.ne_newline.2 body).mp same)
    have noReturnBody : '\r' ∉ body := fun mem => noReturn (by simp [mem])
    rw [withReturns_quoted known quote]
    rcases quote with quote | rfl
    · rw [openBreaks_quoted known quote alone, ofToken?_quoted known quote alone, ofToken?_quoted known quote alone']
      by_cases fields : (hasLetter letters 'f' || hasLetter letters 't') = true
      · rw [if_pos fields, if_pos fields]
        exact .other nofun
      by_cases isBytes : hasLetter letters 'b' = true
      · rw [if_neg fields, if_neg fields, if_pos isBytes, if_pos isBytes]
        exact .other nofun
      rw [if_neg fields, if_neg fields, if_neg isBytes, if_neg isBytes]
      split
      · refine .text ?_ fun none => ?_
        · rw [String.length_ofList, String.length_ofList, length_withReturns]
        · rw [withReturns_eq_self (List.count_eq_zero.mp none)]
      · obtain ⟨length, eq⟩ := decode_withReturns noReturnBody
        refine .text ?_ fun none => ?_
        · rw [String.length_ofList, String.length_ofList, length]
        · rw [eq none]
    · obtain ⟨ds, delimiter⟩ := delimiter_eq_cons '`' triple
      rw [delimiter, List.cons_append, List.cons_append, ofToken?_backtick known, ofToken?_backtick known]
      exact .other nofun

end Footprint.StringLiteral
