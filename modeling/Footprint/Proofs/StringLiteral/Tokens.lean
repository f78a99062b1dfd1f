import Footprint.StringLiteral
import Footprint.Proofs.Text.Characters

/-!
# String tokens in their parts

A token is made of prefix letters, an opening delimiter, a body and the same delimiter again. Single quotes
are told from tripled ones by what follows the first: a body in single quotes does not begin with its quote.
-/

namespace Footprint.StringLiteral

variable {mark : Char} {triple : Bool} {letters body : List Char}

/-- The quotes on each side of a body. -/
def delimiter (mark : Char) (triple : Bool) : List Char := if triple then [mark, mark, mark] else [mark]

def IsMark (mark : Char) : Prop := mark = '\'' ∨ mark = '"'

theorem delimiter_eq_cons (mark : Char) (triple : Bool) : ∃ ds, delimiter mark triple = mark :: ds := by
  cases triple <;> exact ⟨_, rfl⟩

theorem body?_delimited (alone : triple = false → body.head? ≠ some mark) :
    body? (delimiter mark triple ++ (body ++ delimiter mark triple)) mark = some body := by
  have room := Text.length_le_byteLength (delimiter mark triple ++ (body ++ delimiter mark triple))
  have isDelimiter : (if 6 ≤ Text.byteLength (delimiter mark triple ++ (body ++ delimiter mark triple)) &&
      [mark, mark, mark].isPrefixOf (delimiter mark triple ++ (body ++ delimiter mark triple)) then
        [mark, mark, mark] else [mark]) = delimiter mark triple := by
    cases triple with
    | true =>
      have isHead : [mark, mark, mark].isPrefixOf (delimiter mark true ++ (body ++ delimiter mark true)) = true :=
        List.isPrefixOf_iff_prefix.mpr (List.prefix_append _ _)
      rw [isHead, Bool.and_true, if_pos]
      · rfl
      · simp only [delimiter, if_pos, List.length_append, List.length_cons, List.length_nil] at room
        rw [decide_eq_true_eq]
        exact Nat.le_trans (by omega) room
    | false =>
      have noTriple : ¬[mark, mark, mark] <+: delimiter mark false ++ (body ++ delimiter mark false) := by
        intro isHead
        cases body with
        | nil =>
          have longer : 3 ≤ 2 := isHead.length_le
          omega
        | cons c cs =>
          obtain ⟨rest, same⟩ := (List.prefix_cons_inj mark).mp isHead
          exact alone rfl (congrArg some (List.cons.inj same).1.symm)
      rw [if_neg]
      · rfl
      · rw [Bool.and_eq_true, not_and, List.isPrefixOf_iff_prefix]
        exact fun _ => noTriple
  have fits : ¬Text.byteLength (delimiter mark triple ++ (body ++ delimiter mark triple)) <
      2 * (delimiter mark triple).length := by
    simp only [List.length_append] at room
    omega
  have isTail : (delimiter mark triple).isSuffixOf (delimiter mark triple ++ (body ++ delimiter mark triple)) = true := by
    rw [List.isSuffixOf_iff_suffix, ← List.append_assoc]
    exact List.suffix_append _ _
  have between : ((delimiter mark triple ++ (body ++ delimiter mark triple)).drop (delimiter mark triple).length).take
      ((delimiter mark triple ++ (body ++ delimiter mark triple)).length - 2 * (delimiter mark triple).length) =
        body := by
    have length : (delimiter mark triple ++ (body ++ delimiter mark triple)).length -
        2 * (delimiter mark triple).length = body.length := by
      simp only [List.length_append]
      omega
    rw [List.drop_left, length, List.take_left]
  simp only [body?, isDelimiter, isTail, Bool.not_true, Bool.or_false, decide_eq_true_eq, if_neg fits, between]

def prefixLetters : List Char := "rRuUbBfFtT".toList

def hasLetter (letters : List Char) (c : Char) : Bool := letters.any (·.toLower == c)

/-- Of the prefix of a token only the letters count, and of those with fields and of bytes only the prefix. -/
theorem ofToken?_prefixed (known : ∀ c ∈ letters, c ∈ prefixLetters) (quote : IsMark mark) (rest : List Char) :
    ofToken? (letters ++ mark :: rest) =
      if hasLetter letters 'f' || hasLetter letters 't' then some formatted
      else if hasLetter letters 'b' then some bytes
      else (body? (mark :: rest) mark).map fun body =>
        text (String.ofList (if hasLetter letters 'r' then body else decode body)) := by
  have allowed : ∀ c ∈ prefixLetters, (!(c == '\'' || c == '"')) = true ∧ isPrefixLetter c = true := by decide
  have noQuotes : ∀ c ∈ letters, (!(c == '\'' || c == '"')) = true := fun c mem => (allowed c (known c mem)).1
  have all : letters.all isPrefixLetter = true := List.all_eq_true.mpr fun c mem => (allowed c (known c mem)).2
  have stops : (!(mark == '\'' || mark == '"')) = false := by
    rcases quote with rfl | rfl <;> decide
  rw [ofToken?, List.takeWhile_append_of_pos noQuotes, List.dropWhile_append_of_pos noQuotes,
    List.takeWhile_cons_of_neg (by rw [stops]; exact Bool.false_ne_true),
    List.dropWhile_cons_of_neg (by rw [stops]; exact Bool.false_ne_true), List.append_nil]
  simp only [all, Bool.not_true, Bool.false_eq_true, if_false]
  rfl

/-- What a token holds that is made of a prefix, a delimiter, a body and the delimiter. -/
theorem ofToken?_quoted (known : ∀ c ∈ letters, c ∈ prefixLetters) (quote : IsMark mark)
    (alone : triple = false → body.head? ≠ some mark) :
    ofToken? (letters ++ (delimiter mark triple ++ (body ++ delimiter mark triple))) =
      if hasLetter letters 'f' || hasLetter letters 't' then some formatted
      else if hasLetter letters 'b' then some bytes
      else some (text (String.ofList (if hasLetter letters 'r' then body else decode body))) := by
  have between : body? (delimiter mark triple ++ (body ++ delimiter mark triple)) mark = some body := body?_delimited alone
  obtain ⟨ds, delimiter⟩ := delimiter_eq_cons mark triple
  rw [delimiter, List.cons_append] at between ⊢
  rw [ofToken?_prefixed known quote, between]
  rfl

theorem hasLetter_eq_true_iff {l : Char} : hasLetter letters l = true ↔ ∃ c ∈ letters, c.toLower = l := by
  simp [hasLetter]

theorem hasLetter_eq_false (l : Char) (h : ∀ c ∈ letters, c.toLower ≠ l) : hasLetter letters l = false := by
  rw [Bool.eq_false_iff, Ne, hasLetter_eq_true_iff]
  rintro ⟨c, mem, same⟩
  exact h c mem same

theorem ofToken?_text (known : ∀ c ∈ letters, c ∈ ['r', 'R', 'u', 'U']) (quote : IsMark mark)
    (alone : triple = false → body.head? ≠ some mark) :
    ofToken? (letters ++ (delimiter mark triple ++ (body ++ delimiter mark triple))) =
      some (text (String.ofList (if hasLetter letters 'r' then body else decode body))) := by
  have textual : ∀ c ∈ ['r', 'R', 'u', 'U'], c ∈ prefixLetters ∧ c.toLower ≠ 'f' ∧ c.toLower ≠ 't' ∧ c.toLower ≠ 'b' := by
    decide
  have noFields : hasLetter letters 'f' = false := hasLetter_eq_false 'f' fun c mem => (textual c (known c mem)).2.1
  have noTemplate : hasLetter letters 't' = false := hasLetter_eq_false 't' fun c mem => (textual c (known c mem)).2.2.1
  have noBytes : hasLetter letters 'b' = false := hasLetter_eq_false 'b' fun c mem => (textual c (known c mem)).2.2.2
  rw [ofToken?_quoted (fun c mem => (textual c (known c mem)).1) quote alone, noFields, noTemplate, noBytes]
  rfl

end Footprint.StringLiteral
