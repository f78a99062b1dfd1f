import Footprint.Construct
import Footprint.Proofs.StringLiteral.Tokens
import Footprint.Proofs.Syntax.Bodies
import Footprint.Proofs.Syntax.Lexemes

/-!
# Plain and raw string literals

A literal is closed by the first delimiter that no backslash stands before. Where a body is read character
by character, an escape of a named character is passed as a whole, up to its closing brace; so a body that
begins one has to close it, or the literal would go on behind its quote.
-/

namespace Footprint.Calls

open Syntax

/-- A literal by its prefix, its quote mark, whether that is tripled, and what stands between. -/
structure Literal where
  letters : List Char
  mark : Char
  triple : Bool
  body : List Char
  deriving DecidableEq, Repr

namespace Literal

variable (l : Literal)

def isRaw : Bool := !l.letters.isEmpty

def delimiter : List Char := if l.triple then [l.mark, l.mark, l.mark] else [l.mark]

def token : List Char := l.letters ++ (l.delimiter ++ (l.body ++ l.delimiter))

def value : String := String.ofList (if l.isRaw then l.body else StringLiteral.decode l.body)

end Literal

/-- A body up to its delimiter: escapes, and characters that neither escape nor close anything. -/
inductive IsBody (raw : Bool) (mark : Char) (triple : Bool) : List Char → Prop
  | nil : IsBody raw mark triple []
  | escape {c : Char} {cs : List Char} : c ∉ ['\r', '\x00'] →
    (raw = false → c = 'N' → cs.head? = some '{' → '}' ∈ cs) →
    IsBody raw mark triple cs → IsBody raw mark triple ('\\' :: c :: cs)
  | plain {c : Char} {cs : List Char} : c ∉ ['\\', '\r', '\x00'] → (triple = false → c ≠ '\n') →
    (c = mark → triple = true ∧ doubled mark (cs ++ [mark, mark, mark]) = false) →
    IsBody raw mark triple cs → IsBody raw mark triple (c :: cs)

/-- A literal without other prefixes than that of raw ones, properly closed. -/
structure Literal.IsProper (l : Literal) : Prop where
  letters : l.letters ∈ [[], ['r'], ['R']]
  mark : l.mark = '\'' ∨ l.mark = '"'
  body : IsBody l.isRaw l.mark l.triple l.body

section Body

variable {raw triple fresh : Bool} {mark c : Char} {cs ds left tail : List Char} {q : Quote}

theorem IsBody.behind_brace {u v : List Char} (h : IsBody raw mark triple cs) (same : cs = u ++ '}' :: v)
    (first : '}' ∉ u) : IsBody raw mark triple v := by
  induction h generalizing u with
  | nil => exact absurd same (by simp)
  | @escape c cs _ _ further ih =>
    rcases u with _ | ⟨b, _ | ⟨b', u⟩⟩
    · exact absurd (List.cons.inj same).1 (by decide)
    · obtain ⟨-, rfl⟩ := List.cons.inj (List.cons.inj same).2
      exact further
    · obtain ⟨-, same⟩ := List.cons.inj (List.cons.inj same).2
      rw [List.mem_cons, List.mem_cons, not_or, not_or] at first
      exact ih same first.2.2
  | @plain c cs _ _ _ further ih =>
    rcases u with _ | ⟨b, u⟩
    · obtain ⟨-, rfl⟩ := List.cons.inj same
      exact further
    · rw [List.mem_cons, not_or] at first
      exact ih (List.cons.inj same).2 first.2

theorem IsBody.not_return (h : IsBody raw mark triple (c :: cs)) : c ≠ '\r' := by
  rintro rfl
  cases h with
  | plain plain => exact plain (by decide)

theorem IsBody.head_ne (h : IsBody raw mark false (c :: cs)) (quote : mark = '\'' ∨ mark = '"') : c ≠ mark := by
  rintro rfl
  cases h with
  | escape => rcases quote with same | same <;> exact absurd same (by decide)
  | plain _ _ inside => exact absurd (inside rfl).1 Bool.false_ne_true

theorem bodyLength?_skip (u : List Char) :
    q.bodyLength? u.length fresh (u ++ cs) = (q.bodyLength? 0 fresh cs).map (· + u.length) := by
  induction u with
  | nil => simp
  | cons c u ih =>
    rw [List.length_cons, List.cons_append, Quote.bodyLength?, ih, Option.map_map]
    rfl

structure Closes (q : Quote) (raw : Bool) (mark : Char) (triple : Bool) : Prop where
  quote : mark = '\'' ∨ mark = '"'
  mark : q.mark = mark
  triple : q.triple = triple
  raw : q.raw = raw
  bytes : q.bytes = false
  formatted : q.formatted = false

variable (closes : Closes q raw mark triple)
include closes

theorem bodyLength?_backslash (cs : List Char) :
    q.bodyLength? 0 fresh ('\\' :: cs) =
      (q.bodyLength? (if raw then q.rawEscapeLength cs else Quote.escapeLength cs) (!raw || fresh) cs).map (· + 1) := by
  have noNull : ('\\' : Char) ≠ '\x00' := by decide
  simp only [Quote.bodyLength?, noNull, closes.formatted, closes.bytes, closes.raw, Bool.false_and, if_true,
    Bool.false_eq_true, if_false]
  cases raw <;> rfl

theorem bodyLength?_plain (plain : c ∉ ['\\', '\x00']) (line : triple = false → c ≠ '\n')
    (inside : c = mark → triple = true ∧ doubled mark cs = false) :
    q.bodyLength? 0 fresh (c :: cs) = (q.bodyLength? 0 false cs).map (· + 1) := by
  simp only [List.mem_cons, List.not_mem_nil, or_false, not_or] at plain
  have notClosed : (decide (c = mark) && (!triple || doubled mark cs)) = false := by
    rw [Bool.and_eq_false_iff, decide_eq_false_iff_not]
    by_cases same : c = mark
    · obtain ⟨three, single⟩ := inside same
      rw [three, single]
      exact .inr rfl
    · exact .inl same
  have inLine : (decide (c = '\n') && !triple && !fresh) = false := by
    cases triple with
    | true => simp
    | false => simp [line rfl]
  simp only [Quote.bodyLength?, plain.1, plain.2, closes.formatted, closes.mark, closes.triple, notClosed, inLine,
    Bool.false_and, Bool.false_eq_true, if_false]

theorem bodyLength?_closed (closed : triple = true → doubled mark cs = true) :
    q.bodyLength? 0 fresh (mark :: cs) = some 0 := by
  have marked : isQuoteMark q.mark = true := by
    rw [closes.mark]
    rcases closes.quote with rfl | rfl <;> decide
  rw [← closes.mark]
  refine Quote.bodyLength?_mark marked fun three => ?_
  rw [closes.mark]
  exact closed (closes.triple.symm.trans three)

/-- What a backslash takes with it: a part of the body that leaves a body, or nothing. -/
structure Skips (raw : Bool) (mark : Char) (triple : Bool) (c : Char) (cs : List Char) (n : Nat) : Prop where
  part : ∃ u v, c :: cs = u ++ v ∧ n = u.length ∧
    (u = [] ∧ c ≠ '\n' ∧ c ≠ mark ∧ c ≠ '\\' ∨ u ≠ [] ∧ IsBody raw mark triple v)

theorem skips_raw (noReturn : c ≠ '\r') (body : IsBody raw mark triple cs) (tailHead : ∃ ds, tail = mark :: ds) :
    Skips raw mark triple c cs (q.rawEscapeLength (c :: (cs ++ tail))) := by
  have markPlain : mark ≠ '\r' ∧ mark ≠ '\n' := by rcases closes.quote with rfl | rfl <;> decide
  rw [Quote.rawEscapeLength, closes.mark, Quote.lineEndLength_eq noReturn]
  by_cases escaped : c = mark ∨ c = '\\'
  · rw [if_pos escaped]
    cases cs with
    | nil =>
      obtain ⟨ds, rfl⟩ := tailHead
      rw [List.nil_append, Quote.lineEndLength_eq markPlain.1, if_neg markPlain.2]
      exact ⟨[c], [], rfl, rfl, .inr ⟨List.cons_ne_nil c [], .nil⟩⟩
    | cons d cs =>
      rw [List.cons_append, Quote.lineEndLength_eq body.not_return]
      by_cases line : d = '\n'
      · subst line
        have rest : IsBody raw mark triple cs := by
          cases body with
          | plain _ _ _ rest => exact rest
        exact ⟨[c, '\n'], cs, rfl, rfl, .inr ⟨List.cons_ne_nil c _, rest⟩⟩
      · rw [if_neg line]
        exact ⟨[c], d :: cs, rfl, rfl, .inr ⟨List.cons_ne_nil c [], body⟩⟩
  · rw [if_neg escaped]
    rw [not_or] at escaped
    by_cases line : c = '\n'
    · rw [if_pos line]
      exact ⟨[c], cs, rfl, rfl, .inr ⟨List.cons_ne_nil c [], body⟩⟩
    · rw [if_neg line]
      exact ⟨[], c :: cs, rfl, rfl, .inl ⟨rfl, line, escaped⟩⟩

theorem skips_cooked (noReturn : c ≠ '\r') (brace : c = 'N' → cs.head? = some '{' → '}' ∈ cs)
    (body : IsBody raw mark triple cs) (tailHead : ∃ ds, tail = mark :: ds) :
    Skips raw mark triple c cs (Quote.escapeLength (c :: (cs ++ tail))) := by
  by_cases named : c = 'N' ∧ cs.head? = some '{'
  · obtain ⟨rfl, head⟩ := named
    obtain ⟨ds, rfl⟩ : ∃ ds, cs = '{' :: ds := by
      cases cs with
      | nil => cases head
      | cons d ds => exact ⟨ds, by rw [Option.some.inj head]⟩
    have mem : '}' ∈ ds := (List.mem_cons.mp (brace rfl rfl)).resolve_left (by decide)
    obtain ⟨name, v, rfl, first⟩ := List.eq_append_cons_of_mem mem
    rw [List.cons_append, List.append_assoc, List.cons_append, Quote.escapeLength_named first]
    by_cases empty : name = []
    · rw [if_pos empty]
      have markOther : 'N' ≠ mark := by rcases closes.quote with rfl | rfl <;> decide
      exact ⟨[], _, rfl, rfl, .inl ⟨rfl, by decide, markOther, by decide⟩⟩
    · rw [if_neg empty]
      refine ⟨'N' :: '{' :: (name ++ ['}']), v, by simp, by simp, .inr ⟨List.cons_ne_nil _ _, ?_⟩⟩
      exact body.behind_brace (u := '{' :: name) rfl (by simpa using first)
  · have named : ¬(c = 'N' ∧ (cs ++ tail).head? = some '{') := by
      rintro ⟨rfl, head⟩
      cases cs with
      | nil =>
        obtain ⟨ds, rfl⟩ := tailHead
        rcases closes.quote with rfl | rfl <;> exact absurd (Option.some.inj head) (by decide)
      | cons d ds => exact named ⟨rfl, head⟩
    rw [Quote.escapeLength_lone noReturn named]
    by_cases escaped : c = '\n' ∨ c = '\'' ∨ c = '"' ∨ c = '\\'
    · rw [if_pos escaped]
      exact ⟨[c], cs, rfl, rfl, .inr ⟨List.cons_ne_nil c [], body⟩⟩
    · rw [if_neg escaped]
      simp only [not_or] at escaped
      have other : c ≠ mark := by
        rintro rfl
        exact closes.quote.elim escaped.2.1 escaped.2.2.1
      exact ⟨[], c :: cs, rfl, rfl, .inl ⟨rfl, escaped.1, other, escaped.2.2.2⟩⟩

theorem bodyLength?_body (h : IsBody raw mark triple cs)
    (ends : ∀ fresh, q.bodyLength? 0 fresh tail = some 0) (delimiter : ∃ ds, tail = mark :: ds)
    (apart : triple = true → ∃ ds, tail = [mark, mark, mark] ++ ds) (fresh : Bool) :
    q.bodyLength? 0 fresh (cs ++ tail) = some cs.length := by
  -- A skipped escape may reach over several units of a body, so the induction is on its length.
  induction n : cs.length using Nat.strongRecOn generalizing cs fresh with
  | ind _ ih =>
    subst n
    have further {v : List Char} (body : IsBody raw mark triple v) (lt : v.length < cs.length) (fresh : Bool) :
        q.bodyLength? 0 fresh (v ++ tail) = some v.length := ih v.length lt body fresh rfl
    cases h with
    | nil => exact ends fresh
    | @plain c cs plain line inside body =>
      have rest := further body (Nat.lt_succ_self _) false
      rw [List.cons_append, bodyLength?_plain closes, rest]
      · rfl
      · intro mem
        simp only [List.mem_cons, List.not_mem_nil, or_false] at mem plain
        exact plain (mem.imp_right .inr)
      · exact line
      · intro same
        obtain ⟨three, open_⟩ := inside same
        refine ⟨three, ?_⟩
        obtain ⟨ds, rfl⟩ := apart three
        rw [← open_]
        rcases cs with _ | ⟨a, _ | ⟨b, cs⟩⟩ <;> rfl
    | @escape c cs plain brace body =>
      have rest := further body (by simp only [List.length_cons]; omega)
      have noReturn : c ≠ '\r' := fun same => plain (by simp [same])
      have noNull : c ≠ '\x00' := fun same => plain (by simp [same])
      have skips : Skips raw mark triple c cs
          (if raw then q.rawEscapeLength (c :: (cs ++ tail)) else Quote.escapeLength (c :: (cs ++ tail))) := by
        cases raw with
        | true => exact skips_raw closes noReturn body delimiter
        | false => exact skips_cooked closes noReturn (brace rfl) body delimiter
      obtain ⟨u, v, same, length, ⟨rfl, line, other, noSlash⟩ | ⟨ne, body'⟩⟩ := skips.part
      · rw [List.cons_append, List.cons_append, bodyLength?_backslash closes, length, List.length_nil,
          bodyLength?_plain closes (by simp [noSlash, noNull]) (fun _ => line) (fun same => absurd same other), rest]
        rfl
      · have lt : v.length < (c :: cs).length := by
          rw [same, List.length_append]
          have := List.length_pos_iff.mpr ne
          omega
        have split : c :: (cs ++ tail) = u ++ (v ++ tail) := by rw [← List.cons_append, same, List.append_assoc]
        rw [List.cons_append, List.cons_append, bodyLength?_backslash closes, length, split, bodyLength?_skip,
          further body' (Nat.lt_succ_of_lt lt), same]
        simp only [Option.map_some, List.length_cons, List.length_append, Option.some.injEq]
        omega

end Body

namespace Literal

variable {l : Literal} {left : List Char}

def quote (l : Literal) : Quote := ⟨l.mark, l.triple, l.isRaw, false, false⟩

namespace IsProper

variable (proper : l.IsProper)
include proper

theorem letters_prefix : ∀ c ∈ l.letters, isStringPrefix c = true := by
  have known : ∀ p ∈ [[], ['r'], ['R']], ∀ c ∈ p, isStringPrefix c = true := by decide
  exact known _ proper.letters

theorem mark_plain : isStringPrefix l.mark = false ∧ isQuoteMark l.mark = true ∧ l.mark ≠ '`' := by
  rcases proper.mark with mark | mark <;> rw [mark] <;> decide

theorem mark_noWord : Text.isIdentifierStart l.mark = false ∧ Text.isIdentifierRest l.mark = false := by
  rcases proper.mark with mark | mark <;> rw [mark] <;> decide

theorem letters_name : l.letters = [] ∨ IsName l.letters := by
  have known : ∀ p ∈ [[], ['r'], ['R']], p = [] ∨ (∃ c ∈ p.head?, (c.isAlpha || c == '_') = true) ∧
      (∀ c ∈ p, (c.isAlphanum || c == '_') = true) ∧ p ∉ reservedWords := by decide
  rcases known _ proper.letters with nil | ⟨⟨c, head, start⟩, rest, free⟩
  · exact .inl nil
  · refine .inr ⟨?_, rest, free⟩
    cases hl : l.letters with
    | nil =>
      rw [hl] at head
      cases head
    | cons a p =>
      rw [hl] at head
      exact ⟨a, p, rfl, by rwa [Option.mem_some.mp head]⟩

theorem closes : Closes l.quote l.isRaw l.mark l.triple := ⟨proper.mark, rfl, rfl, rfl, rfl, rfl⟩

omit proper in
theorem token_append (left : List Char) :
    ∃ ds, l.token ++ left = l.letters ++ l.mark :: (ds ++ (l.body ++ (l.mark :: (ds ++ left)))) ∧
      l.delimiter = l.mark :: ds ∧ ds = if l.triple then [l.mark, l.mark] else [] := by
  rw [token, delimiter]
  cases l.triple
  · exact ⟨[], by simp, rfl, rfl⟩
  · exact ⟨[l.mark, l.mark], by simp, rfl, rfl⟩

theorem opens (left : List Char) : Opens .quote (l.token ++ left) := by
  obtain ⟨ds, same, -⟩ := token_append (l := l) left
  exact ⟨l.letters, l.mark, _, same, proper.letters_prefix, proper.mark⟩

theorem not_doubled (parted : HeadIn separators left) (single : l.triple = false) :
    doubled l.mark (l.body ++ l.mark :: left) = false := by
  have body := proper.body
  rw [single] at body
  cases h : l.body with
  | nil =>
    cases left with
    | nil => rfl
    | cons c left =>
      have other : c ≠ l.mark := by
        intro same
        have quote := proper.mark_plain.2.1
        rw [← same, (of_mem_separators (parted c rfl)).2.2.1] at quote
        cases quote
      simp [doubled, other]
  | cons c cs =>
    rw [h] at body
    have other := body.head_ne proper.mark
    cases cs <;> simp [doubled, other]

theorem opening (parted : HeadIn separators left) :
    Quote.opening? (l.token ++ left) = some (l.quote, l.letters.length + l.delimiter.length) := by
  obtain ⟨ds, same, delimiter, tripled⟩ := token_append (l := l) left
  obtain ⟨noPrefix, isQuote, noTick⟩ := proper.mark_plain
  have letters (tail : List Char) : (l.letters ++ l.mark :: tail).takeWhile isStringPrefix = l.letters ∧
      (l.letters ++ l.mark :: tail).dropWhile isStringPrefix = l.mark :: tail := by
    rw [List.takeWhile_append_of_pos proper.letters_prefix, List.dropWhile_append_of_pos proper.letters_prefix,
      List.takeWhile_cons_of_neg (by simp [noPrefix]), List.dropWhile_cons_of_neg (by simp [noPrefix])]
    exact ⟨List.append_nil _, rfl⟩
  have isTriple : (l.mark != '`' && doubled l.mark (ds ++ (l.body ++ (l.mark :: (ds ++ left))))) = l.triple := by
    rw [tripled]
    cases h : l.triple with
    | false =>
      rw [if_neg Bool.false_ne_true, List.nil_append, List.nil_append, proper.not_doubled parted h, Bool.and_false]
    | true => simp [doubled, noTick]
  have known : ∀ p ∈ [[], ['r'], ['R']], (p.any fun c => c == 'r' || c == 'R') = !p.isEmpty ∧
      (p.any fun c => c == 'b' || c == 'B') = false ∧ (p.any fun c => c == 'f' || c == 'F') = false := by decide
  obtain ⟨raw, bytes, formatted⟩ := known _ proper.letters
  have length : (if l.triple = true then 3 else 1) = l.delimiter.length := by
    rw [Literal.delimiter]
    cases l.triple <;> rfl
  rw [same, Quote.opening?]
  simp only [(letters _).1, (letters _).2, isQuote, if_true, isTriple, raw, bytes, formatted, length]
  rfl

/-- A literal is read up to its last quote. -/
theorem length_eq (parted : HeadIn separators left) (quotes : List Quote) :
    Token.plainString.length? quotes (l.token ++ left) = some l.token.length := by
  have notTriple : l.triple = true → ∃ ds, l.delimiter ++ left = [l.mark, l.mark, l.mark] ++ ds := by
    intro three
    exact ⟨left, by rw [delimiter, three]; rfl⟩
  have begins : ∃ ds, l.delimiter ++ left = l.mark :: ds := by
    rw [delimiter]
    cases l.triple <;> exact ⟨_, rfl⟩
  have ends (fresh : Bool) : l.quote.bodyLength? 0 fresh (l.delimiter ++ left) = some 0 := by
    rw [delimiter]
    cases h : l.triple with
    | false => exact bodyLength?_closed proper.closes (by rw [h]; nofun)
    | true => exact bodyLength?_closed proper.closes fun _ => by simp [doubled]
  have body := bodyLength?_body proper.closes proper.body ends begins notTriple true
  have dropped : (l.token ++ left).drop (l.letters.length + l.delimiter.length) =
      l.body ++ (l.delimiter ++ left) := by
    rw [token, ← List.append_assoc l.letters, List.append_assoc, ← List.length_append, List.drop_left,
      List.append_assoc]
  have closing : l.quote.closingLength = l.delimiter.length := by
    rw [Quote.closingLength, delimiter, quote]
    cases l.triple <;> rfl
  have plain : l.quote.formatted = false := rfl
  rw [Token.length?, Quote.literalLength?, proper.opening parted]
  simp only [plain, Bool.false_eq_true, if_false, dropped, body, closing]
  rw [Option.some.injEq, token]
  simp only [List.length_append]
  omega

/-- A literal stands for its text. -/
theorem ofToken?_eq : StringLiteral.ofToken? l.token = some (.text l.value) := by
  have known : ∀ p ∈ [[], ['r'], ['R']], (∀ c ∈ p, c ∈ ['r', 'R', 'u', 'U']) ∧
      StringLiteral.hasLetter p 'r' = !p.isEmpty := by decide
  obtain ⟨letters, raw⟩ := known _ proper.letters
  have alone : l.triple = false → l.body.head? ≠ some l.mark := by
    intro single same
    have body := proper.body
    cases h : l.body with
    | nil =>
      rw [h] at same
      cases same
    | cons c cs =>
      rw [h] at body same
      rw [single] at body
      exact body.head_ne proper.mark (Option.some.inj same)
  have text := StringLiteral.ofToken?_text letters proper.mark alone
  rwa [raw] at text

theorem find_quote : l.token.find? (fun c => c == '\'' || c == '"' || c == '`') = some l.mark := by
  obtain ⟨ds, same, -⟩ := token_append (l := l) []
  rw [List.append_nil] at same
  have known : ∀ p ∈ [[], ['r'], ['R']],
      p.find? (fun c => c == '\'' || c == '"' || c == '`') = none := by decide
  rw [same, List.find?_append, known _ proper.letters, Option.none_or, List.find?_cons_of_pos]
  rcases proper.mark with mark | mark <;> rw [mark] <;> rfl

end IsProper

end Literal

end Footprint.Calls
