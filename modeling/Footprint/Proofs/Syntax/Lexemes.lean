import Footprint.Proofs.Syntax.Gaps
import Footprint.Proofs.Syntax.Heads

/-!
# Names, integers and marks

How the lexemes of a text are told apart: a name or an integer reaches up to a separator, and a mark up to
a character that no mark goes on with.
-/

namespace Footprint.Syntax

open Text (isDigit isIdentifierStart isIdentifierRest)

/-- An identifier of letters, digits and low lines that is a name everywhere. -/
structure IsName (n : List Char) : Prop where
  start : ∃ c ds, n = c :: ds ∧ (c.isAlpha || c == '_') = true
  rest : ∀ c ∈ n, (c.isAlphanum || c == '_') = true
  free : n ∉ reservedWords

/-- Digits, with single low lines between them. -/
inductive IsInteger : List Char → Prop
  | digit {d : Char} : isDigit d = true → IsInteger [d]
  | cons {d : Char} {ds : List Char} : isDigit d = true → IsInteger ds → IsInteger (d :: ds)
  | low {d : Char} {ds : List Char} : isDigit d = true → IsInteger ds → IsInteger (d :: '_' :: ds)

def separators : List Char := " \r\n#(),.:=*".toList

def linking : List Char := "*/<=>.".toList

/-- A text that begins with one of these characters, if with any. -/
def HeadIn (cs text : List Char) : Prop := ∀ c ∈ text.head?, c ∈ cs

/-- A text that begins with none of these characters. -/
def HeadOut (cs text : List Char) : Prop := ∀ c ∈ text.head?, c ∉ cs

variable {c d : Char} {cs ds n m left text : List Char} {quotes : List Quote}

theorem headIn_nil : HeadIn cs [] := fun _ mem => by cases mem

theorem headIn_cons (h : c ∈ cs) : HeadIn cs (c :: text) := fun d mem => by
  obtain rfl := Option.mem_some.mp mem
  exact h

theorem headOut_cons (h : c ∉ cs) : HeadOut cs (c :: text) := fun d mem => by
  obtain rfl := Option.mem_some.mp mem
  exact h

theorem headIn_filler {w : List Char} (filler : IsFiller w) (rest : HeadIn cs text)
    (sub : ∀ c ∈ " \r\n#".toList, c ∈ cs) : HeadIn cs (w ++ text) := by
  cases filler with
  | nil => exact rest
  | blank _ => exact headIn_cons (sub ' ' (by decide))
  | line _ => exact headIn_cons (sub '\n' (by decide))
  | carriage _ => exact headIn_cons (sub '\r' (by decide))
  | comment _ _ => exact headIn_cons (sub '#' (by decide))

theorem headOut_filler {w : List Char} (filler : IsFiller w) (rest : HeadOut cs text)
    (apart : ∀ c ∈ " \r\n#".toList, c ∉ cs) : HeadOut cs (w ++ text) := by
  cases filler with
  | nil => exact rest
  | blank _ => exact headOut_cons (apart ' ' (by decide))
  | line _ => exact headOut_cons (apart '\n' (by decide))
  | carriage _ => exact headOut_cons (apart '\r' (by decide))
  | comment _ _ => exact headOut_cons (apart '#' (by decide))

theorem of_mem_separators (h : c ∈ separators) :
    isIdentifierRest c = false ∧ isStringPrefix c = false ∧ isQuoteMark c = false ∧ isDigit c = false ∧
      c ∉ ['_', 'e', 'E', 'j', 'J', 'l', 'L', 'x', 'X', 'o', 'O', 'b', 'B'] := by
  revert c
  decide

/-! ### Names -/

theorem toNat_lt_of_isAlphanum (h : (c.isAlphanum || c == '_') = true) : c.toNat < 0x80 := by
  delta Char.isAlphanum Char.isAlpha Char.isUpper Char.isLower Char.isDigit at h
  simp only [Bool.or_eq_true, Bool.and_eq_true, decide_eq_true_eq, beq_iff_eq, ge_iff_le] at h
  rcases h with (((⟨_, le⟩ | ⟨_, le⟩) | ⟨_, le⟩) | rfl)
  · exact Nat.lt_of_le_of_lt le (by decide)
  · exact Nat.lt_of_le_of_lt le (by decide)
  · exact Nat.lt_of_le_of_lt le (by decide)
  · decide

theorem isIdentifierRest_of_isAlphanum (h : (c.isAlphanum || c == '_') = true) : isIdentifierRest c = true := by
  rw [isIdentifierRest, if_pos (toNat_lt_of_isAlphanum h), h]

theorem isIdentifierStart_of_isAlpha (h : (c.isAlpha || c == '_') = true) : isIdentifierStart c = true := by
  have rest : (c.isAlphanum || c == '_') = true := by
    rw [Char.isAlphanum, Bool.or_eq_true, Bool.or_eq_true]
    exact (Bool.or_eq_true _ _ ▸ h).imp_left .inl
  rw [isIdentifierStart, if_pos (toNat_lt_of_isAlphanum rest), h]

theorem HeadIn.endsWord (parted : HeadIn separators left) : ∀ c ∈ left.head?, isIdentifierRest c = false :=
  fun c mem => (of_mem_separators (parted c mem)).1

theorem IsName.wordAt (name : IsName n) (ends : ∀ c ∈ left.head?, isIdentifierRest c = false) :
    wordAt (n ++ left) = n ∧ wordLength (n ++ left) = n.length := by
  obtain ⟨c, ds, rfl, start⟩ := name.start
  exact wordAt_append ⟨c, ds, rfl, isIdentifierStart_of_isAlpha start⟩
    (fun d mem => isIdentifierRest_of_isAlphanum (name.rest d mem)) ends

theorem IsName.ne_nil (name : IsName n) : n ≠ [] := by
  obtain ⟨c, ds, rfl, -⟩ := name.start
  exact List.cons_ne_nil c ds

theorem beginsString_word (rest : ∀ c ∈ n, isIdentifierRest c = true) (parted : HeadIn separators left) :
    beginsString (n ++ left) = false := by
  induction n with
  | nil =>
    cases left with
    | nil => rfl
    | cons c left =>
      obtain ⟨-, noPrefix, noQuote, -⟩ := of_mem_separators (parted c rfl)
      rw [List.nil_append, beginsString_cons noPrefix, noQuote]
  | cons c n ih =>
    rw [List.cons_append]
    cases letter : isStringPrefix c with
    | true =>
      rw [beginsString, List.dropWhile_cons_of_pos letter]
      exact ih fun d mem => rest d (List.mem_cons_of_mem c mem)
    | false =>
      rw [beginsString_cons letter]
      by_cases quote : isQuoteMark c = true
      · have part := rest c List.mem_cons_self
        simp only [isQuoteMark, Bool.or_eq_true, beq_iff_eq] at quote
        rcases quote with (rfl | rfl) | rfl <;> exact absurd part (by decide)
      · exact Bool.eq_false_iff.mpr quote

theorem IsName.opens (name : IsName n) (parted : HeadIn separators left) : Opens .name (n ++ left) := by
  obtain ⟨word, -⟩ := name.wordAt parted.endsWord
  refine ⟨?_, ?_, beginsString_word (fun c mem => isIdentifierRest_of_isAlphanum (name.rest c mem)) parted⟩
  · rw [word]
    exact name.ne_nil
  · rw [word]
    exact name.free

theorem IsName.length_eq {except : List (List Char)} (name : IsName n)
    (ends : ∀ c ∈ left.head?, isIdentifierRest c = false) (sub : ∀ w ∈ except, w ∈ reservedWords) : (Token.name except).length? quotes (n ++ left) = some n.length := by
  obtain ⟨word, length⟩ := name.wordAt ends
  rw [Syntax.wordAt, length] at word
  have ne : n.length ≠ 0 := fun zero => name.ne_nil (List.length_eq_zero_iff.mp zero)
  have none : (decide (n.length = 0) || except.contains n) = false := by
    rw [Bool.or_eq_false_iff, decide_eq_false_iff_not]
    exact ⟨ne, Bool.eq_false_iff.mpr fun mem => name.free (sub n (List.contains_iff_mem.mp mem))⟩
  simp only [Token.length?, length, word, none, Bool.false_eq_true, if_false]

/-! ### Keywords -/

theorem keyword_wordAt (start : ∃ c v, n = c :: v ∧ isIdentifierStart c = true)
    (rest : ∀ c ∈ n, isIdentifierRest c = true) (parted : HeadIn separators left) :
    (Token.keyword n).length? quotes (n ++ left) = some n.length ∧ Opens (.word n) (n ++ left) := by
  have word := wordAt_append start rest parted.endsWord
  have ne : n ≠ [] := by
    obtain ⟨c, v, rfl, -⟩ := start
    exact List.cons_ne_nil c v
  refine ⟨?_, word.1, ne, beginsString_word rest parted⟩
  rw [Token.length?, ← Syntax.wordAt, word.1, if_pos rfl]
  obtain ⟨c, v, rfl, -⟩ := start
  rfl

/-! ### Marks -/

theorem mem_linking : ∀ l ∈ longMarks, ∀ d ∈ l.tail, d ∈ linking := by decide

theorem opensMark (solid : ∃ c ds, m = c :: ds ∧ c ∈ markCharacters) (known : m.length = 1 ∨ m ∈ longMarks)
    (unlinked : HeadOut linking left) (noPoint : m = ['.'] → ∀ d ∈ left.head?, isDigit d = false)
    (noDots : m.head? = some '.' → m = ['.']) : OpensMark m (m ++ left) := by
  refine ⟨List.prefix_append m left, solid, known, fun l long isHead => ?_, ?_⟩
  · by_cases le : l.length ≤ m.length
    · exact le
    · obtain ⟨rest, rfl⟩ := List.prefix_of_prefix_length_le (List.prefix_append m left) isHead (by omega)
      rw [List.prefix_append_right_inj] at isHead
      obtain ⟨c, ds, rfl, -⟩ := solid
      cases rest with
      | nil => exact absurd (by simp) le
      | cons d rest =>
        obtain ⟨left', rfl⟩ := isHead
        refine absurd (mem_linking _ long d ?_) (unlinked d rfl)
        simp
  · obtain ⟨c, ds, rfl, mem⟩ := solid
    by_cases point : c = '.'
    · subst point
      obtain rfl : ds = [] := (List.cons.inj (noDots rfl)).2
      have fraction : Number.digits left = 0 := by
        cases left with
        | nil => rfl
        | cons d left => simp [Number.digits, Number.digitsAfter, noPoint rfl d rfl]
      have noDigit : isDigit '.' = false := by decide
      have whole : Number.digits ('.' :: left) = 0 := by simp [Number.digits, Number.digitsAfter, noDigit]
      simp only [List.cons_append, List.nil_append, Number.length, Number.decimal, whole, List.drop_zero, fraction]
      rfl
    · rw [List.cons_append]
      exact numberLength_cons (of_mem_markCharacters mem).2.1 point

theorem opensMark_lone (h : c ∈ "(),:".toList) (left : List Char) (noWalrus : c = ':' → left.head? ≠ some '=') :
    OpensMark [c] (c :: left) := by
  have known : ∀ c ∈ "(),:".toList, c ∈ markCharacters ∧ isDigit c = false ∧ c ≠ '.' ∧
      ∀ l ∈ longMarks, l.head? = some c → l = [':', '='] ∧ c = ':' := by decide
  obtain ⟨mem, noDigit, noPoint, lone⟩ := known c h
  refine ⟨⟨left, rfl⟩, ⟨c, [], rfl, mem⟩, .inl rfl, fun l long isHead => ?_, numberLength_cons noDigit noPoint⟩
  cases l with
  | nil => exact Nat.zero_le 1
  | cons d l =>
    obtain ⟨rest, same⟩ := isHead
    obtain ⟨rfl, tail⟩ := List.cons.inj same
    obtain ⟨walrus, rfl⟩ := lone _ long rfl
    obtain rfl := (List.cons.inj walrus).2
    exact absurd (tail ▸ rfl) (noWalrus rfl)

/-! ### Integers -/

theorem digitsAfter_append (integer : IsInteger n) (was : Bool)
    (stops : ∀ c ∈ left.head?, isDigit c = false ∧ c ≠ '_') : Number.digitsAfter was (n ++ left) = n.length := by
  have notLow {d : Char} (digit : isDigit d = true) : d ≠ '_' := by
    rintro rfl
    exact absurd digit (by decide)
  induction integer generalizing was with
  | @digit d digit =>
    have none : Number.digitsAfter true left = 0 := by
      cases left with
      | nil => rfl
      | cons c left =>
        obtain ⟨noDigit, noLow⟩ := stops c rfl
        simp [Number.digitsAfter, noDigit, noLow]
    simp [Number.digitsAfter, digit, none]
  | @cons d ds digit _ ih => simp [Number.digitsAfter, digit, ih, Nat.add_comm]
  | @low d ds digit _ ih =>
    have noDigit : isDigit '_' = false := by decide
    simp only [List.cons_append, Number.digitsAfter, digit, noDigit, if_true, Bool.false_eq_true, if_false, ih,
      decide_true, Bool.and_self, List.length_cons]
    omega

theorem IsInteger.start (integer : IsInteger n) : ∃ d ds, n = d :: ds ∧ isDigit d = true := by
  cases integer with
  | digit digit => exact ⟨_, _, rfl, digit⟩
  | cons digit _ => exact ⟨_, _, rfl, digit⟩
  | low digit _ => exact ⟨_, _, rfl, digit⟩

theorem IsInteger.second {a b : Char} (integer : IsInteger (a :: b :: ds)) : isDigit b = true ∨ b = '_' := by
  cases integer with
  | cons _ further =>
    obtain ⟨d, es, same, digit⟩ := further.start
    obtain ⟨rfl, -⟩ := List.cons.inj same
    exact .inl digit
  | low _ _ => exact .inr rfl

theorem IsInteger.opens (integer : IsInteger n) : Opens .digit (n ++ left) := by
  obtain ⟨d, ds, rfl, digit⟩ := integer.start
  exact ⟨d, ds ++ left, rfl, digit⟩

/-- An integer is read up to a separator that is no point. -/
theorem IsInteger.length_eq (integer : IsInteger n) (parted : HeadIn separators left) (noPoint : HeadOut ['.'] left) :
    Token.number.length? quotes (n ++ left) = some n.length := by
  have ends := fun c mem => of_mem_separators (parted c mem)
  have whole : Number.digits (n ++ left) = n.length :=
    digitsAfter_append integer false fun c mem => by
      obtain ⟨-, -, -, noDigit, other⟩ := ends c mem
      exact ⟨noDigit, fun low => other (by rw [low]; exact List.mem_cons_self)⟩
  have pos : n.length ≠ 0 := by
    obtain ⟨d, ds, rfl, -⟩ := integer.start
    exact Nat.succ_ne_zero _
  have decimal : Number.decimal (n ++ left) = n.length := by
    simp only [Number.decimal, whole, List.drop_left]
    split
    · exact absurd List.mem_cons_self (noPoint _ rfl)
    · rw [if_neg pos]
      cases left with
      | nil => rfl
      | cons c left =>
        obtain ⟨-, -, -, -, other⟩ := ends c rfl
        simp only [List.mem_cons, List.not_mem_nil, or_false, not_or] at other
        obtain ⟨-, e, e', j, j', l, l', -⟩ := other
        simp [Number.exponent, Number.suffix, Number.isLong, Number.isImaginary, e, e', j, j', l, l']
  have noBase {b : Char} {rest : List Char} (same : n ++ left = '0' :: b :: rest) :
      ¬(b = 'x' ∨ b = 'X') ∧ ¬(b = 'o' ∨ b = 'O') ∧ ¬(b = 'b' ∨ b = 'B') := by
    cases n with
    | nil => exact absurd rfl pos
    | cons a ds =>
      cases ds with
      | nil =>
        obtain ⟨-, rfl⟩ := List.cons.inj same
        have other := (ends b rfl).2.2.2.2
        simp only [List.mem_cons, List.not_mem_nil, or_false, not_or] at other
        obtain ⟨-, -, -, -, -, -, -, x, x', o, o', b, b'⟩ := other
        exact ⟨not_or.mpr ⟨x, x'⟩, not_or.mpr ⟨o, o'⟩, not_or.mpr ⟨b, b'⟩⟩
      | cons a' ds =>
        obtain ⟨rfl, -⟩ := List.cons.inj (List.cons.inj same).2
        rcases integer.second with digit | rfl
        · exact Text.forall_isDigit (p := fun b => ¬(b = 'x' ∨ b = 'X') ∧ ¬(b = 'o' ∨ b = 'O') ∧
            ¬(b = 'b' ∨ b = 'B')) (by decide) digit
        · decide
  have length : Number.length (n ++ left) = n.length := by
    simp only [Number.length]
    split
    · rename_i b rest same
      obtain ⟨noHex, noOctal, noBinary⟩ := noBase same
      rw [if_neg noHex, if_neg noOctal, if_neg noBinary, if_pos rfl, decimal]
    · rw [if_pos rfl, decimal]
  rw [Token.length?, length]
  obtain ⟨d, ds, rfl, -⟩ := integer.start
  rfl

end Footprint.Syntax
