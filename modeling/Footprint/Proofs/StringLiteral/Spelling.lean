import Footprint.Proofs.StringLiteral.Tokens

/-!
# Spellings of a string

The ways to write a string between the quotes of a literal: each character as it is, by a letter, or by its
code in octal or hexadecimal digits, and joined lines anywhere between. All of them stand for the string.
-/

namespace Footprint.StringLiteral

open Text

def letterEscapes : List (Char × Char) :=
  [('\\', '\\'), ('\'', '\''), ('"', '"'), ('a', '\x07'), ('b', '\x08'), ('f', '\x0c'), ('n', '\n'), ('r', '\r'),
    ('t', '\t'), ('v', '\x0b')]

/-- The letters of hexadecimal escapes, and how many digits follow each. -/
def hexEscapes : List (Char × Nat) := [('x', 2), ('u', 4), ('U', 8)]

/-- Ways to write a character with a backslash. -/
inductive SpellsEscape : Char → List Char → Prop
  | letter {c l : Char} : (l, c) ∈ letterEscapes → SpellsEscape c ['\\', l]
  | octal {c : Char} {ds : List Char} : ds.length = 3 → (∀ d ∈ ds, isOctal d = true) → digitsValue 8 ds = c.toNat →
    SpellsEscape c ('\\' :: ds)
  | hex {c x : Char} {width : Nat} {ds : List Char} : (x, width) ∈ hexEscapes → ds.length = width →
    (∀ d ∈ ds, isHex d = true) → digitsValue 16 ds = c.toNat → SpellsEscape c ('\\' :: x :: ds)

/-- Ways to write a string as the body of a literal. In single quotes a quote has to be escaped. -/
inductive SpellsBody (mark : Char) (triple : Bool) : List Char → List Char → Prop
  | nil : SpellsBody mark triple [] []
  | verbatim {c : Char} {s body : List Char} : c ≠ '\\' → (triple = false → c ≠ mark) →
    SpellsBody mark triple s body → SpellsBody mark triple (c :: s) (c :: body)
  | escape {c : Char} {e s body : List Char} : SpellsEscape c e → SpellsBody mark triple s body →
    SpellsBody mark triple (c :: s) (e ++ body)
  | join {s body : List Char} : SpellsBody mark triple s body → SpellsBody mark triple s ('\\' :: '\n' :: body)
  | joinReturn {s body : List Char} : SpellsBody mark triple s body →
    SpellsBody mark triple s ('\\' :: '\r' :: '\n' :: body)

variable {mark c l : Char} {triple : Bool} {letters s body e ds cs : List Char} {n width : Nat}

theorem escape_cons (noFeed : c ≠ '\n') (noReturn : c ≠ '\r') (cs : List Char) :
    escape (c :: cs) =
      match letterEscape? c with
      | some d => ([d], 1)
      | none =>
        if isOctal c then
          ([Char.ofNat (digitsValue 8 ((c :: cs.take 2).takeWhile isOctal))],
            ((c :: cs.take 2).takeWhile isOctal).length)
        else
          match (hexWidth? c).bind fun w => (hexEscape? w cs).map (·, w) with
          | some (d, w) => ([d], w + 1)
          | none => (['\\', c], 1) := by
  unfold escape
  split
  · contradiction
  · exact absurd (List.cons.inj ‹_›).1 noFeed
  · exact absurd (List.cons.inj ‹_›).1 noReturn
  · exact absurd (List.cons.inj ‹_›).1 noReturn
  · obtain ⟨rfl, rfl⟩ := List.cons.inj ‹_›
    rfl

theorem escape_letter (mem : (l, c) ∈ letterEscapes) (cs : List Char) : escape (l :: cs) = ([c], 1) := by
  have known : ∀ p ∈ letterEscapes, letterEscape? p.1 = some p.2 ∧ p.1 ≠ '\n' ∧ p.1 ≠ '\r' := by decide
  obtain ⟨stands, noFeed, noReturn⟩ := known _ mem
  rw [escape_cons noFeed noReturn, stands]

theorem escape_octal (octal : ∀ d ∈ ds, isOctal d = true) (nonempty : ds ≠ []) (le : ds.length ≤ 3)
    (ends : ds.length = 3 ∨ ∀ d ∈ cs.head?, isOctal d = false) :
    escape (ds ++ cs) = ([Char.ofNat (digitsValue 8 ds)], ds.length) := by
  have plain : ∀ d ∈ ['0', '1', '2', '3', '4', '5', '6', '7'], letterEscape? d = none ∧ d ≠ '\n' ∧ d ≠ '\r' := by
    decide
  cases ds with
  | nil => contradiction
  | cons d ds =>
    rw [List.forall_mem_cons] at octal
    obtain ⟨noLetter, noFeed, noReturn⟩ := plain d (mem_octals octal.1)
    have taken : ((ds ++ cs).take 2).takeWhile isOctal = ds :=
      takeWhile_take_run octal.2 (Nat.le_of_succ_le_succ le) (ends.imp_left Nat.succ.inj)
    rw [List.cons_append, escape_cons noFeed noReturn, noLetter]
    simp only [octal.1, if_true, List.takeWhile_cons_of_pos, taken]

theorem hexEscape?_eq (width : Nat) (cs : List Char) :
    hexEscape? width cs =
      if ((cs.take width).takeWhile isHex).length = width then charOf? (digitsValue 16 ((cs.take width).takeWhile isHex))
      else none := by
  have short : (cs.take width).length ≤ width := List.length_take_le _ _
  have isHead : (cs.take width).takeWhile isHex <+: cs.take width := List.takeWhile_prefix _
  rw [hexEscape?]
  by_cases length : ((cs.take width).takeWhile isHex).length = width
  · have same : (cs.take width).takeWhile isHex = cs.take width :=
      isHead.eq_of_length_le (by omega)
    have all : (cs.take width).all isHex = true := by
      rw [← same]
      exact List.all_takeWhile
    have full : (cs.take width).length = width := by rw [← same, length]
    simp only [same, all, full, decide_true, Bool.and_self, if_true]
  · rw [if_neg length, if_neg]
    rw [Bool.and_eq_true, decide_eq_true_eq]
    rintro ⟨full, all⟩
    have same : (cs.take width ++ []).takeWhile isHex = cs.take width ++ [] :=
      List.takeWhile_append_of_pos (List.all_eq_true.mp all)
    rw [List.append_nil] at same
    exact length (by rw [same, full])

theorem hexEscape?_full (length : ds.length = width) (hex : ∀ d ∈ ds, isHex d = true) (cs : List Char) :
    hexEscape? width (ds ++ cs) = charOf? (digitsValue 16 ds) := by
  rw [hexEscape?_eq, takeWhile_take_run hex (Nat.le_of_eq length) (.inl length), if_pos length]

theorem escape_hexLetter {x : Char} (mem : (x, width) ∈ hexEscapes) (cs : List Char) :
    escape (x :: cs) =
      match hexEscape? width cs with
      | some d => ([d], width + 1)
      | none => (['\\', x], 1) := by
  have known : ∀ p ∈ hexEscapes, hexWidth? p.1 = some p.2 ∧ letterEscape? p.1 = none ∧ isOctal p.1 = false ∧
      p.1 ≠ '\n' ∧ p.1 ≠ '\r' := by decide
  obtain ⟨isWidth, noLetter, noOctal, noFeed, noReturn⟩ := known _ mem
  rw [escape_cons noFeed noReturn, noLetter]
  simp only [noOctal, isWidth, Option.bind_some]
  cases hexEscape? width cs <;> rfl

theorem escape_hex {x : Char} (mem : (x, width) ∈ hexEscapes) (length : ds.length = width)
    (hex : ∀ d ∈ ds, isHex d = true) (value : digitsValue 16 ds = c.toNat) (cs : List Char) :
    escape (x :: (ds ++ cs)) = ([c], width + 1) := by
  rw [escape_hexLetter mem, hexEscape?_full length hex, value, charOf?_toNat]

/-- An escape stands for its character, whatever follows. -/
theorem decode_escape (spelled : SpellsEscape c e) (cs : List Char) : decode (e ++ cs) = c :: decode cs := by
  cases spelled with
  | letter mem => rw [List.cons_append, List.singleton_append, decode_backslash, escape_letter mem]; rfl
  | @octal ds three octal value =>
    have nonempty : ds ≠ [] := List.ne_nil_of_length_pos (by omega)
    rw [List.cons_append, decode_backslash, escape_octal octal nonempty (Nat.le_of_eq three) (.inl three), value,
      Char.ofNat_toNat, List.drop_left]
    rfl
  | hex mem length hex value =>
    rw [List.cons_append, List.cons_append, decode_backslash, escape_hex mem length hex value, List.drop_succ_cons,
      ← length, List.drop_left]
    rfl

/-- A body stands for the string that it spells. -/
theorem decode_of_spellsBody (spelled : SpellsBody mark triple s body) : decode body = s := by
  induction spelled with
  | nil => rfl
  | verbatim noEscape _ _ ih => rw [decode_cons_of_ne noEscape, ih]
  | escape escape _ ih => rw [decode_escape escape, ih]
  | join _ ih => rw [decode_backslash]; exact ih
  | joinReturn _ ih => rw [decode_backslash]; exact ih

theorem SpellsBody.head_ne (spelled : SpellsBody mark false s body) (quote : IsMark mark) : body.head? ≠ some mark := by
  have noBackslash : some '\\' ≠ some mark := by rcases quote with rfl | rfl <;> decide
  cases spelled with
  | nil => nofun
  | verbatim _ inside _ => exact fun same => inside rfl (Option.some.inj same)
  | escape escape _ => cases escape <;> exact noBackslash
  | join _ => exact noBackslash
  | joinReturn _ => exact noBackslash

/-- A literal of text holds the string that its body spells, or behind an `r` the body as it stands. Behind an `f` or
a `t` it has fields, and otherwise behind a `b` it is bytes, whatever the body. -/
theorem ofToken?_of_spelled (mark : Char) (triple : Bool) (letters body : List Char) (quote : IsMark mark)
    (known : ∀ c ∈ letters, c ∈ prefixLetters) :
    ((∀ c ∈ letters, c ∈ ['u', 'U']) → ∀ s : String, SpellsBody mark triple s.toList body →
      ofToken? (letters ++ (delimiter mark triple ++ (body ++ delimiter mark triple))) = some (text s)) ∧
    ((∀ c ∈ letters, c ∈ ['r', 'R', 'u', 'U']) → ('r' ∈ letters ∨ 'R' ∈ letters) → (triple = false → mark ∉ body) →
      ofToken? (letters ++ (delimiter mark triple ++ (body ++ delimiter mark triple))) =
        some (text (String.ofList body))) ∧
    (('f' ∈ letters ∨ 'F' ∈ letters ∨ 't' ∈ letters ∨ 'T' ∈ letters) →
      ofToken? (letters ++ (delimiter mark triple ++ (body ++ delimiter mark triple))) = some formatted) ∧
    ('f' ∉ letters → 'F' ∉ letters → 't' ∉ letters → 'T' ∉ letters → ('b' ∈ letters ∨ 'B' ∈ letters) →
      ofToken? (letters ++ (delimiter mark triple ++ (body ++ delimiter mark triple))) = some bytes) := by
  have alone (inside : triple = false → mark ∉ body) : triple = false → body.head? ≠ some mark :=
    fun single same => inside single (List.mem_of_head? same)
  have holds {c l : Char} (mem : c ∈ letters) (lower : c.toLower = l) : hasLetter letters l = true :=
    hasLetter_eq_true_iff.mpr ⟨c, mem, lower⟩
  obtain ⟨ds, delimiter⟩ := delimiter_eq_cons mark triple
  have prefixed := ofToken?_prefixed known quote (ds ++ (body ++ mark :: ds))
  refine ⟨fun plain s spelled => ?_, fun raw hasRaw inside => ?_, fun fields => ?_, fun f F t T bytes => ?_⟩
  · have cooked : ∀ c ∈ ['u', 'U'], c ∈ ['r', 'R', 'u', 'U'] ∧ c.toLower ≠ 'r' := by decide
    have noRaw : hasLetter letters 'r' = false := hasLetter_eq_false 'r' fun c mem => (cooked c (plain c mem)).2
    have single : triple = false → body.head? ≠ some mark := by
      rintro rfl
      exact spelled.head_ne quote
    rw [ofToken?_text (fun c mem => (cooked c (plain c mem)).1) quote single, noRaw, if_neg Bool.false_ne_true,
      decode_of_spellsBody spelled, String.ofList_toList]
  · have isRaw : hasLetter letters 'r' = true := hasRaw.elim (holds · rfl) (holds · (by decide))
    rw [ofToken?_text raw quote (alone inside), isRaw, if_pos rfl]
  · have formatted : (hasLetter letters 'f' || hasLetter letters 't') = true := by
      rw [Bool.or_eq_true]
      rcases fields with f | F | t | T
      · exact .inl (holds f rfl)
      · exact .inl (holds F (by decide))
      · exact .inr (holds t rfl)
      · exact .inr (holds T (by decide))
    rw [delimiter, List.cons_append, prefixed, formatted, if_pos rfl]
  · have upper : ∀ c ∈ prefixLetters, (c.toLower = 'f' → c = 'f' ∨ c = 'F') ∧ (c.toLower = 't' → c = 't' ∨ c = 'T') := by
      decide
    have noFields : hasLetter letters 'f' = false := hasLetter_eq_false 'f' fun c mem lower => by
      rcases (upper c (known c mem)).1 lower with rfl | rfl
      · exact f mem
      · exact F mem
    have noTemplate : hasLetter letters 't' = false := hasLetter_eq_false 't' fun c mem lower => by
      rcases (upper c (known c mem)).2 lower with rfl | rfl
      · exact t mem
      · exact T mem
    have isBytes : hasLetter letters 'b' = true := bytes.elim (holds · rfl) (holds · (by decide))
    rw [delimiter, List.cons_append, prefixed, noFields, noTemplate, isBytes]
    rfl

/-- In `uU` and single quotes: `A` in hexadecimal digits, a joined line, `A` in octal digits before a digit, an
escaped quote. The same body raw between three quotes, and behind letters of fields and of bytes. -/
theorem ofToken?_of_spelled_mixed :
    let body := "\\x41\\\r\n\\1018\\'".toList
    SpellsBody '\'' false "AA8'".toList body ∧
      ofToken? (['u', 'U'] ++ (delimiter '\'' false ++ (body ++ delimiter '\'' false))) = some (text "AA8'") ∧
      ofToken? (['u', 'R'] ++ (delimiter '"' true ++ (body ++ delimiter '"' true))) =
        some (text (String.ofList body)) ∧
      ofToken? (['b', 'F'] ++ (delimiter '"' true ++ (body ++ delimiter '"' true))) = some formatted ∧
      ofToken? (['r', 'B'] ++ (delimiter '\'' false ++ (body ++ delimiter '\'' false))) = some bytes := by
  intro body
  have hex : SpellsEscape 'A' ['\\', 'x', '4', '1'] := .hex (by decide) rfl (by decide) rfl
  have octal : SpellsEscape 'A' ['\\', '1', '0', '1'] := .octal rfl (by decide) rfl
  have spelled : SpellsBody '\'' false "AA8'".toList body :=
    .escape hex (.joinReturn (.escape octal (.verbatim (by decide) (by decide) (.escape (.letter (by decide)) .nil))))
  refine ⟨spelled, ?_, ?_, ?_, ?_⟩
  · exact (ofToken?_of_spelled '\'' false ['u', 'U'] body (.inl rfl) (by decide)).1 (by decide) "AA8'" spelled
  · exact (ofToken?_of_spelled '"' true ['u', 'R'] body (.inr rfl) (by decide)).2.1 (by decide) (by decide) nofun
  · exact (ofToken?_of_spelled '"' true ['b', 'F'] body (.inr rfl) (by decide)).2.2.1 (by decide)
  · exact (ofToken?_of_spelled '\'' false ['r', 'B'] body (.inl rfl) (by decide)).2.2.2 (by decide) (by decide)
      (by decide) (by decide) (by decide)

end Footprint.StringLiteral
