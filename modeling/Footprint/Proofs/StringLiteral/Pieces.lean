import Footprint.Proofs.StringLiteral.Spelling
import Footprint.Proofs.Text.Codes

/-!
# The pieces of a body

A body is made of characters that are no backslashes, of escapes that stand for something else, and of backslashes
that make no escape with what follows them and stay. How far a piece goes may depend on what stands behind it: octal
digits are read as far as they go, up to three. Decoding puts for each piece what it stands for, one after the other.
-/

namespace Footprint.StringLiteral

open Text

variable {c x : Char} {e v rest ds cs : List Char} {width : Nat}

/-- The characters that make an escape with the backslash before them, some of them only with digits. -/
def escapable : List Char := "\n\r\\'\"abfnrtv01234567xuU".toList

/-- Escapes, what they stand for, and what may follow them. -/
inductive StandsFor : List Char → List Char → List Char → Prop
  | character {c : Char} {e rest : List Char} : SpellsEscape c e → StandsFor e [c] rest
  | octal {c : Char} {ds rest : List Char} : ds ≠ [] → ds.length < 3 → (∀ d ∈ ds, isOctal d = true) →
    digitsValue 8 ds = c.toNat → (∀ d ∈ rest.head?, isOctal d = false) → StandsFor ('\\' :: ds) [c] rest
  | feed {rest : List Char} : StandsFor ['\\', '\n'] [] rest
  | returnFeed {rest : List Char} : StandsFor ['\\', '\r', '\n'] [] rest
  | loneReturn {rest : List Char} : (∀ d ∈ rest.head?, d ≠ '\n') → StandsFor ['\\', '\r'] [] rest

/-- Backslashes that make no escape, with what they might have made one of, and what may follow that: nothing, a
character without a meaning, a name in braces, or hexadecimal digits that are too few or the code of no character. -/
inductive Stays : List Char → List Char → Prop
  | lone : Stays ['\\'] []
  | unknown {c : Char} {rest : List Char} : c ∉ escapable → Stays ['\\', c] rest
  | named {name rest : List Char} : '\\' ∉ name → Stays ('\\' :: 'N' :: '{' :: (name ++ ['}'])) rest
  | truncated {x : Char} {width : Nat} {ds rest : List Char} : (x, width) ∈ hexEscapes → ds.length < width →
    (∀ d ∈ ds, isHex d = true) → (∀ d ∈ rest.head?, isHex d = false) → Stays ('\\' :: x :: ds) rest
  | noCharacter {x : Char} {width : Nat} {ds rest : List Char} : (x, width) ∈ hexEscapes → ds.length = width →
    (∀ d ∈ ds, isHex d = true) →
    (0xD800 ≤ digitsValue 16 ds ∧ digitsValue 16 ds ≤ 0xDFFF ∨ 0x10FFFF < digitsValue 16 ds) →
    Stays ('\\' :: x :: ds) rest

/-- A piece of a body, what it stands for, and what may follow it. -/
inductive Piece : List Char → List Char → List Char → Prop
  | plain {c : Char} {rest : List Char} : c ≠ '\\' → Piece [c] [c] rest
  | stands {e v rest : List Char} : StandsFor e v rest → Piece e v rest
  | stays {e rest : List Char} : Stays e rest → Piece e e rest

/-! ### What decoding makes of a piece -/

theorem decode_append_of_notMem (plain : '\\' ∉ ds) (cs : List Char) : decode (ds ++ cs) = ds ++ decode cs := by
  induction ds with
  | nil => rfl
  | cons d ds ih =>
    rw [List.mem_cons, not_or] at plain
    rw [List.cons_append, decode_cons_of_ne (Ne.symm plain.1), ih plain.2, List.cons_append]

theorem notMem_of_isHex (digits : ∀ d ∈ ds, isHex d = true) : '\\' ∉ ds := by
  intro mem
  exact absurd (digits _ mem) (by decide)

theorem decode_unknown (unknown : c ∉ escapable) (cs : List Char) :
    decode ('\\' :: c :: cs) = '\\' :: c :: decode cs := by
  have noLetter : letterEscape? c = none := by
    unfold letterEscape?
    split
    all_goals first | rfl | exact absurd (by decide) unknown
  have noHex : hexWidth? c = none := by
    unfold hexWidth?
    split
    all_goals first | rfl | exact absurd (by decide) unknown
  have noOctal : isOctal c = false := by
    have known : ∀ d ∈ ['0', '1', '2', '3', '4', '5', '6', '7'], d ∈ escapable := by decide
    apply Bool.eq_false_iff.mpr
    intro octal
    exact unknown (known c (mem_octals octal))
  have noBreak : c ≠ '\n' ∧ c ≠ '\r' := by
    constructor <;> rintro rfl <;> exact unknown (by decide)
  have stays : escape (c :: cs) = (['\\', c], 1) := by
    rw [escape_cons noBreak.1 noBreak.2, noLetter]
    simp [noOctal, noHex]
  rw [decode_backslash, stays]
  rfl

theorem decode_of_hexEscape?_none (mem : (x, width) ∈ hexEscapes) (none : hexEscape? width cs = none) :
    decode ('\\' :: x :: cs) = '\\' :: x :: decode cs := by
  rw [decode_backslash, escape_hexLetter mem, none]
  rfl

theorem hexEscape?_truncated (short : ds.length < width) (digits : ∀ d ∈ ds, isHex d = true)
    (ends : ∀ d ∈ rest.head?, isHex d = false) : hexEscape? width (ds ++ rest) = none := by
  rw [hexEscape?_eq, takeWhile_take_run digits (Nat.le_of_lt short) (.inr ends), if_neg (Nat.ne_of_lt short)]

theorem hexEscape?_noCharacter (full : ds.length = width) (digits : ∀ d ∈ ds, isHex d = true)
    (outside : 0xD800 ≤ digitsValue 16 ds ∧ digitsValue 16 ds ≤ 0xDFFF ∨ 0x10FFFF < digitsValue 16 ds)
    (rest : List Char) : hexEscape? width (ds ++ rest) = none := by
  rw [hexEscape?_full full digits, charOf?, if_neg]
  unfold Nat.isValidChar
  omega

theorem StandsFor.decode_append (stands : StandsFor e v rest) : decode (e ++ rest) = v ++ decode rest := by
  cases stands with
  | character spelled => exact decode_escape spelled rest
  | octal nonempty short octal value ends =>
    rw [List.cons_append, decode_backslash, escape_octal octal nonempty (Nat.le_of_lt short) (.inr ends), value,
      Char.ofNat_toNat, List.drop_left]
  | feed => exact decode_backslash _
  | returnFeed => exact decode_backslash _
  | loneReturn ends =>
    have taken : escape ('\r' :: rest) = ([], 1) := by
      rw [escape]
      rintro tail rfl
      exact ends '\n' rfl rfl
    show decode ('\\' :: '\r' :: rest) = decode rest
    rw [decode_backslash, taken]
    rfl

theorem Stays.decode_append (stays : Stays e rest) : decode (e ++ rest) = e ++ decode rest := by
  cases stays with
  | lone => rfl
  | unknown unknown => exact decode_unknown unknown rest
  | @named name _ plain =>
    have inner : '\\' ∉ '{' :: (name ++ ['}']) := by simp [plain]
    show decode ('\\' :: 'N' :: ('{' :: (name ++ ['}']) ++ rest)) = _
    rw [decode_unknown (by decide), decode_append_of_notMem inner]
    rfl
  | truncated mem short digits ends =>
    rw [List.cons_append, List.cons_append, decode_of_hexEscape?_none mem (hexEscape?_truncated short digits ends),
      decode_append_of_notMem (notMem_of_isHex digits)]
    rfl
  | noCharacter mem full digits outside =>
    rw [List.cons_append, List.cons_append,
      decode_of_hexEscape?_none mem (hexEscape?_noCharacter full digits outside rest),
      decode_append_of_notMem (notMem_of_isHex digits)]
    rfl

/-- What a piece stands for is put first, and what follows is decoded on its own. -/
theorem Piece.decode_append (piece : Piece e v rest) : decode (e ++ rest) = v ++ decode rest := by
  cases piece with
  | plain noEscape => exact decode_cons_of_ne noEscape rest
  | stands stands => exact stands.decode_append
  | stays stays => exact stays.decode_append

/-! ### Every body is made of pieces -/

theorem exists_piece_backslash (cs : List Char) : ∃ e v rest, '\\' :: cs = e ++ rest ∧ Piece e v rest := by
  rcases cs with _ | ⟨c, cs⟩
  · exact ⟨['\\'], ['\\'], [], rfl, .stays .lone⟩
  by_cases known : c ∈ escapable
  case neg => exact ⟨['\\', c], ['\\', c], cs, rfl, .stays (.unknown known)⟩
  -- a line end, a letter, and digits of both kinds, which are read up to the number that makes an escape
  have kinds : ∀ c ∈ escapable, c = '\n' ∨ c = '\r' ∨ (∃ p ∈ letterEscapes, p.1 = c) ∨ isOctal c = true ∨
      ∃ p ∈ hexEscapes, p.1 = c := by decide
  rcases kinds c known with rfl | rfl | ⟨⟨l, d⟩, mem, rfl⟩ | octal | ⟨⟨x, width⟩, mem, rfl⟩
  · exact ⟨['\\', '\n'], [], cs, rfl, .stands .feed⟩
  · by_cases feed : cs.head? = some '\n'
    · obtain ⟨rest, rfl⟩ := List.head?_eq_some_iff.mp feed
      exact ⟨['\\', '\r', '\n'], [], rest, rfl, .stands .returnFeed⟩
    · refine ⟨['\\', '\r'], [], cs, rfl, .stands (.loneReturn ?_)⟩
      rintro d first rfl
      exact feed first
  · exact ⟨['\\', l], [d], cs, rfl, .stands (.character (.letter mem))⟩
  · obtain ⟨ds, rest, rfl, digits, ends⟩ := exists_run isOctal 2 cs
    have octals : ∀ d ∈ c :: ds, isOctal d = true := List.forall_mem_cons.mpr ⟨octal, digits⟩
    have few : 8 ^ (c :: ds).length ≤ 0xD800 := by
      have le : (c :: ds).length ≤ 3 := by rw [List.length_cons]; omega
      exact Nat.le_trans (Nat.pow_le_pow_right (by decide) le) (by decide)
    obtain ⟨v, value⟩ := exists_of_digits (fun d mem => digitValue_lt_of_isOctal (octals d mem)) few
    refine ⟨'\\' :: c :: ds, [v], rest, rfl, .stands ?_⟩
    rcases ends with full | ⟨short, ends⟩
    · exact .character (.octal (congrArg Nat.succ full) octals value)
    · exact .octal (List.cons_ne_nil c ds) (Nat.succ_lt_succ short) octals value ends
  · obtain ⟨ds, rest, rfl, digits, full | ⟨short, ends⟩⟩ := exists_run isHex width cs
    · rcases exists_toNat_eq (digitsValue 16 ds) with ⟨v, value⟩ | outside
      · exact ⟨'\\' :: x :: ds, [v], rest, rfl, .stands (.character (.hex mem full digits value))⟩
      · exact ⟨'\\' :: x :: ds, _, rest, rfl, .stays (.noCharacter mem full digits outside)⟩
    · exact ⟨'\\' :: x :: ds, _, rest, rfl, .stays (.truncated mem short digits ends)⟩

theorem exists_piece (c : Char) (cs : List Char) : ∃ e v rest, c :: cs = e ++ rest ∧ Piece e v rest := by
  by_cases backslash : c = '\\'
  · rw [backslash]
    exact exists_piece_backslash cs
  · exact ⟨[c], [c], cs, rfl, .plain backslash⟩

theorem SpellsEscape.exists_tail (spelled : SpellsEscape c e) : ∃ cs, e = '\\' :: cs := by
  cases spelled <;> exact ⟨_, rfl⟩

theorem StandsFor.exists_tail (stands : StandsFor e v rest) : ∃ cs, e = '\\' :: cs := by
  cases stands with
  | character spelled => exact spelled.exists_tail
  | _ => exact ⟨_, rfl⟩

theorem Stays.exists_tail (stays : Stays e rest) : ∃ cs, e = '\\' :: cs := by
  cases stays <;> exact ⟨_, rfl⟩

theorem Piece.ne_nil (piece : Piece e v rest) : e ≠ [] := by
  cases piece with
  | plain _ => exact List.cons_ne_nil _ _
  | stands stands =>
    obtain ⟨cs, rfl⟩ := stands.exists_tail
    exact List.cons_ne_nil _ _
  | stays stays =>
    obtain ⟨cs, rfl⟩ := stays.exists_tail
    exact List.cons_ne_nil _ _

/-- What holds of the empty body, and of a body with a piece before it if it holds of the body, holds of every body. -/
@[elab_as_elim]
theorem piece_induction {motive : List Char → Prop} (nil : motive [])
    (piece : ∀ e v rest, Piece e v rest → motive rest → motive (e ++ rest)) (body : List Char) : motive body := by
  induction bound : body.length using Nat.strongRecOn generalizing body with
  | ind n ih =>
    cases body with
    | nil => exact nil
    | cons c cs =>
      obtain ⟨e, v, rest, parts, isPiece⟩ := exists_piece c cs
      rw [parts] at bound ⊢
      apply piece e v rest isPiece
      apply ih rest.length _ rest rfl
      have pos := List.length_pos_iff.mpr isPiece.ne_nil
      rw [List.length_append] at bound
      omega

end Footprint.StringLiteral
