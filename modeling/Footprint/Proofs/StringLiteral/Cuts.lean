import Mathlib.Algebra.Group.Nat.Even
import Mathlib.Data.List.DropRight
import Footprint.Proofs.StringLiteral.Pieces

/-!
# Where a body may be cut

Two bodies are decoded apart as they are decoded together if the first ends outside an escape, which the number of its
last backslashes tells, and the second begins with nothing that digits or a return at the end of the first would take.
Neither can be left out: if the first ends within an escape, or the second begins with a digit or a line feed, there
is a body to put on the other side of the cut such that the two are decoded otherwise.
-/

namespace Footprint.StringLiteral

open Text

variable {c : Char} {e v rest ds a b : List Char}

/-- The last characters of a text are an even number of backslashes, with another character or nothing before them. -/
def EndsUnescaped (cs : List Char) : Prop := Even (cs.rtakeWhile (· == '\\')).length

/-- The first character of a text, if there is one, is neither a hexadecimal digit nor a line feed. -/
def BeginsApart (cs : List Char) : Prop := ∀ c ∈ cs.head?, isHex c = false ∧ c ≠ '\n'

instance (cs : List Char) : Decidable (EndsUnescaped cs) :=
  inferInstanceAs (Decidable (Even (cs.rtakeWhile (· == '\\')).length))

instance (cs : List Char) : Decidable (BeginsApart cs) :=
  inferInstanceAs (Decidable (∀ c ∈ cs.head?, isHex c = false ∧ c ≠ '\n'))

/-! ### The end of the first body -/

theorem endsUnescaped_nil : EndsUnescaped [] := by decide

theorem endsUnescaped_concat (h : c ≠ '\\') (cs : List Char) : EndsUnescaped (cs ++ [c]) := by
  unfold EndsUnescaped
  rw [List.rtakeWhile_concat_neg _ _ _ (by simpa using h)]
  decide

theorem endsUnescaped_concat_backslash (cs : List Char) : EndsUnescaped (cs ++ ['\\']) ↔ ¬EndsUnescaped cs := by
  unfold EndsUnescaped
  rw [List.rtakeWhile_concat_pos _ _ _ (by decide), List.length_append, List.length_singleton]
  exact Nat.even_add_one

/-- Behind a text that ends outside an escape, only the backslashes of the text put there count. -/
theorem endsUnescaped_append_iff (ends : EndsUnescaped ds) (cs : List Char) :
    EndsUnescaped (ds ++ cs) ↔ EndsUnescaped cs := by
  induction cs using List.reverseRecOn with
  | nil => simp [ends, endsUnescaped_nil]
  | append_singleton cs c ih =>
    rw [← List.append_assoc]
    by_cases backslash : c = '\\'
    · subst backslash
      rw [endsUnescaped_concat_backslash, endsUnescaped_concat_backslash]
      exact not_congr ih
    · exact iff_of_true (endsUnescaped_concat backslash _) (endsUnescaped_concat backslash _)

theorem endsUnescaped_append_of_notMem (nonempty : ds ≠ []) (plain : '\\' ∉ ds) (cs : List Char) :
    EndsUnescaped (cs ++ ds) := by
  obtain ⟨ds, d, rfl⟩ := List.eq_nil_or_concat' ds |>.resolve_left nonempty
  rw [← List.append_assoc]
  apply endsUnescaped_concat
  rintro rfl
  exact plain (by simp)

theorem endsUnescaped_hex {x : Char} {width : Nat} (mem : (x, width) ∈ hexEscapes) (digits : ∀ d ∈ ds, isHex d = true) :
    EndsUnescaped ('\\' :: x :: ds) := by
  have noBackslash : ∀ p ∈ hexEscapes, p.1 ≠ '\\' := by decide
  apply endsUnescaped_append_of_notMem (List.cons_ne_nil x ds) _ ['\\']
  rw [List.mem_cons, not_or]
  exact ⟨(noBackslash _ mem).symm, notMem_of_isHex digits⟩

theorem endsUnescaped_octal (nonempty : ds ≠ []) (octal : ∀ d ∈ ds, isOctal d = true) : EndsUnescaped ('\\' :: ds) :=
  endsUnescaped_append_of_notMem nonempty (notMem_of_isHex fun d mem => isHex_of_isOctal (octal d mem)) ['\\']

theorem SpellsEscape.endsUnescaped (spelled : SpellsEscape c e) : EndsUnescaped e := by
  cases spelled with
  | letter mem =>
    have all : ∀ p ∈ letterEscapes, EndsUnescaped ['\\', p.1] := by decide
    exact all _ mem
  | octal three octal value =>
    apply endsUnescaped_octal _ octal
    exact List.ne_nil_of_length_pos (by omega)
  | hex mem length hex value => exact endsUnescaped_hex mem hex

theorem StandsFor.endsUnescaped (stands : StandsFor e v rest) : EndsUnescaped e := by
  cases stands with
  | character spelled => exact spelled.endsUnescaped
  | octal nonempty short octal value ends => exact endsUnescaped_octal nonempty octal
  | _ => decide

/-- Only a backslash with nothing behind it leaves an escape open. -/
theorem Piece.endsUnescaped (piece : Piece e v rest) : e = ['\\'] ∧ rest = [] ∨ EndsUnescaped e := by
  cases piece with
  | plain noEscape => exact .inr (endsUnescaped_concat noEscape [])
  | stands stands => exact .inr stands.endsUnescaped
  | stays stays =>
    cases stays with
    | lone => exact .inl ⟨rfl, rfl⟩
    | @unknown c _ unknown =>
      right
      apply endsUnescaped_concat _ ['\\']
      rintro rfl
      exact unknown (by decide)
    | @named name => exact .inr (endsUnescaped_concat (by decide) ('\\' :: 'N' :: '{' :: name))
    | truncated mem short digits ends => exact .inr (endsUnescaped_hex mem digits)
    | noCharacter mem full digits outside => exact .inr (endsUnescaped_hex mem digits)

/-! ### The beginning of the second body -/

theorem forall_head?_append {p : Char → Prop} (first : ∀ c ∈ a.head?, p c) (second : ∀ c ∈ b.head?, p c) :
    ∀ c ∈ (a ++ b).head?, p c := by
  cases a with
  | nil => exact second
  | cons c cs => exact first

theorem BeginsApart.noOctal (apart : BeginsApart b) : ∀ c ∈ b.head?, isOctal c = false := by
  intro c mem
  apply Bool.eq_false_iff.mpr
  intro octal
  have noDigit := (apart c mem).1
  rw [isHex_of_isOctal octal] at noDigit
  cases noDigit

theorem StandsFor.append (stands : StandsFor e v rest) (apart : BeginsApart b) : StandsFor e v (rest ++ b) := by
  cases stands with
  | character spelled => exact .character spelled
  | octal nonempty short octal value ends =>
    exact .octal nonempty short octal value (forall_head?_append ends apart.noOctal)
  | feed => exact .feed
  | returnFeed => exact .returnFeed
  | loneReturn ends => exact .loneReturn (forall_head?_append ends fun c mem => (apart c mem).2)

theorem Piece.append (piece : Piece e v rest) (closed : EndsUnescaped e) (apart : BeginsApart b) :
    Piece e v (rest ++ b) := by
  cases piece with
  | plain noEscape => exact .plain noEscape
  | stands stands => exact .stands (stands.append apart)
  | stays stays =>
    apply Piece.stays
    cases stays with
    | lone => exact absurd closed (by decide)
    | unknown unknown => exact .unknown unknown
    | named plain => exact .named plain
    | truncated mem short digits ends =>
      exact .truncated mem short digits (forall_head?_append ends fun c mem => (apart c mem).1)
    | noCharacter mem full digits outside => exact .noCharacter mem full digits outside

/-! ### The cut -/

theorem decode_append (ends : EndsUnescaped a) (apart : BeginsApart b) : decode (a ++ b) = decode a ++ decode b := by
  -- piece by piece: each one of the first body is the same piece with the second behind it
  induction a using piece_induction with
  | nil => rfl
  | piece e v rest piece ih =>
    rcases piece.endsUnescaped with ⟨rfl, rfl⟩ | closed
    · exact absurd ends (by decide)
    · have behind : EndsUnescaped rest := (endsUnescaped_append_iff closed rest).mp ends
      calc
        decode (e ++ rest ++ b) = decode (e ++ (rest ++ b)) := by rw [List.append_assoc]
        _ = v ++ decode (rest ++ b) := (piece.append closed apart).decode_append
        _ = v ++ (decode rest ++ decode b) := by rw [ih behind]
        _ = decode (e ++ rest) ++ decode b := by rw [← List.append_assoc, piece.decode_append]

/-- A body that ends with an open backslash and one with a letter that it makes an escape of. -/
theorem decode_append_ne_of_open (opened : ¬EndsUnescaped a) : decode (a ++ ['t']) ≠ decode a ++ decode ['t'] := by
  rcases List.eq_nil_or_concat' a with rfl | ⟨cs, c, rfl⟩
  · exact absurd endsUnescaped_nil opened
  by_cases backslash : c = '\\'
  · subst backslash
    rw [endsUnescaped_concat_backslash, Decidable.not_not] at opened
    rw [List.append_assoc, decode_append opened (by decide), decode_append opened (by decide), List.append_assoc]
    intro same
    exact absurd (List.append_cancel_left same) (by decide)
  · exact absurd (endsUnescaped_concat backslash cs) opened

theorem exists_decode_append_ne (joined : ¬BeginsApart b) :
    ∃ a, EndsUnescaped a ∧ decode (a ++ b) ≠ decode a ++ decode b := by
  cases b with
  | nil => exact absurd joined (by decide)
  | cons c cs =>
    by_cases feed : c = '\n'
    · refine ⟨['\\', '\r'], by decide, ?_⟩
      subst feed
      have taken : decode (['\\', '\r', '\n'] ++ cs) = [] ++ decode cs := StandsFor.returnFeed.decode_append
      show decode (['\\', '\r', '\n'] ++ cs) ≠ [] ++ decode ('\n' :: cs)
      rw [taken, decode_cons_of_ne (by decide)]
      intro same
      simpa using congrArg List.length same
    · have hex : isHex c = true := by
        by_contra noHex
        apply joined
        rintro d ⟨⟩
        exact ⟨Bool.eq_false_iff.mpr noHex, feed⟩
      have digits : ∀ d ∈ ['0', c], isHex d = true :=
        List.forall_mem_cons.mpr ⟨by decide, List.forall_mem_singleton.mpr hex⟩
      have few : 16 ^ ['0', c].length ≤ 0xD800 := show 16 ^ 2 ≤ 0xD800 by decide
      obtain ⟨v, value⟩ := exists_of_digits (fun d mem => digitValue_lt_of_isHex (digits d mem)) few
      have noBackslash : c ≠ '\\' := by
        rintro rfl
        cases hex
      have spelled : SpellsEscape v ['\\', 'x', '0', c] := .hex (show ('x', 2) ∈ hexEscapes by decide) rfl digits value
      have taken : decode (['\\', 'x', '0', c] ++ cs) = v :: decode cs := decode_escape spelled cs
      refine ⟨['\\', 'x', '0'], by decide, ?_⟩
      show decode (['\\', 'x', '0', c] ++ cs) ≠ ['\\', 'x', '0'] ++ decode (c :: cs)
      rw [taken, decode_cons_of_ne noBackslash]
      intro same
      simpa using congrArg List.length same

theorem decodeEscapes_append_eq_iff (a b : String) :
    decodeEscapes (a ++ b) = decodeEscapes a ++ decodeEscapes b ↔
      decode (a.toList ++ b.toList) = decode a.toList ++ decode b.toList := by
  unfold decodeEscapes
  rw [String.toList_append, ← String.ofList_append, String.ofList_inj]

/-- Decoding goes over a cut between a text that ends outside an escape and one that begins apart. Where the first
ends within an escape, some text that begins apart is decoded otherwise behind it, and where the second does not begin
apart, it is decoded otherwise behind some text that ends outside an escape. -/
theorem decodeEscapes_append (a b : String) :
    (EndsUnescaped a.toList → BeginsApart b.toList →
      decodeEscapes (a ++ b) = decodeEscapes a ++ decodeEscapes b) ∧
    (¬EndsUnescaped a.toList → ∃ b : String, BeginsApart b.toList ∧
      decodeEscapes (a ++ b) ≠ decodeEscapes a ++ decodeEscapes b) ∧
    (¬BeginsApart b.toList → ∃ a : String, EndsUnescaped a.toList ∧
      decodeEscapes (a ++ b) ≠ decodeEscapes a ++ decodeEscapes b) := by
  refine ⟨?_, ?_, ?_⟩
  · intro ends apart
    rw [decodeEscapes_append_eq_iff]
    exact decode_append ends apart
  · intro opened
    refine ⟨"t", by decide, ?_⟩
    rw [Ne, decodeEscapes_append_eq_iff]
    exact decode_append_ne_of_open opened
  · intro joined
    obtain ⟨cs, ends, differ⟩ := exists_decode_append_ne joined
    refine ⟨String.ofList cs, by rwa [String.toList_ofList], ?_⟩
    rw [Ne, decodeEscapes_append_eq_iff, String.toList_ofList]
    exact differ

/-- Cuts behind an escaped backslash and seven of eight digits, and behind one octal digit. A cut behind an open
backslash, and one before a digit. -/
theorem decodeEscapes_append_truncated :
    (EndsUnescaped "\\\\\\U0001F60".toList ∧ BeginsApart "g\\n".toList ∧
      decodeEscapes ("\\\\\\U0001F60" ++ "g\\n") = decodeEscapes "\\\\\\U0001F60" ++ decodeEscapes "g\\n") ∧
    (EndsUnescaped "\\1".toList ∧ BeginsApart "\\x41".toList ∧
      decodeEscapes ("\\1" ++ "\\x41") = decodeEscapes "\\1" ++ decodeEscapes "\\x41") ∧
    (¬EndsUnescaped "\\\\\\".toList ∧ ∃ b : String, BeginsApart b.toList ∧
      decodeEscapes ("\\\\\\" ++ b) ≠ decodeEscapes "\\\\\\" ++ decodeEscapes b) ∧
    (¬BeginsApart "F".toList ∧ ∃ a : String, EndsUnescaped a.toList ∧
      decodeEscapes (a ++ "F") ≠ decodeEscapes a ++ decodeEscapes "F") :=
  ⟨⟨by decide, by decide, (decodeEscapes_append _ _).1 (by decide) (by decide)⟩,
    ⟨by decide, by decide, (decodeEscapes_append _ _).1 (by decide) (by decide)⟩,
    ⟨by decide, (decodeEscapes_append _ "").2.1 (by decide)⟩,
    ⟨by decide, (decodeEscapes_append "" _).2.2 (by decide)⟩⟩

end Footprint.StringLiteral
