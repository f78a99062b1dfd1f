import Footprint.Proofs.StringLiteral.Cuts

/-!
# The length of a decoded body

Every escape is longer in UTF-8 than what it stands for, and all other pieces of a body stay as they are. So decoding
makes a body shorter exactly if it holds an escape, and else changes nothing.
-/

namespace Footprint.StringLiteral

open Text

variable {c : Char} {e v rest ds body before : List Char}

/-- An escape stands somewhere in a body, with no open backslash before it. -/
def HoldsEscape (body : List Char) : Prop :=
  ∃ before e v rest, body = before ++ (e ++ rest) ∧ EndsUnescaped before ∧ StandsFor e v rest

/-! ### One escape -/

theorem byteLength_singleton_lt (le : c.utf8Size ≤ ds.length) : byteLength [c] < byteLength ('\\' :: ds) := by
  have short := length_le_byteLength ds
  calc
    byteLength [c] = c.utf8Size := rfl
    _ < 1 + byteLength ds := by omega
    _ = byteLength ('\\' :: ds) := rfl

theorem byteLength_octal_lt (nonempty : ds ≠ []) (octal : ∀ d ∈ ds, isOctal d = true)
    (value : digitsValue 8 ds = c.toNat) : byteLength [c] < byteLength ('\\' :: ds) :=
  byteLength_singleton_lt
    (utf8Size_le_length (by decide) nonempty (fun d mem => digitValue_lt_of_isOctal (octal d mem)) value)

theorem SpellsEscape.byteLength_lt (spelled : SpellsEscape c e) : byteLength [c] < byteLength e := by
  cases spelled with
  | letter mem =>
    have all : ∀ p ∈ letterEscapes, byteLength [p.2] < byteLength ['\\', p.1] := by decide
    exact all _ mem
  | octal three octal value =>
    apply byteLength_octal_lt _ octal value
    exact List.ne_nil_of_length_pos (by omega)
  | hex mem length hex value =>
    have pos : ∀ p ∈ hexEscapes, 0 < p.2 := by decide
    have nonempty := List.ne_nil_of_length_pos (Nat.lt_of_lt_of_eq (pos _ mem) length.symm)
    have le := utf8Size_le_length (Nat.le_refl 16) nonempty (fun d mem => digitValue_lt_of_isHex (hex d mem)) value
    apply byteLength_singleton_lt
    rw [List.length_cons]
    exact Nat.le_succ_of_le le

/-- An escape is longer than what it stands for. -/
theorem StandsFor.byteLength_lt (stands : StandsFor e v rest) : byteLength v < byteLength e := by
  cases stands with
  | character spelled => exact spelled.byteLength_lt
  | octal nonempty short octal value ends => exact byteLength_octal_lt nonempty octal value
  | _ => decide

/-! ### A whole body -/

/-- A piece with a backslash, wherever it begins outside an escape, is decoded on its own. -/
theorem decode_around (ends : EndsUnescaped before) (piece : Piece e v rest) (first : ∃ cs, e = '\\' :: cs) :
    decode (before ++ (e ++ rest)) = decode before ++ (v ++ decode rest) := by
  have apart : BeginsApart (e ++ rest) := by
    obtain ⟨cs, rfl⟩ := first
    rintro c ⟨⟩
    decide
  rw [decode_append ends apart, piece.decode_append]

theorem HoldsEscape.ne_nil (holds : HoldsEscape body) : body ≠ [] := by
  obtain ⟨before, e, v, rest, rfl, ends, stands⟩ := holds
  obtain ⟨cs, rfl⟩ := stands.exists_tail
  simp

theorem HoldsEscape.behind (holds : HoldsEscape rest) (piece : Piece e v rest) : HoldsEscape (e ++ rest) := by
  rcases piece.endsUnescaped with ⟨rfl, rfl⟩ | closed
  · exact absurd rfl holds.ne_nil
  · obtain ⟨before, e', v', rest', rfl, ends, stands⟩ := holds
    refine ⟨e ++ before, e', v', rest', ?_, ?_, stands⟩
    · rw [List.append_assoc]
    · exact (endsUnescaped_append_iff closed before).mpr ends

theorem Piece.eq_or_standsFor (piece : Piece e v rest) : v = e ∨ StandsFor e v rest := by
  cases piece with
  | plain _ => exact .inl rfl
  | stands stands => exact .inr stands
  | stays _ => exact .inl rfl

theorem byteLength_decode_le (body : List Char) : byteLength (decode body) ≤ byteLength body := by
  induction body using piece_induction with
  | nil => exact Nat.le_refl 0
  | piece e v rest piece ih =>
    have le : byteLength v ≤ byteLength e := by
      rcases piece.eq_or_standsFor with rfl | stands
      · exact Nat.le_refl _
      · exact Nat.le_of_lt stands.byteLength_lt
    rw [piece.decode_append, byteLength_append, byteLength_append]
    exact Nat.add_le_add le ih

theorem decode_eq_self (noEscape : ¬HoldsEscape body) : decode body = body := by
  induction body using piece_induction with
  | nil => rfl
  | piece e v rest piece ih =>
    have behind : ¬HoldsEscape rest := fun holds => noEscape (holds.behind piece)
    rcases piece.eq_or_standsFor with rfl | stands
    · rw [piece.decode_append, ih behind]
    · exact absurd ⟨[], e, v, rest, rfl, endsUnescaped_nil, stands⟩ noEscape

theorem HoldsEscape.byteLength_lt (holds : HoldsEscape body) : byteLength (decode body) < byteLength body := by
  obtain ⟨before, e, v, rest, rfl, ends, stands⟩ := holds
  rw [decode_around ends (.stands stands) stands.exists_tail]
  simp only [byteLength_append]
  have lt := stands.byteLength_lt
  have le := byteLength_decode_le before
  have le' := byteLength_decode_le rest
  omega

theorem utf8ByteSize_decodeEscapes (body : String) :
    (decodeEscapes body).utf8ByteSize = byteLength (decode body.toList) := by
  rw [utf8ByteSize_eq, decodeEscapes, String.toList_ofList]

theorem decodeEscapes_eq_iff (body : String) : decodeEscapes body = body ↔ decode body.toList = body.toList := by
  rw [← String.toList_inj, decodeEscapes, String.toList_ofList]

/-- Decoding makes no body longer, and leaves the length only to a body that it leaves as it is. These are the bodies
without an escape. An escape in a body gives way to what it stands for, which is shorter, and what stays stays,
without a bearing on what is before or behind it. -/
theorem decodeEscapes_shortens (body : String) :
    (decodeEscapes body).utf8ByteSize ≤ body.utf8ByteSize ∧
    ((decodeEscapes body).utf8ByteSize = body.utf8ByteSize ↔ decodeEscapes body = body) ∧
    (decodeEscapes body = body ↔ ¬HoldsEscape body.toList) ∧
    ∀ before e rest : String, body = before ++ e ++ rest → EndsUnescaped before.toList →
      (∀ v : String, StandsFor e.toList v.toList rest.toList →
        decodeEscapes body = decodeEscapes before ++ v ++ decodeEscapes rest ∧ v.utf8ByteSize < e.utf8ByteSize) ∧
      (Stays e.toList rest.toList → decodeEscapes body = decodeEscapes before ++ e ++ decodeEscapes rest) := by
  have fixed : decodeEscapes body = body ↔ ¬HoldsEscape body.toList := by
    rw [decodeEscapes_eq_iff]
    constructor
    · intro same holds
      have lt := holds.byteLength_lt
      rw [same] at lt
      exact Nat.lt_irrefl _ lt
    · exact decode_eq_self
  refine ⟨?_, ?_, fixed, ?_⟩
  · rw [utf8ByteSize_decodeEscapes, utf8ByteSize_eq]
    exact byteLength_decode_le body.toList
  · constructor
    · intro same
      apply fixed.mpr
      intro holds
      rw [utf8ByteSize_decodeEscapes, utf8ByteSize_eq] at same
      exact Nat.ne_of_lt holds.byteLength_lt same
    · exact congrArg String.utf8ByteSize
  · rintro before e rest rfl ends
    have put (v : String) (piece : Piece e.toList v.toList rest.toList) (first : ∃ cs, e.toList = '\\' :: cs) :
        decodeEscapes (before ++ e ++ rest) = decodeEscapes before ++ v ++ decodeEscapes rest := by
      rw [← String.toList_inj]
      simp only [decodeEscapes, String.toList_append, String.toList_ofList, List.append_assoc]
      exact decode_around ends piece first
    constructor
    · intro v stands
      refine ⟨put v (.stands stands) stands.exists_tail, ?_⟩
      rw [utf8ByteSize_eq, utf8ByteSize_eq]
      exact stands.byteLength_lt
    · intro stays
      exact put e (.stays stays) stays.exists_tail

/-- A surrogate, an escape of three digits, a character without a meaning and a backslash at the end. -/
theorem decodeEscapes_shortens_mixed :
    let body := "\\ud800\\101\\q\\"
    StandsFor "\\101".toList "A".toList "\\q\\".toList ∧ Stays "\\ud800".toList "\\101\\q\\".toList ∧
      decodeEscapes body = decodeEscapes "\\ud800" ++ "A" ++ decodeEscapes "\\q\\" ∧
      "A".utf8ByteSize < "\\101".utf8ByteSize ∧
      decodeEscapes body = decodeEscapes "" ++ "\\ud800" ++ decodeEscapes "\\101\\q\\" := by
  intro body
  have stands : StandsFor "\\101".toList "A".toList "\\q\\".toList := .character (.octal rfl (by decide) rfl)
  have stays : Stays "\\ud800".toList "\\101\\q\\".toList :=
    .noCharacter (show ('u', 4) ∈ hexEscapes by decide) rfl (by decide) (by decide)
  have decoded := (decodeEscapes_shortens body).2.2.2
  obtain ⟨put, lt⟩ := (decoded "\\ud800" "\\101" "\\q\\" rfl (by decide)).1 "A" stands
  exact ⟨stands, stays, put, lt, (decoded "" "\\ud800" "\\101\\q\\" rfl (by decide)).2 stays⟩

end Footprint.StringLiteral
