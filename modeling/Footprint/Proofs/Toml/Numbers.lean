import Footprint.Proofs.Toml.Reads

/-!
# What readers of TOML yield: numbers, dates and times

A number, a date or a time is read to its end if no more of it can follow. A number is not taken for a date or a time,
since neither a minus sign nor a colon follows digits in it.
-/

namespace Footprint.Toml

open Text

variable {text ts ds : List Char} {ok : Char → Bool}

def enders : List Char := [' ', '\t', '\n', '\r', '#', ',', ']', '\x7d']

def EndsToken (text : List Char) : Prop := ∀ c ∈ text.head?, c ∈ enders

/-- A text that may follow a value: there are only blanks before the end of the line, a comma, or what closes a list or
a table. -/
def EndsValue (text : List Char) : Prop := EndsToken text ∧ EndsToken (text.dropWhile isBlank)

theorem EndsToken.of {p : Char → Prop} (h : EndsToken text) (all : ∀ c ∈ enders, p c) : ∀ c ∈ text.head?, p c :=
  fun c mem => all c (h c mem)

/-! ### Digits -/

theorem SpellsDigits.exists_cons (h : SpellsDigits ok ds ts) : ∃ d us, ts = d :: us ∧ ok d = true := by
  cases h with
  | one first => exact ⟨_, _, rfl, first⟩
  | cons first _ => exact ⟨_, _, rfl, first⟩
  | low first _ => exact ⟨_, _, rfl, first⟩

theorem digits?_append (h : SpellsDigits ok ds ts) (line : ok '_' = false)
    (ends : ∀ c ∈ text.head?, ok c = false ∧ c ≠ '_') : digits? ok (ts ++ text) = some (ds, text) := by
  induction h with
  | one first =>
    cases text with
    | nil => simp [digits?, first]
    | cons c text =>
      obtain ⟨other, noLine⟩ := ends c rfl
      rw [List.singleton_append, digits?.eq_def]
      simp [first, other]
  | @cons d ds ts first rest ih =>
    obtain ⟨e, us, rfl, second⟩ := rest.exists_cons
    have noLine : e ≠ '_' := by
      rintro rfl
      rw [line] at second
      cases second
    rw [List.cons_append, digits?.eq_def]
    simp only [List.cons_append] at ih ⊢
    simp [first, second, ih, prepend]
  | low first _ ih =>
    rw [List.cons_append, List.cons_append, digits?.eq_def]
    simp [first, ih, prepend]

theorem takeSign_append {sign : List Char} (h : IsSign sign) (ends : ∀ c ∈ text.head?, isSign c = false) :
    takeSign (sign ++ text) = (sign.head?, text) := by
  rcases h with rfl | rfl | rfl
  · cases text with
    | nil => rfl
    | cons c text => simp [takeSign, ends c rfl]
  · rfl
  · rfl

theorem isSign_of_isDigit {d : Char} (h : isDigit d = true) : isSign d = false :=
  forall_isDigit (p := fun d => isSign d = false) (by decide) h

theorem head?_eq_minus {sign : List Char} (h : IsSign sign) : sign.head? = some '-' ↔ sign = ['-'] := by
  rcases h with rfl | rfl | rfl <;> decide

/-! ### Integers and fractions -/

theorem fraction?_append (h : SpellsFraction ds ts)
    (ends : ∀ c ∈ text.head?, isDigit c = false ∧ c ≠ '_' ∧ c ≠ '.') : fraction? (ts ++ text) = some (ds, text) := by
  cases h with
  | none =>
    cases text with
    | nil => rfl
    | cons c text => simp [fraction?, (ends c rfl).2.2]
  | digits digits =>
    rw [List.cons_append, fraction?]
    exact digits?_append digits rfl fun c mem => ⟨(ends c mem).1, (ends c mem).2.1⟩

theorem exponent?_append {e : Int} (h : SpellsExponent e ts) (ends : EndsToken text) :
    exponent? (ts ++ text) = some (e, text) := by
  cases h with
  | none =>
    cases text with
    | nil => rfl
    | cons c text =>
      have other := ends.of (p := fun c => c ≠ 'e' ∧ c ≠ 'E') (by decide) c rfl
      simp [exponent?, other.1, other.2]
  | digits letter sign digits =>
    obtain ⟨d, us, rfl, first⟩ := digits.exists_cons
    have read := digits?_append digits rfl (ends.of (by decide))
    have digit : ∀ c ∈ (d :: us ++ text).head?, isSign c = false := fun c same => by
      cases same
      exact isSign_of_isDigit first
    have signed := takeSign_append sign digit
    rw [List.cons_append, List.append_assoc, exponent?, if_pos letter, signed]
    simp only [read, Option.map_some, head?_eq_minus sign]

theorem whole_append {whole wholeText : List Char} (h : SpellsWhole whole wholeText)
    (ends : ∀ c ∈ text.head?, isDigit c = false ∧ c ≠ '_') :
    digits? isDigit (wholeText ++ text) = some (whole, text) ∧
      (whole.head? = some '0' && 1 < whole.length) = false := by
  obtain ⟨digits, lone⟩ := h
  refine ⟨digits?_append digits rfl ends, ?_⟩
  cases zero : decide (whole.head? = some '0') with
  | false => rfl
  | true =>
    rw [lone (of_decide_eq_true zero)]
    rfl

theorem isSign_append {whole wholeText : List Char} (h : SpellsWhole whole wholeText) :
    ∀ c ∈ (wholeText ++ text).head?, isSign c = false := by
  obtain ⟨digits, -⟩ := h
  obtain ⟨d, us, rfl, first⟩ := digits.exists_cons
  intro c same
  cases same
  exact isSign_of_isDigit first

theorem fitsWord_eq {sign : List Char} (h : IsSign sign) {n : Nat}
    (fits : n ≤ (if sign = ['-'] then 0x8000000000000000 else 0x7FFFFFFFFFFFFFFF)) :
    fitsWord (decide (sign.head? = some '-')) n = true := by
  rcases h with rfl | rfl | rfl <;> simpa [fitsWord] using fits

theorem afterDecimal?_integer {sign whole wholeText : List Char} (h : IsSign sign)
    (digits : SpellsWhole whole wholeText)
    (fits : digitsValue 10 whole ≤ (if sign = ['-'] then 0x8000000000000000 else 0x7FFFFFFFFFFFFFFF)) (ends : EndsToken text) :
    afterDecimal? (sign ++ (wholeText ++ text)) = some text := by
  obtain ⟨read, lone⟩ := whole_append digits (ends.of (by decide))
  have noPoint : ∀ c ∈ text.head?, ¬(c = '.' ∨ c = 'e' ∨ c = 'E') := ends.of (by decide)
  unfold afterDecimal?
  rw [takeSign_append h (isSign_append digits)]
  simp only [read, Option.bind_eq_bind, Option.bind_some, lone, if_neg Bool.false_ne_true, fitsWord_eq h fits]
  cases text with
  | nil => rfl
  | cons c text =>
    simp only [if_neg (noPoint c rfl)]
    rfl

theorem head_of_float {part partText exponentText : List Char} {exponent : Int} (h : SpellsFraction part partText)
    (power : SpellsExponent exponent exponentText) (nonempty : partText ++ exponentText ≠ []) (text : List Char) :
    ∃ c us, partText ++ (exponentText ++ text) = c :: us ∧ (c = '.' ∨ c = 'e' ∨ c = 'E') := by
  cases h with
  | digits _ => exact ⟨'.', _, rfl, .inl rfl⟩
  | none =>
    cases power with
    | none => exact absurd rfl nonempty
    | digits letter _ _ => exact ⟨_, _, rfl, .inr letter⟩

theorem ends_exponent {exponentText : List Char} {exponent : Int} (power : SpellsExponent exponent exponentText)
    (ends : EndsToken text) : ∀ c ∈ (exponentText ++ text).head?, isDigit c = false ∧ c ≠ '_' ∧ c ≠ '.' := by
  cases power with
  | none => exact ends.of (by decide)
  | digits letter _ _ =>
    intro c same
    cases same
    rcases letter with rfl | rfl <;> decide

theorem afterDecimal?_float {sign whole wholeText part partText exponentText : List Char} {exponent : Int}
    (h : IsSign sign) (digits : SpellsWhole whole wholeText) (fraction : SpellsFraction part partText)
    (power : SpellsExponent exponent exponentText) (nonempty : partText ++ exponentText ≠ [])
    (range : sign ≠ ['-'] → Decimal.overflows (digitsValue 10 (whole ++ part)) (exponent - part.length) = false)
    (ends : EndsToken text) :
    afterDecimal? (sign ++ (wholeText ++ (partText ++ (exponentText ++ text)))) = some text := by
  obtain ⟨c, us, rest, letter⟩ := head_of_float fraction power nonempty text
  have read := fraction?_append fraction (ends_exponent power ends)
  have finite : (decide (sign.head? ≠ some '-') &&
      Decimal.overflows (digitsValue 10 (whole ++ part)) (exponent - part.length)) = false := by
    rcases h with rfl | rfl | rfl
    · simp [range]
    · simp [range]
    · rfl
  rw [rest] at read ⊢
  have ended : ∀ d ∈ (c :: us).head?, isDigit d = false ∧ d ≠ '_' := fun d same => by
    cases same
    rcases letter with rfl | rfl | rfl <;> decide
  obtain ⟨readWhole, lone⟩ := whole_append digits ended
  unfold afterDecimal?
  rw [takeSign_append h (isSign_append digits)]
  simp only [readWhole, Option.bind_eq_bind, Option.bind_some, lone, if_neg Bool.false_ne_true, if_pos letter, read,
    exponent?_append power ends, finite]
  rfl

/-! ### Numbers -/

theorem afterWord?_append (word : List Char) : afterWord? word (word ++ text) = some text := by
  rw [afterWord?, if_pos (List.isPrefixOf_iff_prefix.mpr (List.prefix_append _ _)), List.drop_left]

theorem afterWord?_none {c d : Char} {cs : List Char} (h : c ≠ d) : afterWord? (c :: cs) (d :: text) = none := by
  rw [afterWord?, if_neg]
  simp [h]

theorem afterBased?_append {base : Nat} (digits : SpellsDigits ok ds ts) (line : ok '_' = false)
    (small : digitsValue base ds < 0x8000000000000000) (ends : ∀ c ∈ text.head?, ok c = false ∧ c ≠ '_') :
    afterBased? base ok (ts ++ text) = some text := by
  have fits : fitsWord false (digitsValue base ds) = true := by
    simp only [fitsWord, Bool.false_eq_true, if_false, decide_eq_true_eq]
    omega
  unfold afterBased?
  simp only [digits?_append digits line ends, Option.bind_eq_bind, Option.bind_some, fits, if_true]
  rfl

/-- A number in base ten is read as such. -/
theorem afterNumber?_decimal {sign us : List Char} {d : Char} (h : IsSign sign) (digit : isDigit d = true)
    (plain : sign = [] → d = '0' → ∀ c ∈ us.head?, c ≠ 'x' ∧ c ≠ 'o' ∧ c ≠ 'b')
    (read : afterDecimal? (sign ++ d :: us) = some text) : afterNumber? (sign ++ d :: us) = some text := by
  have special : afterSpecial? (sign ++ d :: us) = none := by
    have noLetter : d ≠ 'i' ∧ d ≠ 'n' := forall_isDigit (p := fun d => d ≠ 'i' ∧ d ≠ 'n') (by decide) digit
    rw [afterSpecial?, takeSign_append h fun c same => by cases same; exact isSign_of_isDigit digit]
    simp only [afterWord?_none noLetter.1.symm, afterWord?_none noLetter.2.symm]
    rfl
  have other (b : Char) (cs : List Char) (base : b = 'x' ∨ b = 'o' ∨ b = 'b') : sign ++ d :: us ≠ '0' :: b :: cs := by
    intro same
    rcases h with rfl | rfl | rfl
    · cases same
      obtain ⟨x, o, two⟩ := plain rfl rfl b rfl
      rcases base with rfl | rfl | rfl
      · exact x rfl
      · exact o rfl
      · exact two rfl
    · cases same
    · cases same
  unfold afterNumber?
  split
  · exact absurd ‹_› (other _ _ (.inl rfl))
  · exact absurd ‹_› (other _ _ (.inr (.inl rfl)))
  · exact absurd ‹_› (other _ _ (.inr (.inr rfl)))
  · rw [special, read]
    rfl

theorem afterNumber?_special {sign word : List Char} (h : IsSign sign)
    (either : word = ['i', 'n', 'f'] ∨ word = ['n', 'a', 'n']) : afterNumber? (sign ++ word ++ text) = some text := by
  rcases h with rfl | rfl | rfl
  all_goals rcases either with rfl | rfl
  all_goals rfl

theorem SpellsWhole.of_zero {us : List Char} (h : SpellsWhole ds ('0' :: us)) : us = [] := by
  obtain ⟨digits, lone⟩ := h
  cases digits with
  | one _ => rfl
  | cons _ rest =>
    cases lone rfl
    cases rest
  | low _ rest =>
    cases lone rfl
    cases rest

theorem afterNumber?_integer (h : IsInteger ts) (ends : EndsToken text) : afterNumber? (ts ++ text) = some text := by
  cases h with
  | @decimal sign ds ts signed whole fits =>
    obtain ⟨d, us, rfl, digit⟩ := whole.1.exists_cons
    have read := afterDecimal?_integer signed whole fits ends
    rw [List.append_assoc]
    refine afterNumber?_decimal signed digit ?_ read
    rintro - rfl
    obtain rfl := whole.of_zero
    exact ends.of (by decide)
  | hexadecimal digits small =>
    exact afterBased?_append digits rfl small (ends.of (by decide))
  | octal digits small =>
    exact afterBased?_append digits rfl small (ends.of (by decide))
  | binary digits small =>
    exact afterBased?_append digits rfl small (ends.of (by decide))

theorem afterNumber?_float (h : IsFloat ts) (ends : EndsToken text) : afterNumber? (ts ++ text) = some text := by
  cases h with
  | special signed => exact afterNumber?_special signed (.inl rfl)
  | undefined signed => exact afterNumber?_special signed (.inr rfl)
  | decimal signed whole fraction power nonempty range =>
    obtain ⟨d, us, rfl, digit⟩ := whole.1.exists_cons
    have read := afterDecimal?_float signed whole fraction power nonempty range ends
    simp only [List.append_assoc]
    refine afterNumber?_decimal signed digit ?_ read
    rintro - rfl
    obtain rfl := whole.of_zero
    obtain ⟨c, us, rest, letter⟩ := head_of_float fraction power nonempty text
    intro e mem
    have first : e ∈ (c :: us).head? := by
      rw [← rest]
      exact mem
    cases first
    rcases letter with rfl | rfl | rfl <;> decide

/-! ### Dates and times -/

theorem field?_append {width least most n : Nat} (h : SpellsField width least most n ts) :
    field? width least most (ts ++ text) = some (n, text) := by
  obtain ⟨rfl, digits, rfl, low, high⟩ := h
  have all : ts.all isDigit = true := List.all_eq_true.mpr digits
  simp [field?, all, low, high]

theorem field?_none {width least most : Nat} (other : ∀ c ∈ text.head?, isDigit c = false) :
    field? (width + 1) least most text = none := by
  cases text with
  | nil => simp [field?]
  | cons c text => simp [field?, other c rfl]

theorem dropWhile_of_field? {width least most n : Nat} {left : List Char}
    (h : field? width least most text = some (n, left)) : text.dropWhile isDigit = left.dropWhile isDigit := by
  simp only [field?] at h
  split at h
  · rename_i held
    simp only [Bool.and_eq_true, List.all_eq_true] at held
    cases h
    conv => lhs; rw [← List.take_append_drop width text]
    exact List.dropWhile_append_of_pos held.1.1.2
  · cases h

theorem afterDate?_append (h : IsDate ts) : afterDate? (ts ++ text) = some text := by
  obtain ⟨year, month, day⟩ := h
  have dash (cs : List Char) : afterWord? ['-'] ('-' :: cs) = some cs := afterWord?_append ['-']
  unfold afterDate?
  simp only [List.append_assoc, List.cons_append, field?_append year, field?_append month, field?_append day, dash,
    Option.bind_eq_bind, Option.bind_some]
  rfl

theorem afterFraction_append (h : IsSecondFraction ts) (ends : ∀ c ∈ text.head?, isDigit c = false ∧ c ≠ '.') :
    afterFraction (ts ++ text) = text := by
  cases h with
  | none =>
    cases text with
    | nil => rfl
    | cons c text => simp [afterFraction, (ends c rfl).2]
  | @digits ds nonempty digits =>
    obtain ⟨d, us, rfl⟩ := List.exists_cons_of_ne_nil nonempty
    rw [List.cons_append, List.cons_append, afterFraction, if_pos (digits d List.mem_cons_self)]
    exact dropWhile_append (fun c mem => digits c (List.mem_cons_of_mem _ mem)) fun c mem => (ends c mem).1

theorem afterTime?_append (h : IsTime ts) (ends : ∀ c ∈ text.head?, isDigit c = false ∧ c ≠ '.') :
    afterTime? (ts ++ text) = some text := by
  obtain ⟨hour, minute, second, fraction⟩ := h
  have colon (cs : List Char) : afterWord? [':'] (':' :: cs) = some cs := afterWord?_append [':']
  unfold afterTime?
  simp only [List.append_assoc, List.cons_append, field?_append hour, field?_append minute, field?_append second, colon,
    Option.bind_eq_bind, Option.bind_some, afterFraction_append fraction ends]
  rfl

theorem afterOffset?_append (h : IsOffset ts) : afterOffset? (ts ++ text) = some text := by
  cases h with
  | zero letter =>
    rw [List.singleton_append, afterOffset?, if_pos letter]
  | @hours sign hour minute h m signed hours minutes =>
    have colon (cs : List Char) : afterWord? [':'] (':' :: cs) = some cs := afterWord?_append [':']
    have noLetter : ¬(sign = 'Z' ∨ sign = 'z') := by
      rintro (rfl | rfl) <;> cases signed
    rw [List.cons_append, List.append_assoc, List.cons_append, afterOffset?, if_neg noLetter, if_pos signed]
    simp only [field?_append hours, field?_append minutes, colon, Option.bind_eq_bind, Option.bind_some]
    rfl

theorem afterOffset?_none (ends : EndsToken text) : afterOffset? text = none := by
  cases text with
  | nil => rfl
  | cons c text =>
    have other := ends.of (p := fun c => ¬(c = 'Z' ∨ c = 'z') ∧ ¬isSign c = true) (by decide) c rfl
    rw [afterOffset?, if_neg other.1, if_neg other.2]

theorem afterTime?_none (other : ∀ c ∈ text.head?, isDigit c = false) : afterTime? text = none := by
  unfold afterTime?
  rw [field?_none other]
  rfl

theorem head_of_offset (h : IsOffset ts) : ∀ c ∈ (ts ++ text).head?, isDigit c = false ∧ c ≠ '.' := by
  cases h with
  | zero letter =>
    intro c same
    cases same
    rcases letter with rfl | rfl <;> decide
  | hours signed _ _ =>
    intro c same
    cases same
    simp only [isSign, Bool.or_eq_true, beq_iff_eq] at signed
    rcases signed with rfl | rfl <;> decide

theorem afterDateTime_none (ends : EndsValue text) : afterDateTime text = text := by
  cases text with
  | nil => rfl
  | cons c ds =>
    obtain ⟨first, second⟩ := ends
    have noLetter := first.of (p := fun c => c ≠ 'T' ∧ c ≠ 't') (by decide) c rfl
    by_cases blank : c = ' '
    · subst blank
      have noDigit : ∀ d ∈ ds.head?, isDigit d = false := by
        cases ds with
        | nil => exact fun d none => by cases none
        | cons e es =>
          intro d same
          cases same
          cases again : isBlank e with
          | true => rcases isBlank_cases again with rfl | rfl <;> rfl
          | false =>
            have left : (' ' :: e :: es).dropWhile isBlank = (e :: es).dropWhile isBlank := rfl
            rw [left, dropWhile_of_head (solid_cons again)] at second
            exact second.of (p := fun c => isDigit c = false) (by decide) e rfl
      simp [afterDateTime, afterTime?_none noDigit]
    · simp [afterDateTime, noLetter.1, noLetter.2, blank]

theorem afterDateTime_append {x : Char} (letter : x = 'T' ∨ x = 't' ∨ x = ' ') (read : afterTime? ts = some text) :
    afterDateTime (x :: ts) = (afterOffset? text).getD text := by
  rw [afterDateTime, if_pos letter]
  simp only [read]

/-- A date has a minus sign behind its first digits. -/
theorem afterDate?_none (other : ∀ c ∈ (text.dropWhile isDigit).head?, c ≠ '-') : afterDate? text = none := by
  unfold afterDate?
  cases year : field? 4 0 9999 text with
  | none => rfl
  | some p =>
    obtain ⟨n, left⟩ := p
    have far : afterWord? ['-'] left = none := by
      rw [dropWhile_of_field? year] at other
      cases left with
      | nil => rfl
      | cons c left =>
        by_cases dash : c = '-'
        · subst dash
          exact absurd rfl (other '-' rfl)
        · exact afterWord?_none (Ne.symm dash)
    simp only [Option.bind_eq_bind, Option.bind_some, far, Option.bind_none]

/-- A time has a colon behind its first digits. -/
theorem afterTime?_none_of_digits (other : ∀ c ∈ (text.dropWhile isDigit).head?, c ≠ ':') : afterTime? text = none := by
  unfold afterTime?
  cases hour : field? 2 0 23 text with
  | none => rfl
  | some p =>
    obtain ⟨n, left⟩ := p
    have far : afterWord? [':'] left = none := by
      rw [dropWhile_of_field? hour] at other
      cases left with
      | nil => rfl
      | cons c left =>
        by_cases colon : c = ':'
        · subst colon
          exact absurd rfl (other ':' rfl)
        · exact afterWord?_none (Ne.symm colon)
    simp only [Option.bind_eq_bind, Option.bind_some, far, Option.bind_none]

theorem afterDate?_time (h : IsTime ts) : afterDate? (ts ++ text) = none := by
  obtain ⟨hour, -, -, -⟩ := h
  refine afterDate?_none fun c mem => ?_
  rw [List.append_assoc, List.cons_append, dropWhile_append hour.2.1 fun c same => by cases same; rfl] at mem
  cases mem
  decide

/-- A date, a time or both are read to the end. -/
theorem afterMoment?_append (h : IsMoment ts) (ends : EndsValue text) : afterMoment? (ts ++ text) = some text := by
  have plain : ∀ c ∈ text.head?, isDigit c = false ∧ c ≠ '.' := ends.1.of (by decide)
  unfold afterMoment?
  cases h with
  | date date =>
    rw [afterDate?_append date, Option.map_some, afterDateTime_none ends]
    rfl
  | time time =>
    rw [afterDate?_time time, afterTime?_append time plain]
    rfl
  | «local» date letter time =>
    rw [List.append_assoc, afterDate?_append date, Option.map_some, List.cons_append,
      afterDateTime_append letter (afterTime?_append time plain), afterOffset?_none ends.1]
    rfl
  | offset date letter time offset =>
    rw [List.append_assoc, afterDate?_append date, Option.map_some, List.cons_append, List.append_assoc,
      afterDateTime_append letter (afterTime?_append time (head_of_offset offset)), afterOffset?_append offset]
    rfl

/-! ### Numbers are no dates -/

/-- Digits that are followed neither by a minus sign nor by a colon. -/
def NoMoment (text : List Char) : Prop :=
  (∀ c ∈ text.head?, isDigit c = false) ∨ ∀ c ∈ (text.dropWhile isDigit).head?, c ≠ '-' ∧ c ≠ ':'

theorem NoMoment.afterMoment?_none (h : NoMoment text) : afterMoment? text = none := by
  unfold afterMoment?
  rcases h with other | other
  · rw [afterTime?_none other, afterDate?, field?_none other]
    rfl
  · rw [afterDate?_none fun c mem => (other c mem).1, afterTime?_none_of_digits fun c mem => (other c mem).2]
    rfl

theorem noMoment_digits (h : SpellsDigits isDigit ds ts)
    (ends : ∀ c ∈ text.head?, isDigit c = false ∧ c ≠ '-' ∧ c ≠ ':') : NoMoment (ts ++ text) := by
  right
  induction h with
  | one digit =>
    rw [List.singleton_append, List.dropWhile_cons, if_pos digit, dropWhile_of_head fun c mem => (ends c mem).1]
    exact fun c mem => (ends c mem).2
  | cons digit _ ih =>
    rw [List.cons_append, List.dropWhile_cons, if_pos digit]
    exact ih
  | low digit _ _ =>
    rw [List.cons_append, List.dropWhile_cons, if_pos digit]
    intro c same
    cases same
    decide

theorem noMoment_signed {sign : List Char} (h : IsSign sign) (digits : SpellsDigits isDigit ds ts)
    (ends : ∀ c ∈ text.head?, isDigit c = false ∧ c ≠ '-' ∧ c ≠ ':') : NoMoment (sign ++ (ts ++ text)) := by
  rcases h with rfl | rfl | rfl
  · rw [List.nil_append]
    exact noMoment_digits digits ends
  · exact .inl fun c same => by cases same; rfl
  · exact .inl fun c same => by cases same; rfl

theorem noMoment_based {c : Char} (letter : c = 'x' ∨ c = 'o' ∨ c = 'b') : NoMoment ('0' :: c :: text) := by
  right
  rcases letter with rfl | rfl | rfl
  all_goals
    intro c same
    cases same
    decide

theorem noMoment_integer (h : IsInteger ts) (ends : EndsToken text) : NoMoment (ts ++ text) := by
  cases h with
  | decimal signed whole _ =>
    rw [List.append_assoc]
    exact noMoment_signed signed whole.1 (ends.of (by decide))
  | hexadecimal _ _ => exact noMoment_based (.inl rfl)
  | octal _ _ => exact noMoment_based (.inr (.inl rfl))
  | binary _ _ => exact noMoment_based (.inr (.inr rfl))

theorem noMoment_float (h : IsFloat ts) : NoMoment (ts ++ text) := by
  cases h with
  | special signed =>
    left
    rcases signed with rfl | rfl | rfl
    all_goals
      intro c same
      cases same
      rfl
  | undefined signed =>
    left
    rcases signed with rfl | rfl | rfl
    all_goals
      intro c same
      cases same
      rfl
  | decimal signed whole fraction power nonempty _ =>
    simp only [List.append_assoc]
    obtain ⟨c, us, rest, letter⟩ := head_of_float fraction power nonempty text
    refine noMoment_signed signed whole.1 fun d mem => ?_
    rw [rest] at mem
    cases mem
    rcases letter with rfl | rfl | rfl <;> decide

end Footprint.Toml
