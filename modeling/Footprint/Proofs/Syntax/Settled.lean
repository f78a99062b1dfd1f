import Footprint.Proofs.Syntax.Inline

/-!
# Tokens that a blank ends

What a token takes of a text is settled by what it takes: where it ends before a place, it ends there too if a blank
stands at the place, whatever follows.
-/

namespace Footprint.Syntax

open Text (isDigit isIdentifierStart isIdentifierRest isHex isOctal isBinary)

/-- A count of characters that does not reach across a blank, nor ends for what is behind it. -/
def Settles (f : List Char → Nat) : Prop := ∀ w x z, f (w ++ x) ≤ w.length → f (w ++ ' ' :: z) = f (w ++ x)

variable {p : Char → Bool} {f g : List Char → Nat} {c : Char} {w x z : List Char} {n : Nat}

namespace Settles

/-- A count is settled if it is none at a blank, and settled behind each first character. -/
theorem of_cons (blank : ∀ z, f (' ' :: z) = 0)
    (cons : ∀ c w x z, f (c :: (w ++ x)) ≤ w.length + 1 → f (c :: (w ++ ' ' :: z)) = f (c :: (w ++ x))) : Settles f := by
  intro w x z within
  cases w with
  | nil => exact (blank z).trans (Nat.eq_zero_of_le_zero within).symm
  | cons c w => exact cons c w x z within

theorem drop (h : Settles f) (le : n ≤ w.length) (within : n + f ((w ++ x).drop n) ≤ w.length) (z : List Char) :
    f ((w ++ ' ' :: z).drop n) = f ((w ++ x).drop n) := by
  rw [List.drop_append_of_le_length le] at within ⊢
  rw [List.drop_append_of_le_length le]
  apply h
  rw [List.length_drop]
  omega

theorem takeWhile (blank : p ' ' = false) : Settles fun cs => (cs.takeWhile p).length := by
  intro w x z within
  dsimp only at within ⊢
  rw [List.takeWhile_append] at within ⊢
  rw [List.takeWhile_append]
  split
  · rename_i all
    rw [if_pos all, List.length_append] at within
    rw [List.takeWhile_cons_of_neg (by rw [blank]; exact Bool.false_ne_true), List.append_nil, List.length_append]
    omega
  · rfl

end Settles

theorem settles_wordLength : Settles wordLength := by
  apply Settles.of_cons
  · exact fun z => rfl
  · intro c w x z within
    rw [wordLength] at within ⊢
    rw [wordLength]
    split
    · rename_i start
      rw [if_pos start, Nat.add_comm] at within
      have rest : Settles fun cs => (cs.takeWhile isIdentifierRest).length := .takeWhile (by decide)
      exact congrArg (1 + ·) (rest w x z (Nat.le_of_succ_le_succ within))
    · rfl

namespace Number

theorem settles_digitsAfter (was : Bool) : Settles (digitsAfter was) := by
  intro w x z within
  induction w generalizing was with
  | nil =>
    have blank : isDigit ' ' = false := by decide
    rw [Nat.eq_zero_of_le_zero within, List.nil_append]
    simp [digitsAfter, blank]
  | cons c w ih =>
    rw [List.cons_append, digitsAfter] at within ⊢
    rw [List.cons_append, digitsAfter]
    split
    · rename_i digit
      rw [if_pos digit, List.length_cons, Nat.add_comm] at within
      rw [ih true (Nat.le_of_succ_le_succ within)]
    · rename_i noDigit
      rw [if_neg noDigit] at within
      split
      · rename_i low
        rw [if_pos low, List.length_cons, Nat.add_comm] at within
        rw [ih false (Nat.le_of_succ_le_succ within)]
      · rfl

theorem settles_suffix (blank : p ' ' = false) : Settles (suffix p) := by
  apply Settles.of_cons
  · exact fun z => by rw [suffix, blank, if_neg Bool.false_ne_true]
  · exact fun c w x z _ => rfl

theorem groups_cons {ok : Char → Bool} (other : c ≠ '_') (cs : List Char) :
    groups ok (c :: cs) = if ok c then 1 + groups ok cs else 0 := by
  rw [groups.eq_3]
  rintro d ds rfl
  exact absurd rfl other

theorem groups_low {ok : Char → Bool} (d : Char) (cs : List Char) :
    groups ok ('_' :: d :: cs) = if ok d then 2 + groups ok cs else 0 := by rw [groups]

theorem groups_lone {ok : Char → Bool} (low : ok '_' = false) : groups ok ['_'] = 0 := by
  rw [groups.eq_3 ok '_' [] (by simp), low, if_neg Bool.false_ne_true]

theorem settles_groups (blank : p ' ' = false) (low : p '_' = false) : Settles (groups p) := by
  intro w x z within
  induction bound : w.length using Nat.strongRecOn generalizing w with
  | ind n ih =>
    have further {v : List Char} (shorter : v.length < w.length) (within : groups p (v ++ x) ≤ v.length) :
        groups p (v ++ ' ' :: z) = groups p (v ++ x) := ih v.length (bound ▸ shorter) v within rfl
    rcases w with _ | ⟨c, w⟩
    · rw [Nat.eq_zero_of_le_zero within, List.nil_append, groups_cons (by decide), blank, if_neg Bool.false_ne_true]
    by_cases isLow : c = '_'
    · subst isLow
      rcases w with _ | ⟨d, w⟩
      · rw [List.singleton_append, groups_low, blank, if_neg Bool.false_ne_true, List.singleton_append]
        rcases x with _ | ⟨d, x⟩
        · rw [groups_lone low]
        · rw [List.singleton_append, groups_low, List.length_singleton] at within
          rw [groups_low]
          split at within
          · omega
          · rename_i other
            rw [if_neg other]
      · rw [List.cons_append, List.cons_append, groups_low, List.length_cons, List.length_cons] at within
        rw [List.cons_append, List.cons_append, groups_low, List.cons_append, List.cons_append, groups_low]
        split
        · rename_i ok
          rw [if_pos ok] at within
          rw [further (by rw [List.length_cons, List.length_cons]; omega) (by omega)]
        · rfl
    · rw [List.cons_append, groups_cons isLow] at within ⊢
      rw [List.cons_append, groups_cons isLow]
      split
      · rename_i ok
        rw [if_pos ok, List.length_cons] at within
        rw [further (Nat.lt_succ_self _) (by omega)]
      · rfl

theorem settles_exponent : Settles exponent := by
  apply Settles.of_cons
  · exact fun z => rfl
  · intro e w x z within
    rw [exponent_cons] at within ⊢
    rw [exponent_cons]
    split
    · rename_i letter
      rw [if_pos letter] at within
      rcases w with _ | ⟨c, w⟩
      · have none : digits ((' ' :: z).drop (signLength (' ' :: z))) = 0 := rfl
        rw [List.nil_append, none, if_pos rfl]
        split
        · rfl
        · rename_i some
          rw [if_neg some, List.length_nil] at within
          omega
      · have sign : signLength (c :: w ++ ' ' :: z) = signLength (c :: w ++ x) := rfl
        have short : signLength (c :: w ++ x) ≤ 1 := by
          rw [List.cons_append, signLength, suffix]
          split <;> omega
        rw [sign]
        have number : digits ((c :: w ++ ' ' :: z).drop (signLength (c :: w ++ x))) =
            digits ((c :: w ++ x).drop (signLength (c :: w ++ x))) := by
          apply (settles_digitsAfter false).drop
          · exact Nat.le_trans short (Nat.succ_le_succ (Nat.zero_le _))
          · show _ + digits _ ≤ _
            split at within
            · rename_i none
              rw [none, List.length_cons]
              omega
            · omega
        rw [number]
    · rfl

theorem settles_based {b : Char} (blank : p ' ' = false) (low : p '_' = false)
    (within : based p ('0' :: b :: (w ++ x)) ≤ w.length + 2) (z : List Char) :
    based p ('0' :: b :: (w ++ ' ' :: z)) = based p ('0' :: b :: (w ++ x)) := by
  rw [based_cons] at within ⊢
  rw [based_cons]
  have number : groups p (w ++ ' ' :: z) = groups p (w ++ x) := by
    apply settles_groups blank low
    split at within
    · rename_i none
      rw [none]
      exact Nat.zero_le _
    · omega
  rw [number]
  split
  · rfl
  · rename_i some
    rw [if_neg some] at within
    have ends : suffix isLong ((w ++ ' ' :: z).drop (groups p (w ++ x))) =
        suffix isLong ((w ++ x).drop (groups p (w ++ x))) := by
      apply (settles_suffix (by decide)).drop
      · omega
      · omega
    rw [ends]

theorem decimal_blank (z : List Char) : decimal (' ' :: z) = 0 := by
  have noPoint : ((' ' :: z).drop (digits (' ' :: z))).head? ≠ some '.' := show some ' ' ≠ some '.' by decide
  rw [decimal_whole noPoint]
  exact if_pos rfl

theorem settles_decimal : Settles decimal := by
  intro w x z within
  have power := settles_exponent
  have imaginary : Settles (suffix isImaginary) := settles_suffix (by decide)
  have either : Settles (suffix fun c => isLong c || isImaginary c) := settles_suffix (by decide)
  have whole (le : digits (w ++ x) ≤ w.length) : digits (w ++ ' ' :: z) = digits (w ++ x) := settles_digitsAfter false w x z le
  by_cases point : ∃ ds, (w ++ x).drop (digits (w ++ x)) = '.' :: ds
  · obtain ⟨ds, point⟩ := point
    rw [decimal_point point] at within ⊢
    rcases w with _ | ⟨c, w⟩
    · rw [List.nil_append, decimal_blank, Nat.eq_zero_of_le_zero within]
    have le : digits (c :: w ++ x) < (c :: w).length := by
      split at within
      · rename_i none
        rw [none.1]
        exact Nat.succ_pos _
      · dsimp only at within
        omega
    generalize c :: w = w at *
    obtain ⟨w', split, rfl⟩ : ∃ w', w.drop (digits (w ++ x)) = '.' :: w' ∧ ds = w' ++ x := by
      rw [List.drop_append_of_le_length (Nat.le_of_lt le), List.drop_eq_getElem_cons le, List.cons_append] at point
      obtain ⟨head, rfl⟩ := List.cons.inj point
      exact ⟨_, by rw [List.drop_eq_getElem_cons le, head], rfl⟩
    have length := congrArg List.length split
    rw [List.length_drop, List.length_cons] at length
    have point' : (w ++ ' ' :: z).drop (digits (w ++ ' ' :: z)) = '.' :: (w' ++ ' ' :: z) := by
      rw [whole (Nat.le_of_lt le), List.drop_append_of_le_length (Nat.le_of_lt le), split, List.cons_append]
    have fraction (le : digits (w' ++ x) ≤ w'.length) : digits (w' ++ ' ' :: z) = digits (w' ++ x) :=
      settles_digitsAfter false w' x z le
    rw [decimal_point point', whole (Nat.le_of_lt le)]
    by_cases none : digits (w ++ x) = 0 ∧ digits (w' ++ x) = 0
    · rw [fraction (by omega), if_pos none, if_pos none]
    · rw [if_neg none] at within
      dsimp only at within
      rw [fraction (by omega), if_neg none, if_neg none]
      dsimp only
      rw [power.drop (x := x) (by omega) (by omega), imaginary.drop (x := x) (by omega) within]
  · have noPoint : ((w ++ x).drop (digits (w ++ x))).head? ≠ some '.' := by
      intro head
      obtain ⟨ds, point'⟩ := List.head?_eq_some_iff.mp head
      exact point ⟨ds, point'⟩
    rw [decimal_whole noPoint] at within ⊢
    have le : digits (w ++ x) ≤ w.length := by
      split at within
      · omega
      · split at within
        · omega
        · dsimp only at within
          omega
    have noPoint' : ((w ++ ' ' :: z).drop (digits (w ++ ' ' :: z))).head? ≠ some '.' := by
      rw [List.drop_append_of_le_length le] at noPoint
      rw [whole le, List.drop_append_of_le_length le]
      generalize w.drop (digits (w ++ x)) = v at noPoint
      cases v with
      | nil => nofun
      | cons c v => exact noPoint
    rw [decimal_whole noPoint', whole le]
    split
    · rfl
    · rename_i some
      rw [if_neg some] at within
      have same : exponent ((w ++ ' ' :: z).drop (digits (w ++ x))) = exponent ((w ++ x).drop (digits (w ++ x))) := by
        apply power.drop le
        split at within
        · omega
        · dsimp only at within
          omega
      rw [same]
      split
      · rename_i none
        rw [if_pos none] at within
        rw [either.drop le within]
      · rename_i powered
        rw [if_neg powered] at within
        dsimp only at within ⊢
        rw [imaginary.drop (by omega) within]

theorem inBase_zero (b : Char) (cs : List Char) :
    inBase ('0' :: b :: cs) =
      if b = 'x' ∨ b = 'X' then based isHex ('0' :: b :: cs)
      else if b = 'o' ∨ b = 'O' then based isOctal ('0' :: b :: cs)
      else if b = 'b' ∨ b = 'B' then based isBinary ('0' :: b :: cs)
      else 0 := rfl

theorem based_eq_zero {a b : Char} {cs : List Char} (short : based p (a :: b :: cs) ≤ 1) : based p (a :: b :: cs) = 0 := by
  rw [based_cons] at short ⊢
  split at short
  · rename_i none
    exact if_pos none
  · omega

theorem settles_inBase : Settles inBase := by
  apply Settles.of_cons
  · exact fun z => rfl
  · intro c w x z within
    by_cases zero : c = '0'
    · subst zero
      rcases w with _ | ⟨b, w⟩
      · have blank : inBase ('0' :: ([] ++ ' ' :: z)) = 0 := rfl
        rw [blank]
        rcases x with _ | ⟨b, x⟩
        · rfl
        · rw [List.nil_append, inBase_zero] at within ⊢
          split at within
          · rename_i hex
            rw [if_pos hex, based_eq_zero within]
          · rename_i noHex
            rw [if_neg noHex]
            split at within
            · rename_i octal
              rw [if_pos octal, based_eq_zero within]
            · rename_i noOctal
              rw [if_neg noOctal]
              split at within
              · rename_i binary
                rw [if_pos binary, based_eq_zero within]
              · rename_i noBinary
                rw [if_neg noBinary]
      · rw [List.cons_append, inBase_zero] at within ⊢
        rw [List.cons_append, inBase_zero]
        split at within
        · rename_i hex
          rw [if_pos hex, if_pos hex, settles_based (by decide) (by decide) within]
        · rename_i noHex
          rw [if_neg noHex, if_neg noHex]
          split at within
          · rename_i octal
            rw [if_pos octal, if_pos octal, settles_based (by decide) (by decide) within]
          · rename_i noOctal
            rw [if_neg noOctal, if_neg noOctal]
            split at within
            · rename_i binary
              rw [if_pos binary, if_pos binary, settles_based (by decide) (by decide) within]
            · rename_i noBinary
              rw [if_neg noBinary, if_neg noBinary]
    · rw [inBase_cons zero, inBase_cons zero]

theorem settles_length : Settles length := by
  intro w x z within
  rw [length_eq_inBase] at within ⊢
  rw [length_eq_inBase]
  have base : inBase (w ++ ' ' :: z) = inBase (w ++ x) := by
    apply settles_inBase
    split at within
    · rename_i none
      rw [none]
      exact Nat.zero_le _
    · exact within
  rw [base]
  split
  · rename_i none
    rw [if_pos none] at within
    exact settles_decimal w x z within
  · rfl

end Number

end Footprint.Syntax
