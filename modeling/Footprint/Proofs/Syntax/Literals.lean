import Footprint.Proofs.StringLiteral.Returns
import Footprint.Proofs.Syntax.Bodies
import Footprint.Proofs.Syntax.Positions

/-!
# Literals in their parts

A literal that is read is made of prefix letters, a delimiter, a body and the delimiter again, and so is the same
literal with returns before its line feeds.
-/

namespace Footprint.Syntax

open Text StringLiteral

variable {q : Quote} {c : Char} {cs : List Char} {n m skip : Nat} {fresh : Bool}

theorem inLine_delimiter {mark : Char} (marked : isQuoteMark mark = true) (triple : Bool) (rest : List Char) :
    InLine (delimiter mark triple ++ rest) (delimiter mark triple).length := by
  refine inLine_of_isHead (fun mem => (ne_of_isQuoteMark marked).1 ?_) (List.prefix_append _ _)
  cases triple <;> simpa [delimiter, eq_comm] using mem

namespace Quote

structure Opens (q : Quote) (n : Nat) (letters rest cs : List Char) : Prop where
  text : cs = letters ++ (delimiter q.mark q.triple ++ rest)
  length : n = letters.length + (delimiter q.mark q.triple).length
  prefixes : ∀ c ∈ letters, isStringPrefix c = true
  marked : isQuoteMark q.mark = true
  formatted : q.formatted = hasLetter letters 'f'

theorem length_delimiter (q : Quote) : (delimiter q.mark q.triple).length = q.closingLength := by
  rw [delimiter, closingLength]
  cases q.triple <;> rfl

theorem eq_of_isStringPrefix (h : isStringPrefix c = true) :
    c = 'r' ∨ c = 'R' ∨ c = 'u' ∨ c = 'U' ∨ c = 'b' ∨ c = 'B' ∨ c = 'f' ∨ c = 'F' := by
  simpa [isStringPrefix, or_assoc] using h

theorem exists_opens (h : opening? cs = some (q, n)) : ∃ letters rest, q.Opens n letters rest cs := by
  have marked := isQuoteMark_of_opening h
  have parts : cs.takeWhile isStringPrefix ++ cs.dropWhile isStringPrefix = cs := List.takeWhile_append_dropWhile
  simp only [opening?] at h
  split at h
  · cases h
  rename_i mark rest begins
  obtain ⟨-, same⟩ := Option.ite_none_right_eq_some.mp h
  obtain ⟨rfl, rfl⟩ := Prod.mk.inj (Option.some.inj same)
  rw [begins] at parts
  have prefixes : ∀ c ∈ cs.takeWhile isStringPrefix, isStringPrefix c = true := List.all_eq_true.mp List.all_takeWhile
  have formatted : ((cs.takeWhile isStringPrefix).any fun x => x == 'f' || x == 'F') =
      hasLetter (cs.takeWhile isStringPrefix) 'f' := by
    rw [Bool.eq_iff_iff, List.any_eq_true, hasLetter_eq_true_iff]
    refine exists_congr fun c => and_congr_right fun mem => ?_
    rcases eq_of_isStringPrefix (prefixes c mem) with rfl | rfl | rfl | rfl | rfl | rfl | rfl | rfl <;> decide
  cases triple : mark != '`' && doubled mark rest with
  | false => exact ⟨_, rest, parts.symm, rfl, prefixes, marked, formatted⟩
  | true =>
    obtain ⟨-, twice⟩ := Bool.and_eq_true_iff.mp triple
    rcases rest with _ | ⟨a, _ | ⟨b, rest⟩⟩
    · cases twice
    · cases twice
    · rw [doubled, Bool.and_eq_true, beq_iff_eq, beq_iff_eq] at twice
      obtain ⟨rfl, rfl⟩ := twice
      exact ⟨_, rest, parts.symm, rfl, prefixes, marked, formatted⟩

variable {letters rest : List Char}

theorem Opens.inLine (h : q.Opens n letters rest cs) : InLine cs n := by
  have noFeed : '\n' ∉ letters := fun mem => absurd (h.prefixes _ mem) (by decide)
  rw [h.text, h.length]
  refine (inLine_of_isHead noFeed (List.prefix_append _ _)).add ?_
  rw [List.drop_left]
  exact inLine_delimiter h.marked _ _

theorem Opens.known (h : q.Opens n letters rest cs) : ∀ c ∈ letters, c ∈ prefixLetters := by
  intro c mem
  rcases eq_of_isStringPrefix (h.prefixes c mem) with rfl | rfl | rfl | rfl | rfl | rfl | rfl | rfl <;> decide

theorem Opens.isAnyMark (h : q.Opens n letters rest cs) : IsAnyMark q.mark := by
  have marked := h.marked
  simp only [isQuoteMark, Bool.or_eq_true, beq_iff_eq] at marked
  exact marked

theorem Opens.drop_eq (h : q.Opens n letters rest cs) : cs.drop n = rest := by
  rw [h.text, h.length, ← List.append_assoc, ← List.length_append, List.drop_left]

theorem delimiter_of_closes (closes : (c = q.mark && (!q.triple || doubled q.mark cs)) = true) :
    delimiter q.mark q.triple <+: c :: cs := by
  rw [Bool.and_eq_true, decide_eq_true_eq] at closes
  obtain ⟨rfl, closes⟩ := closes
  cases triple : q.triple with
  | false => exact ⟨cs, rfl⟩
  | true =>
    rw [triple] at closes
    rcases cs with _ | ⟨a, _ | ⟨b, cs⟩⟩
    · cases closes
    · cases closes
    · simp only [Bool.not_true, Bool.false_or, doubled, Bool.and_eq_true, beq_iff_eq] at closes
      obtain ⟨rfl, rfl⟩ := closes
      exact ⟨cs, rfl⟩

theorem delimiter_of_bodyLength (plain : q.formatted = false)
    (h : q.bodyLength? skip fresh cs = some m) : delimiter q.mark q.triple <+: cs.drop m := by
  induction cs generalizing skip fresh m with
  | nil => cases skip <;> cases h
  | cons c cs ih =>
    have further {skip : Nat} {fresh : Bool} (h : (q.bodyLength? skip fresh cs).map (· + 1) = some m) :
        delimiter q.mark q.triple <+: (c :: cs).drop m := by
      obtain ⟨k, length, rfl⟩ := Option.map_eq_some_iff.mp h
      exact ih length
    cases skip with
    | succ n => exact further h
    | zero =>
      rw [bodyLength?, plain, Bool.false_and, Bool.false_and, if_neg Bool.false_ne_true, if_neg Bool.false_ne_true] at h
      split at h
      · cases h
      split at h
      · split at h
        · exact further h
        split at h
        · exact further h
        · exact further h
      split at h
      · rename_i closes
        obtain rfl := Option.some.inj h
        exact delimiter_of_closes closes
      split at h
      · cases h
      · exact further h

/-- Whether a body that has an end also has one if lines end in returns. In three quotes it does. -/
def bearsReturns (q : Quote) (cs : List Char) : Bool :=
  q.triple || (q.bodyLength? 0 true cs).isNone || (q.bodyLength? 0 true (withReturns cs)).isSome

theorem bodyLength?_of_bearsReturns (marked : isQuoteMark q.mark = true) (noReturn : '\r' ∉ cs)
    (bears : q.bearsReturns cs = true) :
    q.bodyLength? 0 true (withReturns cs) = (q.bodyLength? 0 true cs).map (reach cs) := by
  have reaches := bodyLength?_withReturns marked noReturn 0 true
  rw [reach_zero] at reaches
  rcases reaches with same | ⟨single, none⟩
  · exact same
  · simp only [bearsReturns, single, none, Bool.false_or, Option.isSome_none, Bool.or_false, Option.isNone_iff_eq_none] at bears
    rw [bears, none]
    rfl

/-- A plain literal is read with returns just as well, or its body does not bear them. -/
theorem literalLength?_withReturns (noReturn : '\r' ∉ cs) :
    literalLength? (withReturns cs) = (literalLength? cs).map (reach cs) ∨
      literalLength? (withReturns cs) = none ∧
        ∃ q n, opening? cs = some (q, n) ∧ q.formatted = false ∧ q.bearsReturns (cs.drop n) = false := by
  rw [literalLength?, literalLength?, opening?_withReturns]
  cases opened : opening? cs with
  | none => exact .inl rfl
  | some p =>
    obtain ⟨q, n⟩ := p
    obtain ⟨letters, rest, opens⟩ := exists_opens opened
    dsimp only
    cases formatted : q.formatted with
    | true => exact .inl rfl
    | false =>
      rw [if_neg Bool.false_ne_true, if_neg Bool.false_ne_true, opens.inLine.drop_eq]
      cases bears : q.bearsReturns (cs.drop n) with
      | false =>
        right
        have lost := bears
        simp only [bearsReturns, Bool.or_eq_false_iff, Option.isSome_eq_false_iff, Option.isNone_iff_eq_none] at lost
        rw [lost.2]
        exact ⟨rfl, q, n, rfl, formatted, bears⟩
      | true =>
        left
        rw [bodyLength?_of_bearsReturns opens.marked (fun mem => noReturn (List.mem_of_mem_drop mem)) bears]
        cases length : q.bodyLength? 0 true (cs.drop n) with
        | none => rfl
        | some m =>
          obtain ⟨after, closes⟩ := delimiter_of_bodyLength formatted length
          have closing : reach ((cs.drop n).drop m) q.closingLength = q.closingLength := by
            rw [← closes, ← length_delimiter, (inLine_delimiter opens.marked _ _).reach_eq]
          refine congrArg some ?_
          rw [reach_add, reach_add, opens.inLine.reach_eq, ← List.drop_drop, closing]

theorem isLiteral_of_length (length : literalLength? cs = some n) : IsLiteral (cs.take n) := by
  rw [literalLength?] at length
  split at length
  · rename_i q k opened
    obtain ⟨letters, rest, opens⟩ := exists_opens opened
    split at length
    · cases length
    rename_i plain
    have plain : q.formatted = false := by simpa using plain
    split at length
    · rename_i m body
      obtain rfl := Option.some.inj length
      rw [opens.drop_eq] at body
      obtain ⟨after, closes⟩ := delimiter_of_bodyLength plain body
      have some : delimiter q.mark q.triple ≠ [] := by
        cases q.triple <;> exact List.cons_ne_nil _ _
      have le : m ≤ rest.length := by
        refine Nat.le_of_not_lt fun beyond => some ?_
        rw [List.drop_eq_nil_of_le (Nat.le_of_lt beyond)] at closes
        exact (List.append_eq_nil_iff.mp closes).1
      have text : cs = (letters ++ (delimiter q.mark q.triple ++ (rest.take m ++ delimiter q.mark q.triple))) ++ after := by
        rw [opens.text]
        conv => lhs; rw [← List.take_append_drop m rest, ← closes]
        simp only [List.append_assoc]
      rw [text, List.take_left']
      · refine .quoted opens.known opens.isAnyMark fun single first => ?_
        obtain ⟨ds, begins⟩ := List.head?_eq_some_iff.mp first
        have same : rest = q.mark :: (ds ++ rest.drop m) := by
          rw [← List.cons_append, ← begins, List.take_append_drop]
        rw [same, bodyLength?_mark opens.marked (fun three => absurd (single.symm.trans three) Bool.false_ne_true)] at body
        obtain rfl := Option.some.inj body
        cases begins
      · simp only [List.length_append, List.length_take, Nat.min_eq_left le, opens.length, length_delimiter]
        omega
    · cases length
  · cases length

theorem Opens.isLiteral (h : q.Opens n letters rest cs) (formatted : q.formatted = true) {w : List Char}
    (part : w <+: cs) (le : n ≤ w.length) : IsLiteral w := by
  obtain ⟨ds, begins⟩ := delimiter_eq_cons q.mark q.triple
  have isHead : letters ++ delimiter q.mark q.triple <+: w := by
    refine List.prefix_of_prefix_length_le ⟨rest, ?_⟩ part ?_
    · rw [List.append_assoc]
      exact h.text.symm
    · rwa [List.length_append, ← h.length]
  obtain ⟨after, rfl⟩ := isHead
  rw [begins, List.append_assoc, List.cons_append]
  exact .formatted h.known h.isAnyMark (h.formatted.symm.trans formatted)

end Quote

end Footprint.Syntax
