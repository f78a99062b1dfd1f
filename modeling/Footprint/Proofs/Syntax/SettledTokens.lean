import Footprint.Proofs.Syntax.SettledBodies
import Footprint.Proofs.Syntax.Standing

/-!
# Tokens that a blank ends

If every token that a text may begin with among code ends before a place, then it ends there too if a blank stands at the
place, and there is no other. For marks that is because the longest one is read, and for literals because what closes
them is no blank.
-/

namespace Footprint.Syntax

variable {w x z m cs : List Char} {t : Token} {quotes : List Quote} {n : Nat}

theorem prefix_of_blank (begins : m <+: w ++ ' ' :: z) (noBlank : ' ' ∉ m) : m <+: w := by
  by_cases short : m.length ≤ w.length
  · exact List.prefix_of_prefix_length_le begins (List.prefix_append w _) short
  · have passed : w ++ [' '] <+: m := by
      refine List.prefix_of_prefix_length_le ⟨z, by simp⟩ begins ?_
      rw [List.length_append, List.length_singleton]
      omega
    exact absurd (passed.subset (List.mem_append_right w (List.mem_singleton_self _))) noBlank

theorem exists_longest (quotes : List Quote) (known : m ∈ longMarks) (begins : m <+: cs) :
    ∃ l ∈ longMarks, m.length ≤ l.length ∧ (Token.mark l).length? quotes cs = some l.length := by
  have bounded : ∀ l ∈ longMarks, l.length ≤ 3 := by decide
  induction bound : 3 - m.length using Nat.strongRecOn generalizing m with
  | ind n ih =>
    by_cases longest : (longMarks.all fun l => l.length ≤ m.length || !l.isPrefixOf cs) = true
    · refine ⟨m, known, Nat.le_refl _, ?_⟩
      rw [Token.length?, longest, List.isPrefixOf_iff_prefix.mpr begins]
      rfl
    · obtain ⟨l, mem, longer⟩ := List.all_eq_false.mp (Bool.not_eq_true _ ▸ longest)
      simp only [Bool.or_eq_true, decide_eq_true_eq, Bool.not_eq_true', not_or, Bool.not_eq_false] at longer
      obtain ⟨longer, isHead⟩ := longer
      have le := bounded l mem
      obtain ⟨l', mem', more, read⟩ := ih (3 - l.length) (by omega) mem (List.isPrefixOf_iff_prefix.mp isHead) rfl
      exact ⟨l', mem', by omega, read⟩

theorem exists_opening (string : beginsString cs = true) : ∃ q n, Quote.opening? cs = some (q, n) := by
  rw [beginsString] at string
  cases rest : cs.dropWhile isStringPrefix with
  | nil =>
    rw [rest] at string
    cases string
  | cons c ds =>
    rw [rest] at string
    simp only [Quote.opening?, rest]
    exact ⟨_, _, if_pos string⟩

theorem beginsString_of_opening {q : Quote} (opened : Quote.opening? cs = some (q, n)) : beginsString cs = true := by
  cases string : beginsString cs with
  | true => rfl
  | false =>
    rw [opening_of_not_beginsString string] at opened
    cases opened

/-- Whatever token of code a text in two parts begins with, it stands in the first. A literal that is opened is also
closed there, unless it is formatted. -/
structure EndsWithin (w x : List Char) : Prop where
  ne_nil : w ≠ []
  word : wordLength (w ++ x) ≤ w.length
  number : Number.length (w ++ x) ≤ w.length
  mark : ∀ m ∈ longMarks, m <+: w ++ x → m.length ≤ w.length
  opening : ∀ q n, Quote.opening? (w ++ x) = some (q, n) → n ≤ w.length
  literal : ∀ q n, Quote.opening? (w ++ x) = some (q, n) → q.formatted = false →
    ∃ m, Quote.literalLength? (w ++ x) = some m ∧ m ≤ w.length

namespace EndsWithin

variable (h : EndsWithin w x)
include h

theorem opening?_eq (z : List Char) : Quote.opening? (w ++ ' ' :: z) = Quote.opening? (w ++ x) := by
  cases opened : Quote.opening? (w ++ x) with
  | some p => exact Quote.opening?_append opened (h.opening p.1 p.2 opened) (by decide) z
  | none =>
    apply opening_of_not_beginsString
    refine Bool.eq_false_iff.mpr fun string => ?_
    obtain ⟨v, c, ds, text, letters, quote⟩ := exists_of_beginsString string
    have noBlank : ' ' ∉ v ++ [c] := by
      rw [List.mem_append, List.mem_singleton, not_or]
      refine ⟨fun mem => absurd (letters ' ' mem) (by decide), ?_⟩
      rintro rfl
      cases quote
    obtain ⟨y, rfl⟩ := prefix_of_blank (w := w) (z := z) ⟨ds, by rw [text]; simp⟩ noBlank
    have string' : beginsString (v ++ c :: (y ++ x)) = true := beginsString_append letters quote
    obtain ⟨q, n, opened'⟩ := exists_opening string'
    rw [List.append_assoc, List.append_assoc, List.singleton_append, opened'] at opened
    cases opened

theorem beginsString_eq (z : List Char) : beginsString (w ++ ' ' :: z) = beginsString (w ++ x) := by
  rw [Bool.eq_iff_iff]
  constructor
  all_goals
    intro string
    obtain ⟨q, n, opened⟩ := exists_opening string
  · exact beginsString_of_opening (h.opening?_eq z ▸ opened)
  · exact beginsString_of_opening ((h.opening?_eq z).trans opened)

theorem prefix_iff (known : m ∈ marks) (z : List Char) : (m <+: w ++ ' ' :: z ↔ m <+: w) ∧ (m <+: w ++ x ↔ m <+: w) := by
  have noBlank : ∀ m ∈ marks, ' ' ∉ m := by decide
  have short : ∀ m ∈ marks, m.length = 1 ∨ m ∈ longMarks := by decide
  have some := List.length_pos_iff.mpr h.ne_nil
  refine ⟨⟨fun begins => prefix_of_blank begins (noBlank m known), fun begins => begins.trans (List.prefix_append _ _)⟩,
    fun begins => ?_, fun begins => begins.trans (List.prefix_append _ _)⟩
  refine List.prefix_of_prefix_length_le begins (List.prefix_append w x) ?_
  rcases short m known with one | long
  · omega
  · exact h.mark m long begins

theorem length?_mark (known : m ∈ marks) (z : List Char) :
    (Token.mark m).length? quotes (w ++ ' ' :: z) = (Token.mark m).length? quotes (w ++ x) ∧
      ∀ n, (Token.mark m).length? quotes (w ++ x) = some n → n ≤ w.length := by
  have long : ∀ l ∈ longMarks, l ∈ marks := by decide
  have same {l : List Char} (known : l ∈ marks) : l.isPrefixOf (w ++ ' ' :: z) = l.isPrefixOf (w ++ x) := by
    obtain ⟨blank, plain⟩ := h.prefix_iff known z
    rw [Bool.eq_iff_iff, List.isPrefixOf_iff_prefix, List.isPrefixOf_iff_prefix, blank, plain]
  have longest : (longMarks.all fun l => l.length ≤ m.length || !l.isPrefixOf (w ++ ' ' :: z)) =
      longMarks.all fun l => l.length ≤ m.length || !l.isPrefixOf (w ++ x) := by
    rw [Bool.eq_iff_iff, List.all_eq_true, List.all_eq_true]
    exact forall₂_congr fun l mem => by rw [same (long l mem)]
  refine ⟨by rw [Token.length?, Token.length?, same known, longest], fun n length => ?_⟩
  obtain ⟨rfl, begins, -⟩ := of_length_mark known length
  exact ((h.prefix_iff known z).2.mp begins).length_le

theorem take_word (z : List Char) : (w ++ ' ' :: z).take (wordLength (w ++ ' ' :: z)) = (w ++ x).take (wordLength (w ++ x)) := by
  rw [settles_wordLength w x z h.word, List.take_append_of_le_length h.word, List.take_append_of_le_length h.word]

/-- Each token of code is read alike with a blank behind the first part. A conversion is one only in a field. -/
theorem length?_eq (quotes : List Quote) (spaced : t.isSpaced = true) (known : ∀ m, t = .mark m → m ∈ marks)
    (converts : t = .conversion → ∀ n, t.length? quotes (w ++ x) = some n → n ≤ w.length) (brace : '}' ∈ z → '}' ∈ x) :
    t.length? quotes (w ++ ' ' :: z) = t.length? quotes (w ++ x) ∧
      ∀ n, t.length? quotes (w ++ x) = some n → n ≤ w.length := by
  cases t with
  | mark m => exact h.length?_mark (known m rfl) z
  | keyword v =>
    refine ⟨by rw [Token.length?, Token.length?, h.take_word], fun n length => ?_⟩
    obtain ⟨same, length⟩ := Option.ite_none_right_eq_some.mp length
    obtain rfl := eq_of_nonempty length
    rw [← same, List.length_take]
    exact Nat.le_trans (Nat.min_le_left _ _) h.word
  | name except =>
    refine ⟨?_, fun n length => ?_⟩
    · simp only [Token.length?]
      rw [h.take_word, settles_wordLength w x z h.word]
    · simp only [Token.length?] at length
      obtain ⟨-, same⟩ := Option.ite_none_left_eq_some.mp length
      exact Option.some.inj same ▸ h.word
  | number =>
    refine ⟨by rw [Token.length?, Token.length?, Number.settles_length w x z h.number], fun n length => ?_⟩
    exact eq_of_nonempty length ▸ h.number
  | plainString =>
    rw [Token.length?, Token.length?]
    cases opened : Quote.opening? (w ++ x) with
    | none =>
      have opened' := (h.opening?_eq z).trans opened
      simp [Quote.literalLength?, opened, opened']
    | some p =>
      obtain ⟨q, n⟩ := p
      have opened' := (h.opening?_eq z).trans opened
      cases formatted : q.formatted with
      | true => simp [Quote.literalLength?, opened, opened', formatted]
      | false =>
        obtain ⟨m, length, le⟩ := h.literal q n opened formatted
        rw [length, Quote.literalLength?_settled brace length le]
        exact ⟨rfl, fun n same => Option.some.inj same ▸ le⟩
  | openFormatted =>
    rw [Token.length?, Token.length?, h.opening?_eq]
    refine ⟨rfl, fun n length => ?_⟩
    split at length
    · rename_i q n' opened
      obtain ⟨-, same⟩ := Option.ite_none_right_eq_some.mp length
      exact Option.some.inj same ▸ h.opening q n' opened
    · cases length
  | conversion =>
    have within := converts rfl
    refine ⟨?_, within⟩
    obtain ⟨c, w, rfl⟩ := List.exists_cons_of_ne_nil h.ne_nil
    cases w with
    | cons d w =>
      by_cases bang : c = '!'
      · rw [bang]
        rfl
      · have none (cs : List Char) : Token.conversion.length? quotes (c :: cs) = none := by
          simp [Token.length?, bang]
        exact (none _).trans (none _).symm
    | nil =>
      have none : Token.conversion.length? quotes ([c] ++ ' ' :: z) = none := by
        simp only [Token.length?]
        split
        · rename_i begins
          obtain ⟨-, same⟩ := List.cons.inj begins
          rw [← (List.cons.inj same).1]
          rfl
        · rfl
      rw [none]
      cases length : Token.conversion.length? quotes ([c] ++ x) with
      | none => rfl
      | some n =>
        have le := within n length
        simp only [Token.length?] at length
        split at length
        · obtain ⟨-, same⟩ := Option.ite_none_right_eq_some.mp length
          rw [← Option.some.inj same] at le
          cases le with
          | step le => cases le
        · cases length
  | colon =>
    obtain ⟨c, w, rfl⟩ := List.exists_cons_of_ne_nil h.ne_nil
    refine ⟨rfl, fun n length => ?_⟩
    obtain ⟨-, same⟩ := Option.ite_none_right_eq_some.mp length
    rw [← Option.some.inj same, List.length_cons]
    exact Nat.le_add_left 1 _
  | formattedText | closeFormatted | formatText => cases spaced

end EndsWithin

/-- A formatted string that is closed before a place is closed there too if a blank stands at the place. -/
theorem length?_closeFormatted {q : Quote} {c : Char} (marked : isQuoteMark q.mark = true)
    (within : ∀ n, Token.closeFormatted.length? (q :: quotes) (c :: (w ++ x)) = some n → n ≤ w.length + 1) (z : List Char) :
    Token.closeFormatted.length? (q :: quotes) (c :: (w ++ ' ' :: z)) =
      Token.closeFormatted.length? (q :: quotes) (c :: (w ++ x)) := by
  simp only [Token.length?] at within ⊢
  by_cases isMark : c = q.mark
  · cases triple : q.triple with
    | false => rfl
    | true =>
      rw [doubled_append (x := x)]
      · intro twice
        have short := within q.closingLength (if_pos (by simp [isMark, triple, twice]))
        rw [Quote.closingLength, triple, if_pos rfl] at short
        omega
      · intro same
        rw [← same] at marked
        cases marked
  · simp [isMark]

end Footprint.Syntax
