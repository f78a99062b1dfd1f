import Footprint.Proofs.Syntax.Bodies
import Footprint.Proofs.Syntax.Positions
import Footprint.Proofs.Syntax.Settled

/-!
# Literals that a blank ends

A literal that ends before a place ends there too if a blank stands at the place. A backslash may look far ahead for the
brace that ends a name, so what stands behind the blank may only have a brace if there has been one.
-/

namespace Footprint.Syntax

variable {q : Quote} {c d m : Char} {w x z : List Char} {n k : Nat} {fresh : Bool}

theorem doubled_append {m d : Char} (le : doubled m (w ++ x) = true → 2 ≤ w.length) (other : d ≠ m) (cs : List Char) :
    doubled m (w ++ d :: cs) = doubled m (w ++ x) := by
  have noMark : (d == m) = false := beq_eq_false_iff_ne.mpr other
  have single (short : w.length < 2) : doubled m (w ++ x) = false :=
    Bool.eq_false_iff.mpr fun twice => absurd (le twice) (Nat.not_le_of_lt short)
  rcases w with _ | ⟨b, _ | ⟨e, w⟩⟩
  · rw [single (by decide)]
    cases cs <;> simp [doubled, noMark]
  · rw [single (by simp)]
    simp [doubled, noMark]
  · rfl

theorem settles_lineEndLength : Settles Quote.lineEndLength := by
  apply Settles.of_cons
  · exact fun z => rfl
  · intro c w x z within
    rcases w with _ | ⟨d, w⟩
    · rw [List.nil_append, List.nil_append] at *
      by_cases ret : c = '\r'
      · subst ret
        have blank : Quote.lineEndLength ('\r' :: ' ' :: z) = 1 := rfl
        rw [blank]
        unfold Quote.lineEndLength at within ⊢
        split <;> simp_all
      · rw [Quote.lineEndLength_eq ret, Quote.lineEndLength_eq ret]
    · by_cases ret : c = '\r'
      · subst ret
        by_cases feed : d = '\n'
        · subst feed
          rfl
        · rw [List.cons_append, List.cons_append]
          unfold Quote.lineEndLength
          split <;> split <;> simp_all
      · rw [Quote.lineEndLength_eq ret, Quote.lineEndLength_eq ret]

namespace Quote

theorem settles_rawEscapeLength (marked : isQuoteMark q.mark = true) : Settles q.rawEscapeLength := by
  apply Settles.of_cons
  · intro z
    have noMark : ¬(' ' = q.mark ∨ (' ' : Char) = '\\') := by
      rintro (same | same)
      · rw [← same] at marked
        cases marked
      · cases same
    rw [rawEscapeLength, if_neg noMark]
    rfl
  · intro c w x z within
    rw [rawEscapeLength] at within ⊢
    rw [rawEscapeLength]
    split
    · rename_i escaped
      rw [if_pos escaped] at within
      rw [settles_lineEndLength w x z (by omega)]
    · rename_i other
      rw [if_neg other] at within
      exact settles_lineEndLength (c :: w) x z within

theorem escapeLength_name (u x : List Char) (short : escapeLength ('N' :: '\x7b' :: (u ++ x)) ≤ u.length + 2)
    (open_ : '}' ∉ u) : escapeLength ('N' :: '\x7b' :: (u ++ x)) = 0 ∧ (u ≠ [] → '}' ∉ x) := by
  by_cases closed : '}' ∈ x
  · obtain ⟨name, v, rfl, first⟩ := List.eq_append_cons_of_mem closed
    have first : '}' ∉ u ++ name := by
      rw [List.mem_append, not_or]
      exact ⟨open_, first⟩
    rw [← List.append_assoc, escapeLength_named first] at short ⊢
    by_cases empty : u ++ name = []
    · exact ⟨if_pos empty, fun more => absurd (List.append_eq_nil_iff.mp empty).1 more⟩
    · rw [if_neg empty, List.length_append] at short
      omega
  · refine ⟨escapeLength_open ?_, fun _ => closed⟩
    rw [List.mem_append, not_or]
    exact ⟨open_, closed⟩

theorem escapeLength_return (cs : List Char) : escapeLength ('\r' :: cs) = if cs.head? = some '\n' then 2 else 0 := by
  by_cases feed : cs.head? = some '\n'
  · obtain ⟨ds, rfl⟩ := List.head?_eq_some_iff.mp feed
    rfl
  · rw [if_neg feed]
    unfold escapeLength
    split
    · rename_i same
      obtain ⟨-, rfl⟩ := List.cons.inj same
      exact absurd rfl feed
    · rename_i same
      cases (List.cons.inj same).1
    · rename_i same
      obtain ⟨rfl, -⟩ := List.cons.inj same
      rfl
    · rfl

theorem escapeLength_settled (brace : '}' ∈ z → '}' ∈ x) (within : escapeLength (w ++ x) ≤ w.length)
    (named : w ≠ ['N', '\x7b']) : escapeLength (w ++ ' ' :: z) = escapeLength (w ++ x) := by
  rcases w with _ | ⟨c, w⟩
  · exact (Nat.eq_zero_of_le_zero within).symm
  by_cases ret : c = '\r'
  · subst ret
    rw [List.cons_append, escapeLength_return] at within ⊢
    rw [List.cons_append, escapeLength_return]
    rcases w with _ | ⟨d, w⟩
    · split at within
      · rw [List.length_singleton] at within
        omega
      · rename_i other
        exact (if_neg other).symm
    · rfl
  by_cases letter : c = 'N'
  · subst letter
    rcases w with _ | ⟨d, w⟩
    · have blank : escapeLength ('N' :: ' ' :: z) = 0 := rfl
      rw [List.singleton_append] at within
      rw [List.singleton_append, List.singleton_append, blank]
      by_cases brace : x.head? = some '\x7b'
      · obtain ⟨x, rfl⟩ := List.head?_eq_some_iff.mp brace
        exact (escapeLength_name [] x (Nat.le_succ_of_le within) List.not_mem_nil).1.symm
      · rw [escapeLength_lone ret fun opens => brace opens.2]
        rfl
    · by_cases brace' : d = '\x7b'
      · subst brace'
        have more : w ≠ [] := fun none => named (by rw [none])
        rw [List.cons_append, List.cons_append] at within ⊢
        rw [List.cons_append, List.cons_append]
        by_cases closed : '}' ∈ w
        · obtain ⟨name, v, rfl, first⟩ := List.eq_append_cons_of_mem closed
          rw [List.append_assoc, List.append_assoc, List.cons_append, List.cons_append, escapeLength_named first,
            escapeLength_named first]
        · obtain ⟨zero, none⟩ := escapeLength_name w x within closed
          rw [zero, escapeLength_open]
          simp only [List.mem_append, List.mem_cons, not_or]
          exact ⟨closed, by decide, mt brace (none more)⟩
      · have noBrace (v : List Char) : ¬('N' = 'N' ∧ (d :: w ++ v).head? = some '\x7b') :=
          fun opens => brace' (Option.some.inj opens.2)
        show escapeLength ('N' :: (d :: w ++ ' ' :: z)) = escapeLength ('N' :: (d :: w ++ x))
        rw [escapeLength_lone ret (noBrace _), escapeLength_lone ret (noBrace _)]
  · rw [List.cons_append, List.cons_append, escapeLength_lone ret fun opens => letter opens.1,
      escapeLength_lone ret fun opens => letter opens.1]

theorem le_of_bodyLength {cs : List Char} (body : q.bodyLength? k fresh cs = some n) : k ≤ n := by
  induction k generalizing n cs with
  | zero => exact Nat.zero_le n
  | succ k ih =>
    cases cs with
    | nil => cases body
    | cons c cs =>
      obtain ⟨n, inner, rfl⟩ := Option.map_eq_some_iff.mp body
      exact Nat.succ_le_succ (ih inner)

theorem two_le_of_bodyLength (marked : isQuoteMark q.mark = true) (plain : q.formatted = false)
    (body : q.bodyLength? 0 true ('N' :: '\x7b' :: x) = some n) : 2 ≤ n := by
  have other {c : Char} (noMark : isQuoteMark c = false) : c ≠ q.mark := fun same => by
    rw [← same, noMark] at marked
    cases marked
  have letters : q.bodyLength? 0 true ('N' :: '\x7b' :: x) = ((q.bodyLength? 0 false x).map (· + 1)).map (· + 1) := by
    simp [bodyLength?, plain, other (c := 'N') (by decide), other (c := '\x7b') (by decide)]
  rw [letters] at body
  obtain ⟨m, inner, rfl⟩ := Option.map_eq_some_iff.mp body
  obtain ⟨n, -, rfl⟩ := Option.map_eq_some_iff.mp inner
  exact Nat.le_add_left 2 n

/-- A body without fields that ends in its delimiter before a place does so if a blank stands there. -/
theorem bodyLength?_settled (marked : isQuoteMark q.mark = true) (plain : q.formatted = false)
    (brace : '}' ∈ z → '}' ∈ x) (body : q.bodyLength? k fresh (w ++ x) = some n)
    (within : n + q.closingLength ≤ w.length) : q.bodyLength? k fresh (w ++ ' ' :: z) = some n := by
  have blank : ' ' ≠ q.mark := by
    intro same
    rw [← same] at marked
    cases marked
  have closing := q.closingLength_pos
  induction w generalizing k fresh n with
  | nil =>
    rw [List.length_nil] at within
    omega
  | cons c ds ih =>
    rw [List.length_cons] at within
    have further {k k' : Nat} {fresh : Bool} (body : (q.bodyLength? k fresh (ds ++ x)).map (· + 1) = some n)
        (same : ∀ n, q.bodyLength? k fresh (ds ++ x) = some n → n < ds.length → k' = k) :
        (q.bodyLength? k' fresh (ds ++ ' ' :: z)).map (· + 1) = some n := by
      obtain ⟨n, inner, rfl⟩ := Option.map_eq_some_iff.mp body
      rw [same n inner (by omega), ih inner (by omega)]
      rfl
    cases k with
    | succ k => exact further body fun _ _ _ => rfl
    | zero =>
      rw [List.cons_append, bodyLength?, plain, Bool.false_and, Bool.false_and, if_neg Bool.false_ne_true,
        if_neg Bool.false_ne_true] at body ⊢
      by_cases null : c = '\x00'
      · rw [if_pos null] at body
        cases body
      rw [if_neg null] at body ⊢
      by_cases backslash : c = '\\'
      · rw [if_pos backslash] at body ⊢
        cases raw : q.raw with
        | true =>
          rw [raw, if_pos rfl] at body
          rw [if_pos rfl]
          refine further body fun n inner within => settles_rawEscapeLength marked ds x z ?_
          exact Nat.le_of_lt (Nat.lt_of_le_of_lt (le_of_bodyLength inner) within)
        | false =>
          have head : (ds ++ ' ' :: z).head? = (ds ++ x).head? := by
            cases ds with
            | nil =>
              have zero : n = 0 := by
                rw [List.length_nil] at within
                omega
              rw [raw, if_neg Bool.false_ne_true, zero] at body
              split at body <;>
              · obtain ⟨n, -, none⟩ := Option.map_eq_some_iff.mp body
                cases none
            | cons d ds => rfl
          rw [raw, if_neg Bool.false_ne_true] at body
          rw [if_neg Bool.false_ne_true, head]
          split at body
          · rename_i unknown
            rw [if_pos unknown]
            exact further body fun _ _ _ => rfl
          · rename_i known
            rw [if_neg known]
            refine further body fun n inner within => escapeLength_settled brace ?_ ?_
            · exact Nat.le_of_lt (Nat.lt_of_le_of_lt (le_of_bodyLength inner) within)
            · -- a name that has only been begun takes nothing, and then the body does not end within it
              rintro rfl
              have within : n < 2 := within
              have short : escapeLength ('N' :: '\x7b' :: ([] ++ x)) ≤ 2 :=
                Nat.le_of_lt (Nat.lt_of_le_of_lt (le_of_bodyLength inner) within)
              have inner : q.bodyLength? (escapeLength ('N' :: '\x7b' :: ([] ++ x))) true ('N' :: '\x7b' :: x) = some n := inner
              rw [(escapeLength_name [] x short List.not_mem_nil).1] at inner
              exact absurd within (Nat.not_lt_of_le (two_le_of_bodyLength marked plain inner))
      rw [if_neg backslash] at body ⊢
      by_cases ends : (decide (c = q.mark) && (!q.triple || doubled q.mark (ds ++ x))) = true
      · rw [if_pos ends] at body
        obtain rfl := Option.some.inj body
        have twice (triple : q.triple = true) : doubled q.mark (ds ++ ' ' :: z) = doubled q.mark (ds ++ x) := by
          rw [closingLength, triple, if_pos rfl] at within
          exact doubled_append (fun _ => by omega) blank z
        rw [if_pos]
        cases triple : q.triple with
        | true => rwa [triple, ← twice triple] at ends
        | false => rwa [triple] at ends
      · have ends' : ¬(decide (c = q.mark) && (!q.triple || doubled q.mark (ds ++ ' ' :: z))) = true := by
          simp only [Bool.and_eq_true, decide_eq_true_eq, Bool.or_eq_true, Bool.not_eq_true', not_and, not_or] at ends ⊢
          intro isMark
          obtain ⟨triple, single⟩ := ends isMark
          refine ⟨triple, ?_⟩
          rwa [doubled_append (fun twice => absurd twice single) blank z]
        rw [if_neg ends] at body
        rw [if_neg ends']
        split at body
        · cases body
        · rename_i goesOn
          rw [if_neg goesOn]
          exact further body fun _ _ _ => rfl

end Quote

theorem Quote.opening?_append {q : Quote} {n : Nat} {d : Char} (opened : opening? (w ++ x) = some (q, n))
    (le : n ≤ w.length) (noMark : isQuoteMark d = false) (cs : List Char) :
    opening? (w ++ d :: cs) = some (q, n) := by
  have parts : (w ++ x).takeWhile isStringPrefix ++ (w ++ x).dropWhile isStringPrefix = w ++ x :=
    List.takeWhile_append_dropWhile
  have prefixes : ∀ c ∈ (w ++ x).takeWhile isStringPrefix, isStringPrefix c = true := List.all_eq_true.mp List.all_takeWhile
  have head := List.head?_dropWhile_not isStringPrefix (w ++ x)
  simp only [opening?] at opened
  generalize (w ++ x).takeWhile isStringPrefix = letters at *
  generalize (w ++ x).dropWhile isStringPrefix = rest at *
  rcases rest with _ | ⟨m, rest⟩
  · cases opened
  obtain ⟨isMark, same⟩ := Option.ite_none_right_eq_some.mp opened
  obtain ⟨rfl, rfl⟩ := Prod.mk.inj (Option.some.inj same)
  have begins : letters ++ [m] <+: w := by
    refine List.prefix_of_prefix_length_le ⟨rest, by rw [← parts, List.append_assoc]; rfl⟩ (List.prefix_append w x) ?_
    rw [List.length_append, List.length_singleton]
    split at le <;> omega
  obtain ⟨w', rfl⟩ := begins
  obtain rfl : rest = w' ++ x := by simpa using parts
  have twice : doubled m (w' ++ d :: cs) = doubled m (w' ++ x) ∨ m = '`' := by
    by_cases tick : m = '`'
    · exact .inr tick
    · refine .inl (doubled_append (fun twice => ?_) (fun same => ?_) cs)
      · simp only [twice, bne_iff_ne.mpr tick, Bool.and_self, if_true, List.length_append, List.length_singleton] at le
        omega
      · rw [same, isMark] at noMark
        cases noMark
  have triple : (m != '`' && doubled m (w' ++ d :: cs)) = (m != '`' && doubled m (w' ++ x)) := by
    rcases twice with same | tick
    · rw [same]
    · rw [tick]
      rfl
  have bare : ¬isStringPrefix m = true := by simpa using head
  rw [List.append_assoc, List.append_assoc, List.singleton_append, opening?, List.takeWhile_append_of_pos prefixes,
    List.dropWhile_append_of_pos prefixes, List.takeWhile_cons_of_neg bare, List.dropWhile_cons_of_neg bare, List.append_nil]
  dsimp only
  rw [if_pos isMark, triple]

theorem Token.track_append {t : Token} {quotes : List Quote} {n : Nat} (length : t.length? quotes (w ++ x) = some n)
    (le : n ≤ w.length) {d : Char} (noMark : isQuoteMark d = false) (cs : List Char) :
    t.track (w ++ d :: cs) quotes = t.track (w ++ x) quotes := by
  cases t with
  | openFormatted =>
    rw [length?] at length
    rw [track, track]
    split at length
    · rename_i q k opened
      obtain rfl := Option.some.inj (Option.ite_none_right_eq_some.mp length).2
      rw [Quote.opening?_append opened le noMark]
    · cases length
  | _ => rfl

/-- A literal without fields that ends before a place ends there too if a blank stands at the place. -/
theorem Quote.literalLength?_settled (brace : '}' ∈ z → '}' ∈ x) (length : literalLength? (w ++ x) = some n)
    (le : n ≤ w.length) : literalLength? (w ++ ' ' :: z) = some n := by
  rw [literalLength?] at length
  split at length
  · rename_i q k opened
    obtain ⟨formatted, length⟩ := Option.ite_none_left_eq_some.mp length
    split at length
    · rename_i m body
      obtain rfl := Option.some.inj length
      have opened' := opening?_append (d := ' ') opened (by omega) (by decide) z
      rw [List.drop_append_of_le_length (by omega)] at body
      have body' := bodyLength?_settled (isQuoteMark_of_opening opened) (Bool.eq_false_iff.mpr formatted) brace body (by
        rw [List.length_drop]
        omega)
      simp only [literalLength?, opened', if_neg formatted]
      rw [List.drop_append_of_le_length (by omega), body']
    · cases length
  · cases length

end Footprint.Syntax
