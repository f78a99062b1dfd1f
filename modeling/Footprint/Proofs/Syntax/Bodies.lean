import Footprint.Proofs.Syntax.Inline

/-!
# Bodies of literals

What a backslash takes with it, and how far a body reaches if lines end in returns. Where a line feed may stand in a
literal with single quotes, a return before it may not stand, so there a literal may be read no more. Wherever it is
read, it is read with the same line ends but for the returns.
-/

namespace Footprint.Syntax

open Text

variable {q : Quote} {c m : Char} {cs : List Char} {n : Nat} {fresh : Bool}

theorem ne_of_isQuoteMark (h : isQuoteMark m = true) : m ≠ '\n' ∧ m ≠ '\r' := by
  constructor
  · rintro rfl
    cases h
  · rintro rfl
    cases h

theorem doubled_withReturns (feed : m ≠ '\n') (ret : m ≠ '\r') (cs : List Char) :
    doubled m (withReturns cs) = doubled m cs := by
  rcases cs with _ | ⟨a, cs⟩
  · rfl
  by_cases isFeed : a = '\n'
  · have noFeed : (('\n' : Char) == m) = false := beq_eq_false_iff_ne.mpr (Ne.symm feed)
    have noReturn : (('\r' : Char) == m) = false := beq_eq_false_iff_ne.mpr (Ne.symm ret)
    cases cs <;> simp [isFeed, doubled, noFeed, noReturn]
  rw [withReturns_cons isFeed]
  rcases cs with _ | ⟨b, cs⟩
  · rfl
  by_cases isFeed : b = '\n'
  · have noFeed : (('\n' : Char) == m) = false := beq_eq_false_iff_ne.mpr (Ne.symm feed)
    have noReturn : (('\r' : Char) == m) = false := beq_eq_false_iff_ne.mpr (Ne.symm ret)
    simp [isFeed, doubled, noFeed, noReturn]
  · rw [withReturns_cons isFeed]
    rfl

namespace Quote

theorem lineEndLength_eq (noReturn : c ≠ '\r') (cs : List Char) :
    lineEndLength (c :: cs) = if c = '\n' then 1 else 0 := by
  unfold lineEndLength
  split
  · rename_i same
    exact absurd (List.cons.inj same).1 noReturn
  · rename_i same
    exact absurd (List.cons.inj same).1 noReturn
  · rename_i same
    rw [if_pos (List.cons.inj same).1]
  · rename_i other
    rw [if_neg]
    rintro rfl
    exact other cs rfl

theorem escapeLength_lone (noReturn : c ≠ '\r') (noBrace : ¬(c = 'N' ∧ cs.head? = some '{')) :
    escapeLength (c :: cs) = if c = '\n' ∨ c = '\'' ∨ c = '"' ∨ c = '\\' then 1 else 0 := by
  unfold escapeLength
  split
  · rename_i same
    exact absurd (List.cons.inj same).1 noReturn
  · rename_i same
    obtain ⟨rfl, rfl⟩ := List.cons.inj same
    exact absurd ⟨rfl, rfl⟩ noBrace
  · rename_i same
    rw [(List.cons.inj same).1]
  · rename_i same
    cases same

theorem escapeLength_named {name : List Char} (first : '}' ∉ name) (v : List Char) :
    escapeLength ('N' :: '{' :: (name ++ '}' :: v)) = if name = [] then 0 else name.length + 3 := by
  have run : (name ++ '}' :: v).takeWhile (· != '}') = name := by
    rw [List.takeWhile_append_of_pos]
    · simp
    · intro c mem
      rw [bne_iff_ne]
      rintro rfl
      exact first mem
  have shorter : (name.length == (name ++ '}' :: v).length) = false := by simp
  simp only [escapeLength, run, shorter, Bool.or_false, List.isEmpty_iff]


theorem bodyLength?_mark (marked : isQuoteMark q.mark = true) (closes : q.triple = true → doubled q.mark cs = true) :
    q.bodyLength? 0 fresh (q.mark :: cs) = some 0 := by
  have other {c : Char} (noMark : isQuoteMark c = false) : q.mark ≠ c := fun same => by
    rw [same, noMark] at marked
    cases marked
  have ends : (!q.triple || doubled q.mark cs) = true := by
    cases triple : q.triple with
    | true => simp [closes triple]
    | false => rfl
  simp only [bodyLength?, other (c := '\x00') (by decide), other (c := '\\') (by decide),
    beq_eq_false_iff_ne.mpr (other (c := '\x7b') (by decide)), beq_eq_false_iff_ne.mpr (other (c := '\x7d') (by decide)),
    ends, Bool.and_false, Bool.false_eq_true, if_false, if_true, decide_true, Bool.and_self]

/-! ### Line ends with returns -/

theorem opening?_withReturns (cs : List Char) : opening? (withReturns cs) = opening? cs := by
  rw [opening?, opening?, takeWhile_withReturns (by decide) (by decide), dropWhile_withReturns (by decide) (by decide)]
  rcases cs.dropWhile isStringPrefix with _ | ⟨m, rest⟩
  · rfl
  by_cases feed : m = '\n'
  · subst feed
    rfl
  rw [withReturns_cons feed]
  by_cases quoted : isQuoteMark m = true
  · dsimp only
    rw [doubled_withReturns (ne_of_isQuoteMark quoted).1 (ne_of_isQuoteMark quoted).2]
  · simp only [quoted]
    rfl

theorem lineEndLength_withReturns (noReturn : '\r' ∉ cs) : lineEndLength (withReturns cs) = reach cs (lineEndLength cs) := by
  rcases cs with _ | ⟨c, cs⟩
  · rfl
  rw [List.mem_cons, not_or] at noReturn
  by_cases feed : c = '\n'
  · subst feed
    rfl
  · rw [withReturns_cons feed, lineEndLength_eq (Ne.symm noReturn.1), lineEndLength_eq (Ne.symm noReturn.1), if_neg feed,
      reach_zero]

theorem rawEscapeLength_withReturns (marked : isQuoteMark q.mark = true) (noReturn : '\r' ∉ cs) :
    q.rawEscapeLength (withReturns cs) = reach cs (q.rawEscapeLength cs) := by
  rcases cs with _ | ⟨c, cs⟩
  · rfl
  by_cases feed : c = '\n'
  · subst feed
    obtain ⟨noFeed, noReturn⟩ := ne_of_isQuoteMark marked
    rw [withReturns_newline, rawEscapeLength, rawEscapeLength, if_neg (by simp [Ne.symm noReturn]),
      if_neg (by simp [Ne.symm noFeed])]
    rfl
  · have ends := lineEndLength_withReturns noReturn
    rw [List.mem_cons, not_or] at noReturn
    rw [withReturns_cons feed] at ends ⊢
    rw [rawEscapeLength, rawEscapeLength, lineEndLength_withReturns noReturn.2, ends]
    split
    · rw [Nat.add_comm, Nat.add_comm 1, reach_cons feed]
    · rfl

theorem escapeLength_open {ds : List Char} (open_ : '}' ∉ ds) : escapeLength ('N' :: '{' :: ds) = 0 := by
  have run : ds.takeWhile (· != '}') = ds := by
    have all : ∀ c ∈ ds, (c != '}') = true := fun c mem => by
      rw [bne_iff_ne]
      rintro rfl
      exact open_ mem
    rw [← List.append_nil ds, List.takeWhile_append_of_pos all, List.takeWhile_nil]
  simp only [escapeLength, run, beq_self_eq_true, Bool.or_true, if_true]

theorem escapeLength_withReturns (noReturn : '\r' ∉ cs) : escapeLength (withReturns cs) = reach cs (escapeLength cs) := by
  rcases cs with _ | ⟨c, cs⟩
  · rfl
  rw [List.mem_cons, not_or] at noReturn
  by_cases feed : c = '\n'
  · subst feed
    rfl
  rw [withReturns_cons feed]
  by_cases named : c = 'N' ∧ cs.head? = some '{'
  · obtain ⟨rfl, head⟩ := named
    obtain ⟨ds, rfl⟩ := List.head?_eq_some_iff.mp head
    rw [withReturns_cons (by decide)]
    by_cases closed : '}' ∈ ds
    · obtain ⟨name, v, rfl, first⟩ := List.eq_append_cons_of_mem closed
      have first' : '}' ∉ withReturns name := by rwa [mem_withReturns_iff (by decide) (by decide)]
      rw [withReturns_append, withReturns_cons (by decide), escapeLength_named first, escapeLength_named first']
      by_cases empty : name = []
      · rw [empty]
        rfl
      · have empty' : withReturns name ≠ [] := fun none => by
          have longer := length_le_withReturns name
          rw [none] at longer
          exact empty (List.length_eq_zero_iff.mp (Nat.le_zero.mp longer))
        rw [if_neg empty, if_neg empty', Nat.add_comm, reach_cons (by decide), reach_cons (by decide), reach_append,
          reach_cons (by decide), reach_zero]
        omega
    · have open_ : '}' ∉ withReturns ds := by rwa [mem_withReturns_iff (by decide) (by decide)]
      rw [escapeLength_open closed, escapeLength_open open_, reach_zero]
  · have named' : ¬(c = 'N' ∧ (withReturns cs).head? = some '{') := by
      rwa [head?_withReturns_eq (by decide) (by decide)]
    rw [escapeLength_lone (Ne.symm noReturn.1) named, escapeLength_lone (Ne.symm noReturn.1) named']
    split
    · rw [reach_cons feed, reach_zero]
    · rfl

variable (q) in
/-- How far a body reaches if lines end in returns: as far as without, or nowhere, if the quotes are single. -/
def Reaches (cs : List Char) (old new : Option Nat) : Prop := new = old.map (reach cs) ∨ q.triple = false ∧ new = none

namespace Reaches

variable {old new : Option Nat}

theorem cons (feed : c ≠ '\n') (h : q.Reaches cs old new) : q.Reaches (c :: cs) (old.map (· + 1)) (new.map (· + 1)) := by
  rcases h with rfl | ⟨single, rfl⟩
  · left
    cases old with
    | none => rfl
    | some n => exact congrArg some (reach_cons feed cs n).symm
  · exact .inr ⟨single, rfl⟩

theorem feed (h : q.Reaches cs old new) :
    q.Reaches ('\n' :: cs) (old.map (· + 1)) ((new.map (· + 1)).map (· + 1)) := by
  rcases h with rfl | ⟨single, rfl⟩
  · left
    cases old with
    | none => rfl
    | some n => exact congrArg some (reach_newline cs n).symm
  · exact .inr ⟨single, rfl⟩

theorem none : q.Reaches cs .none .none := .inl rfl

theorem zero : q.Reaches cs (some 0) (some 0) := .inl (congrArg some (reach_zero cs).symm)

end Reaches

theorem bodyLength?_feed (marked : isQuoteMark q.mark = true) (cs : List Char) :
    q.bodyLength? 0 fresh ('\n' :: cs) = if q.triple || fresh then (q.bodyLength? 0 false cs).map (· + 1) else none := by
  have other := Ne.symm (ne_of_isQuoteMark marked).1
  rw [bodyLength?]
  cases q.triple <;> cases fresh <;> simp [other]

theorem bodyLength?_return (marked : isQuoteMark q.mark = true) (cs : List Char) :
    q.bodyLength? 0 fresh ('\r' :: cs) = (q.bodyLength? 0 false cs).map (· + 1) := by
  have other := Ne.symm (ne_of_isQuoteMark marked).2
  rw [bodyLength?]
  simp [other]

/-- An unknown escape of a bytes literal takes two characters, also where the second is a return. -/
theorem reaches_two {old : Option Nat} (marked : isQuoteMark q.mark = true) (head : ∃ c ds, cs = c :: ds ∧ c ≠ '\n')
    (h : q.Reaches cs old (q.bodyLength? (reach cs 2) false (withReturns cs))) :
    q.Reaches cs old (q.bodyLength? 2 false (withReturns cs)) := by
  obtain ⟨c, ds, rfl, other⟩ := head
  rw [withReturns_cons other] at h ⊢
  rw [reach_cons other] at h
  rcases ds with _ | ⟨d, es⟩
  · exact h
  by_cases feed : d = '\n'
  · subst feed
    rw [reach_newline, reach_zero] at h
    have skipped : q.bodyLength? 2 false (c :: withReturns ('\n' :: es)) =
        ((q.bodyLength? 0 false ('\n' :: withReturns es)).map (· + 1)).map (· + 1) := rfl
    rw [skipped, bodyLength?_feed marked]
    cases triple : q.triple with
    | true => exact h
    | false => exact .inr ⟨triple, rfl⟩
  · rwa [reach_cons feed, reach_zero] at h

theorem bodyLength?_withReturns (marked : isQuoteMark q.mark = true) (noReturn : '\r' ∉ cs) (skip : Nat) (fresh : Bool) :
    q.Reaches cs (q.bodyLength? skip fresh cs) (q.bodyLength? (reach cs skip) fresh (withReturns cs)) := by
  induction cs generalizing skip fresh with
  | nil => cases skip <;> exact .none
  | cons c cs ih =>
    rw [List.mem_cons, not_or] at noReturn
    have rest := ih noReturn.2
    cases skip with
    | succ n =>
      by_cases feed : c = '\n'
      · subst feed
        exact (rest n fresh).feed
      · rw [withReturns_cons feed, reach_cons feed]
        exact (rest n fresh).cons feed
    | zero =>
      rw [reach_zero]
      by_cases feed : c = '\n'
      · subst feed
        have rest := (rest 0 false).feed
        rw [reach_zero] at rest
        rw [withReturns_newline, bodyLength?_feed marked, bodyLength?_return marked, bodyLength?_feed marked]
        cases triple : q.triple with
        | true => exact rest
        | false => exact .inr ⟨triple, rfl⟩
      · have further {skip : Nat} {fresh : Bool} {n : Nat} (same : n = reach cs skip) :
            q.Reaches (c :: cs) ((q.bodyLength? skip fresh cs).map (· + 1))
              ((q.bodyLength? n fresh (withReturns cs)).map (· + 1)) := by
          rw [same]
          exact (rest skip fresh).cons feed
        have one {d : Char} (other : d ≠ '\n') (head : cs.head? = some d) : 1 = reach cs 1 := by
          obtain ⟨ds, rfl⟩ := List.head?_eq_some_iff.mp head
          rw [reach_cons other, reach_zero]
        have heads {d : Char} (feed : d ≠ '\n') (ret : d ≠ '\r') := head?_withReturns_eq feed ret cs
        obtain ⟨markFeed, markReturn⟩ := ne_of_isQuoteMark marked
        rw [withReturns_cons feed, bodyLength?, bodyLength?, doubled_withReturns markFeed markReturn]
        by_cases null : c = '\x00'
        · rw [if_pos null, if_pos null]
          exact .none
        rw [if_neg null, if_neg null]
        by_cases opens : (q.formatted && c == '{') = true
        · rw [if_pos opens, if_pos opens]
          by_cases twice : cs.head? = some '{'
          · rw [if_pos twice, if_pos ((heads (by decide) (by decide)).mpr twice)]
            exact further (one (by decide) twice)
          · rw [if_neg twice, if_neg (mt (heads (by decide) (by decide)).mp twice)]
            exact .zero
        rw [if_neg opens, if_neg opens]
        by_cases closes : (q.formatted && c == '}') = true
        · rw [if_pos closes, if_pos closes]
          by_cases twice : cs.head? = some '}'
          · rw [if_pos twice, if_pos ((heads (by decide) (by decide)).mpr twice)]
            exact further (one (by decide) twice)
          · rw [if_neg twice, if_neg (mt (heads (by decide) (by decide)).mp twice)]
            exact .none
        rw [if_neg closes, if_neg closes]
        by_cases backslash : c = '\\'
        · rw [if_pos backslash, if_pos backslash]
          cases q.raw with
          | true => exact further (rawEscapeLength_withReturns marked noReturn.2)
          | false =>
            have same {d : Char} (feed : d ≠ '\n') (ret : d ≠ '\r') :
                ((withReturns cs).head? == some d) = (cs.head? == some d) := by
              rw [Bool.eq_iff_iff, beq_iff_eq, beq_iff_eq, heads feed ret]
            rw [if_neg Bool.false_ne_true, if_neg Bool.false_ne_true, same (by decide) (by decide),
              same (by decide) (by decide), same (by decide) (by decide)]
            by_cases unknown : (q.bytes && (cs.head? == some 'N' || cs.head? == some 'u' || cs.head? == some 'U')) = true
            · rw [if_pos unknown, if_pos unknown]
              refine (reaches_two marked ?_ (rest 2 false)).cons feed
              simp only [Bool.and_eq_true, Bool.or_eq_true, beq_iff_eq, List.head?_eq_some_iff] at unknown
              obtain ⟨-, (⟨ds, head⟩ | ⟨ds, head⟩) | ⟨ds, head⟩⟩ := unknown
              all_goals exact ⟨_, ds, head, by decide⟩
            · rw [if_neg unknown, if_neg unknown]
              exact further (escapeLength_withReturns noReturn.2)
        rw [if_neg backslash, if_neg backslash]
        split
        · exact .zero
        · rw [if_neg (by simp [feed]), if_neg (by simp [feed])]
          exact further (reach_zero cs).symm

end Quote

end Footprint.Syntax
