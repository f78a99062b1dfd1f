import Footprint.Proofs.Syntax.Consumption
import Footprint.Proofs.Text.Returns

/-!
# Tokens in one line

All tokens but literals and the text of formatted strings end before a line does, and so reach as far if there is a
return before each line feed.
-/

namespace Footprint.Syntax

open Text

variable {c : Char} {cs m : List Char} {n k : Nat} {p : Char → Bool}

/-- The text has this many characters before a line feed. -/
structure InLine (cs : List Char) (n : Nat) : Prop where
  le : n ≤ cs.length
  free : '\n' ∉ cs.take n

namespace InLine

theorem zero : InLine cs 0 := ⟨Nat.zero_le _, by simp⟩

theorem cons (other : c ≠ '\n') (h : InLine cs n) : InLine (c :: cs) (n + 1) := by
  refine ⟨Nat.succ_le_succ h.le, ?_⟩
  rw [List.take_succ_cons, List.mem_cons, not_or]
  exact ⟨Ne.symm other, h.free⟩

theorem add (h : InLine cs n) (h' : InLine (cs.drop n) k) : InLine cs (n + k) := by
  refine ⟨?_, ?_⟩
  · have := h'.le
    rw [List.length_drop] at this
    have := h.le
    omega
  · rw [List.take_add, List.mem_append, not_or]
    exact ⟨h.free, h'.free⟩

theorem reach_eq (h : InLine cs n) : reach cs n = n := reach_eq_self h.le h.free

theorem take_eq (h : InLine cs n) : (withReturns cs).take n = cs.take n := by
  conv => lhs; rw [← h.reach_eq]
  rw [take_reach, withReturns_eq_self h.free]

theorem drop_eq (h : InLine cs n) : (withReturns cs).drop n = withReturns (cs.drop n) := by
  conv => lhs; rw [← h.reach_eq]
  exact drop_reach cs n

end InLine

/-- A count of characters that ends before a line does, whether or not there are returns. -/
structure CountsInline (f : List Char → Nat) : Prop where
  same (cs : List Char) : f (withReturns cs) = f cs
  inLine (cs : List Char) : InLine cs (f cs)

namespace CountsInline

variable {f g : List Char → Nat}

theorem drop_same (h : CountsInline f) (passed : InLine cs n) : f ((withReturns cs).drop n) = f (cs.drop n) := by
  rw [passed.drop_eq, h.same]

theorem inLine_add (h : CountsInline f) (passed : InLine cs n) : InLine cs (n + f (cs.drop n)) := passed.add (h.inLine _)

/-- To show that a count is one in line, take texts apart before their first line feed. -/
theorem of_cases (nil : f [] = 0) (feed : ∀ cs, f ('\n' :: cs) = 0) (ret : ∀ cs, f ('\r' :: '\n' :: cs) = 0)
    (cons : ∀ c cs, c ≠ '\n' → f (c :: withReturns cs) = f (c :: cs) ∧ InLine (c :: cs) (f (c :: cs))) : CountsInline f := by
  have both (cs : List Char) : f (withReturns cs) = f cs ∧ InLine cs (f cs) := by
    cases cs with
    | nil => exact ⟨rfl, by rw [nil]; exact .zero⟩
    | cons c cs =>
      by_cases isFeed : c = '\n'
      · rw [isFeed, withReturns_newline, feed, ret]
        exact ⟨rfl, .zero⟩
      · rw [withReturns_cons isFeed]
        exact cons c cs isFeed
  exact ⟨fun cs => (both cs).1, fun cs => (both cs).2⟩

theorem nonempty_eq (h : CountsInline f) (cs : List Char) :
    nonempty (f (withReturns cs)) = (nonempty (f cs)).map (reach cs) := by
  rw [h.same]
  cases count : f cs with
  | zero => rfl
  | succ n =>
    have inLine := h.inLine cs
    rw [count] at inLine
    exact congrArg some inLine.reach_eq.symm

theorem takeWhile (feed : p '\n' = false) (ret : p '\r' = false) : CountsInline fun cs => (cs.takeWhile p).length := by
  refine ⟨fun cs => by rw [takeWhile_withReturns feed ret], fun cs => ⟨(List.takeWhile_prefix p).length_le, ?_⟩⟩
  rw [List.prefix_iff_eq_take.mp (List.takeWhile_prefix p) |>.symm]
  intro mem
  rw [List.all_eq_true.mp List.all_takeWhile _ mem] at feed
  cases feed

end CountsInline

theorem countsInline_wordLength : CountsInline wordLength := by
  refine .of_cases rfl (fun _ => rfl) (fun _ => rfl) fun c cs other => ?_
  have rest : CountsInline fun cs => (cs.takeWhile isIdentifierRest).length := .takeWhile (by decide) (by decide)
  rw [wordLength, wordLength, rest.same cs]
  refine ⟨rfl, ?_⟩
  split
  · rw [Nat.add_comm]
    exact (rest.inLine cs).cons other
  · exact .zero

namespace Number

theorem countsInline_digitsAfter (was : Bool) : CountsInline (digitsAfter was) := by
  have both (cs : List Char) : ∀ was, digitsAfter was (withReturns cs) = digitsAfter was cs ∧ InLine cs (digitsAfter was cs) := by
    induction cs with
    | nil => exact fun _ => ⟨rfl, .zero⟩
    | cons c cs ih =>
      intro was
      by_cases feed : c = '\n'
      · subst feed
        exact ⟨rfl, .zero⟩
      · rw [withReturns_cons feed, digitsAfter, digitsAfter, (ih true).1, (ih false).1]
        refine ⟨rfl, ?_⟩
        split
        · rw [Nat.add_comm]
          exact (ih true).2.cons feed
        · split
          · rw [Nat.add_comm]
            exact (ih false).2.cons feed
          · exact .zero
  exact ⟨fun cs => (both cs was).1, fun cs => (both cs was).2⟩

theorem countsInline_suffix (feed : p '\n' = false) (ret : p '\r' = false) : CountsInline (suffix p) := by
  refine .of_cases rfl (fun _ => by simp [suffix, feed]) (fun _ => by simp [suffix, ret]) fun c cs other => ⟨rfl, ?_⟩
  rw [suffix]
  split
  · exact InLine.zero.cons other
  · exact .zero

/-- Groups of digits are taken apart as the count goes: a low line with the digit behind it, or a digit alone. -/
theorem countsInline_groups (feed : p '\n' = false) (ret : p '\r' = false) : CountsInline (groups p) := by
  have other {c : Char} (ok : p c = true) : c ≠ '\n' := by
    rintro rfl
    rw [feed] at ok
    cases ok
  have both (cs : List Char) : groups p (withReturns cs) = groups p cs ∧ InLine cs (groups p cs) := by
    fun_induction groups p cs with
    | case1 => exact ⟨rfl, .zero⟩
    | case2 c cs ok ih =>
      rw [withReturns_cons (by decide), withReturns_cons (other ok), groups, if_pos ok, ih.1, Nat.add_comm]
      exact ⟨rfl, (ih.2.cons (other ok)).cons (by decide)⟩
    | case3 c cs ok =>
      refine ⟨?_, .zero⟩
      rw [withReturns_cons (by decide)]
      by_cases isFeed : c = '\n'
      · rw [isFeed, withReturns_newline, groups, if_neg (by simp [ret])]
      · rw [withReturns_cons isFeed, groups, if_neg ok]
    | case4 c cs alone ok ih =>
      have alone' : ∀ d ds, c = '_' → withReturns cs ≠ d :: ds := by
        rintro d ds rfl same
        cases cs with
        | nil => cases same
        | cons d ds => exact alone d ds rfl rfl
      rw [withReturns_cons (other ok), groups.eq_3 _ _ _ alone', if_pos ok, ih.1, Nat.add_comm]
      exact ⟨rfl, ih.2.cons (other ok)⟩
    | case5 c cs alone ok =>
      refine ⟨?_, .zero⟩
      by_cases isFeed : c = '\n'
      · rw [isFeed, withReturns_newline, groups.eq_3 _ _ _ (by rintro _ _ ⟨⟩), if_neg (by simp [ret])]
      · have alone' : ∀ d ds, c = '_' → withReturns cs ≠ d :: ds := by
          rintro d ds rfl same
          cases cs with
          | nil => cases same
          | cons d ds => exact alone d ds rfl rfl
        rw [withReturns_cons isFeed, groups.eq_3 _ _ _ alone', if_neg ok]
  exact ⟨fun cs => (both cs).1, fun cs => (both cs).2⟩

def signLength : List Char → Nat := suffix fun c => c == '+' || c == '-'

theorem countsInline_signLength : CountsInline signLength := countsInline_suffix (by decide) (by decide)

theorem exponent_cons (e : Char) (cs : List Char) :
    exponent (e :: cs) =
      if e = 'e' ∨ e = 'E' then
        if digits (cs.drop (signLength cs)) = 0 then 0 else signLength cs + digits (cs.drop (signLength cs)) + 1
      else 0 := by
  rw [exponent.eq_def]
  cases cs with
  | nil => simp [digits, digitsAfter]
  | cons c cs =>
    have sign : signLength (c :: cs) = if c = '+' ∨ c = '-' then 1 else 0 := by simp [signLength, suffix]
    dsimp only
    rw [← sign]
    split
    · split
      · rename_i none
        rw [if_pos none]
      · rename_i some
        rw [if_neg some]
        omega
    · rfl

theorem countsInline_exponent : CountsInline exponent := by
  refine .of_cases rfl (fun _ => rfl) (fun _ => rfl) fun c cs other => ?_
  have sign := countsInline_signLength
  have number := countsInline_digitsAfter false
  rw [exponent_cons, exponent_cons, sign.same, digits, digits, number.drop_same (sign.inLine cs)]
  refine ⟨rfl, ?_⟩
  split
  · split
    · exact .zero
    · exact (number.inLine_add (sign.inLine cs)).cons other
  · exact .zero

theorem based_cons {a b : Char} (cs : List Char) :
    based p (a :: b :: cs) = if groups p cs = 0 then 0 else groups p cs + suffix isLong (cs.drop (groups p cs)) + 2 := by
  rw [based, List.drop_succ_cons, List.drop_succ_cons, List.drop_zero]
  split
  · rename_i none
    rw [if_pos none]
  · rename_i some
    rw [if_neg some, Nat.add_comm 2, List.drop_succ_cons, List.drop_succ_cons]
    omega

theorem based_withReturns (feed : p '\n' = false) (ret : p '\r' = false) {b : Char} (letter : b ≠ '\n') (cs : List Char) :
    based p ('0' :: b :: withReturns cs) = based p ('0' :: b :: cs) ∧ InLine ('0' :: b :: cs) (based p ('0' :: b :: cs)) := by
  have number := countsInline_groups feed ret
  have ends : CountsInline (suffix isLong) := countsInline_suffix (by decide) (by decide)
  rw [based_cons, based_cons, number.same, ends.drop_same (number.inLine cs)]
  refine ⟨rfl, ?_⟩
  split
  · exact .zero
  · exact ((ends.inLine_add (number.inLine cs)).cons letter).cons (by decide)

theorem decimal_point {ds : List Char} (point : cs.drop (digits cs) = '.' :: ds) :
    decimal cs =
      if digits cs = 0 ∧ digits ds = 0 then 0
      else
        let n := digits cs + 1 + digits ds
        let m := n + exponent (cs.drop n)
        m + suffix isImaginary (cs.drop m) := by
  rw [decimal]
  simp only [point, Bool.and_eq_true, decide_eq_true_eq]

theorem decimal_whole (noPoint : (cs.drop (digits cs)).head? ≠ some '.') :
    decimal cs =
      if digits cs = 0 then 0
      else if exponent (cs.drop (digits cs)) = 0 then
        digits cs + suffix (fun c => isLong c || isImaginary c) (cs.drop (digits cs))
      else
        let n := digits cs + exponent (cs.drop (digits cs))
        n + suffix isImaginary (cs.drop n) := by
  rw [decimal]
  dsimp only
  split
  · rename_i point
    rw [point] at noPoint
    exact absurd rfl noPoint
  · split
    · rfl
    · split
      · rename_i none
        rw [if_pos none]
      · rename_i some
        rw [if_neg some]

theorem countsInline_decimal : CountsInline decimal := by
  have power := countsInline_exponent
  have imaginary : CountsInline (suffix isImaginary) := countsInline_suffix (by decide) (by decide)
  have either : CountsInline (suffix fun c => isLong c || isImaginary c) := countsInline_suffix (by decide) (by decide)
  have both (cs : List Char) : decimal (withReturns cs) = decimal cs ∧ InLine cs (decimal cs) := by
    have whole : InLine cs (digits cs) := (countsInline_digitsAfter false).inLine cs
    have same : digits (withReturns cs) = digits cs := (countsInline_digitsAfter false).same cs
    by_cases point : ∃ ds, cs.drop (digits cs) = '.' :: ds
    · obtain ⟨ds, point⟩ := point
      have point' : (withReturns cs).drop (digits (withReturns cs)) = '.' :: withReturns ds := by
        rw [same, whole.drop_eq, point, withReturns_cons (by decide)]
      have fraction : InLine cs (digits cs + 1 + digits ds) := by
        rw [Nat.add_assoc, Nat.add_comm 1]
        refine whole.add ?_
        rw [point]
        exact ((countsInline_digitsAfter false).inLine ds).cons (by decide)
      have sameFraction : digits (withReturns ds) = digits ds := (countsInline_digitsAfter false).same ds
      have upToPower := power.inLine_add fraction
      rw [decimal_point point, decimal_point point', same, sameFraction]
      dsimp only
      rw [power.drop_same fraction, imaginary.drop_same upToPower]
      refine ⟨rfl, ?_⟩
      split
      · exact .zero
      · exact imaginary.inLine_add upToPower
    · have noPoint : (cs.drop (digits cs)).head? ≠ some '.' := by
        intro head
        obtain ⟨ds, point'⟩ := List.head?_eq_some_iff.mp head
        exact point ⟨ds, point'⟩
      have noPoint' : ((withReturns cs).drop (digits (withReturns cs))).head? ≠ some '.' := by
        rw [same, whole.drop_eq]
        exact fun head => noPoint ((head?_withReturns_eq (by decide) (by decide) _).mp head)
      have upToPower := power.inLine_add whole
      rw [decimal_whole noPoint, decimal_whole noPoint', same, power.drop_same whole, either.drop_same whole]
      dsimp only
      rw [imaginary.drop_same upToPower]
      refine ⟨rfl, ?_⟩
      split
      · exact .zero
      · split
        · exact either.inLine_add whole
        · exact imaginary.inLine_add upToPower
  exact ⟨fun cs => (both cs).1, fun cs => (both cs).2⟩

def inBase (cs : List Char) : Nat :=
  match cs with
  | '0' :: b :: _ =>
    if b = 'x' ∨ b = 'X' then based isHex cs
    else if b = 'o' ∨ b = 'O' then based isOctal cs
    else if b = 'b' ∨ b = 'B' then based isBinary cs
    else 0
  | _ => 0

theorem length_eq_inBase (cs : List Char) : length cs = if inBase cs = 0 then decimal cs else inBase cs := rfl

theorem inBase_cons (other : c ≠ '0') (cs : List Char) : inBase (c :: cs) = 0 := by
  unfold inBase
  split
  · rename_i same
    exact absurd (List.cons.inj same).1 other
  · rfl

theorem countsInline_inBase : CountsInline inBase := by
  refine .of_cases rfl (fun _ => rfl) (fun _ => rfl) fun c cs other => ?_
  by_cases zero : c = '0'
  · subst zero
    rcases cs with _ | ⟨b, ds⟩
    · exact ⟨rfl, .zero⟩
    by_cases feed : b = '\n'
    · subst feed
      exact ⟨rfl, .zero⟩
    have hex := based_withReturns (p := isHex) (by decide) (by decide) feed ds
    have octal := based_withReturns (p := isOctal) (by decide) (by decide) feed ds
    have binary := based_withReturns (p := isBinary) (by decide) (by decide) feed ds
    rw [withReturns_cons feed, inBase, inBase, hex.1, octal.1, binary.1]
    refine ⟨rfl, ?_⟩
    repeat' split
    · exact hex.2
    · exact octal.2
    · exact binary.2
    · exact .zero
  · rw [inBase_cons zero, inBase_cons zero]
    exact ⟨rfl, .zero⟩

theorem countsInline_length : CountsInline length := by
  have both (cs : List Char) : length (withReturns cs) = length cs ∧ InLine cs (length cs) := by
    rw [length_eq_inBase, length_eq_inBase, countsInline_inBase.same, countsInline_decimal.same]
    refine ⟨rfl, ?_⟩
    split
    · exact countsInline_decimal.inLine cs
    · exact countsInline_inBase.inLine cs
  exact ⟨fun cs => (both cs).1, fun cs => (both cs).2⟩

end Number

/-! ### Tokens -/

theorem isPrefixOf_withReturns (inline : ∀ c ∈ m, c ≠ '\n' ∧ c ≠ '\r') (cs : List Char) :
    m.isPrefixOf (withReturns cs) = m.isPrefixOf cs := by
  induction m generalizing cs with
  | nil => rfl
  | cons c m ih =>
    rw [List.forall_mem_cons] at inline
    obtain ⟨⟨feed, ret⟩, inline⟩ := inline
    cases cs with
    | nil => rfl
    | cons d ds =>
      by_cases isFeed : d = '\n'
      · rw [isFeed, withReturns_newline, List.isPrefixOf, List.isPrefixOf, beq_eq_false_iff_ne.mpr feed,
          beq_eq_false_iff_ne.mpr ret]
        rfl
      · rw [withReturns_cons isFeed, List.isPrefixOf, List.isPrefixOf, ih inline]

theorem inLine_of_isHead (inline : '\n' ∉ m) (isHead : m <+: cs) : InLine cs m.length :=
  ⟨isHead.length_le, by rwa [← List.prefix_iff_eq_take.mp isHead]⟩

theorem longMarks_inline : ∀ l ∈ longMarks, ∀ c ∈ l, c ≠ '\n' ∧ c ≠ '\r' := by decide

namespace Token

variable {quotes : List Quote}

theorem length?_mark_withReturns (inline : ∀ c ∈ m, c ≠ '\n' ∧ c ≠ '\r') (cs : List Char) :
    (mark m).length? quotes (withReturns cs) = ((mark m).length? quotes cs).map (reach cs) := by
  have longer : longMarks.all (fun l => l.length ≤ m.length || !l.isPrefixOf (withReturns cs)) =
      longMarks.all fun l => l.length ≤ m.length || !l.isPrefixOf cs := by
    rw [Bool.eq_iff_iff, List.all_eq_true, List.all_eq_true]
    refine forall₂_congr fun l mem => ?_
    rw [isPrefixOf_withReturns (longMarks_inline l mem)]
  rw [length?, length?, isPrefixOf_withReturns inline, longer]
  split
  · rename_i isHead
    rw [Bool.and_eq_true, List.isPrefixOf_iff_prefix] at isHead
    exact congrArg some (inLine_of_isHead (fun mem => (inline _ mem).1 rfl) isHead.1).reach_eq.symm
  · rfl

theorem length?_keyword_withReturns (w cs : List Char) :
    (keyword w).length? quotes (withReturns cs) = ((keyword w).length? quotes cs).map (reach cs) := by
  have word := countsInline_wordLength.inLine cs
  rw [length?, length?, countsInline_wordLength.same, word.take_eq]
  split
  · rename_i same
    have length : w.length = wordLength cs := by rw [← same, List.length_take, Nat.min_eq_left word.le]
    rw [length]
    have nonempty := countsInline_wordLength.nonempty_eq cs
    rwa [countsInline_wordLength.same] at nonempty
  · rfl

theorem length?_name_withReturns (except : List (List Char)) (cs : List Char) :
    (name except).length? quotes (withReturns cs) = ((name except).length? quotes cs).map (reach cs) := by
  have word := countsInline_wordLength.inLine cs
  rw [length?, length?, countsInline_wordLength.same, word.take_eq]
  split
  · rfl
  · exact congrArg some word.reach_eq.symm

theorem take_name_withReturns {except : List (List Char)} (length : (name except).length? quotes cs = some n)
    (length' : (name except).length? quotes (withReturns cs) = some k) : (withReturns cs).take k = cs.take n := by
  rw [length?_name_withReturns, length] at length'
  obtain rfl := Option.some.inj length'
  rw [length?] at length
  obtain ⟨-, same⟩ := Option.ite_none_left_eq_some.mp length
  obtain rfl := Option.some.inj same
  have word := countsInline_wordLength.inLine cs
  rw [word.reach_eq, word.take_eq]

theorem length?_number_withReturns (cs : List Char) :
    number.length? quotes (withReturns cs) = (number.length? quotes cs).map (reach cs) :=
  Number.countsInline_length.nonempty_eq cs

theorem length?_conversion_cons (c : Char) (cs : List Char) :
    conversion.length? quotes (c :: cs) =
      if c = '!' ∧ cs.head?.any (fun d => 'a' ≤ d && d ≤ 'z') then some 2 else none := by
  rw [length?.eq_def]
  dsimp only
  split
  · rename_i same
    obtain ⟨rfl, rfl⟩ := List.cons.inj same
    simp
  · rename_i other
    rw [if_neg]
    rintro ⟨rfl, lower⟩
    obtain ⟨d, head, -⟩ := (Option.any_eq_true _ _).mp lower
    obtain ⟨ds, rfl⟩ := List.head?_eq_some_iff.mp head
    exact other d ds rfl

theorem length?_conversion_withReturns (cs : List Char) :
    conversion.length? quotes (withReturns cs) = (conversion.length? quotes cs).map (reach cs) := by
  rcases cs with _ | ⟨c, cs⟩
  · rfl
  by_cases feed : c = '\n'
  · subst feed
    rfl
  have heads : (withReturns cs).head?.any (fun d => 'a' ≤ d && d ≤ 'z') = cs.head?.any (fun d => 'a' ≤ d && d ≤ 'z') := by
    rcases cs with _ | ⟨d, ds⟩
    · rfl
    by_cases isFeed : d = '\n'
    · subst isFeed
      rfl
    · rw [withReturns_cons isFeed]
      rfl
  rw [withReturns_cons feed, length?_conversion_cons, length?_conversion_cons, heads]
  split
  · rename_i letter
    obtain ⟨d, head, lower⟩ := (Option.any_eq_true _ _).mp letter.2
    obtain ⟨ds, rfl⟩ := List.head?_eq_some_iff.mp head
    have isFeed : d ≠ '\n' := by
      rintro rfl
      exact absurd lower (by decide)
    rw [Option.map_some, reach_cons feed, reach_cons isFeed, reach_zero]
  · rfl

theorem length?_colon_withReturns (cs : List Char) :
    colon.length? quotes (withReturns cs) = (colon.length? quotes cs).map (reach cs) := by
  simp only [length?, head?_withReturns_eq (show ':' ≠ '\n' by decide) (show ':' ≠ '\r' by decide)]
  split
  · rename_i head
    obtain ⟨ds, rfl⟩ := List.head?_eq_some_iff.mp head
    rw [Option.map_some, reach_cons (by decide), reach_zero]
  · rfl

end Token

end Footprint.Syntax
