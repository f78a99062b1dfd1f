import Footprint.Text.Digits

/-!
# Line ends with returns

A text whose lines end in a carriage return and a line feed, made of one whose lines end in a line feed.
-/

namespace Footprint.Text

def withReturns (text : List Char) : List Char := text.flatMap fun c => if c = '\n' then ['\r', '\n'] else [c]

variable {c : Char} {cs ds u : List Char} {n : Nat} {p : Char → Bool}

@[simp] theorem withReturns_nil : withReturns [] = [] := rfl

@[simp] theorem withReturns_newline (cs : List Char) : withReturns ('\n' :: cs) = '\r' :: '\n' :: withReturns cs := rfl

theorem withReturns_cons (other : c ≠ '\n') (cs : List Char) : withReturns (c :: cs) = c :: withReturns cs := by
  simp [withReturns, other]

theorem withReturns_append (cs ds : List Char) : withReturns (cs ++ ds) = withReturns cs ++ withReturns ds :=
  List.flatMap_append

theorem withReturns_eq_self (h : '\n' ∉ cs) : withReturns cs = cs := by
  induction cs with
  | nil => rfl
  | cons c cs ih =>
    rw [List.mem_cons, not_or] at h
    rw [withReturns_cons (Ne.symm h.1), ih h.2]

theorem mem_withReturns_iff (feed : c ≠ '\n') (ret : c ≠ '\r') : c ∈ withReturns cs ↔ c ∈ cs := by
  induction cs with
  | nil => rfl
  | cons d cs ih =>
    by_cases isFeed : d = '\n'
    · simp [isFeed, ih, feed, ret]
    · rw [withReturns_cons isFeed, List.mem_cons, List.mem_cons, ih]

theorem head?_withReturns (cs : List Char) :
    (withReturns cs).head? = cs.head?.map fun c => if c = '\n' then '\r' else c := by
  cases cs with
  | nil => rfl
  | cons c cs =>
    by_cases h : c = '\n'
    · rw [h]
      rfl
    · rw [withReturns_cons h]
      simp [h]

theorem head?_withReturns_eq (feed : c ≠ '\n') (ret : c ≠ '\r') (cs : List Char) :
    (withReturns cs).head? = some c ↔ cs.head? = some c := by
  rw [head?_withReturns]
  cases cs with
  | nil => rfl
  | cons d ds =>
    by_cases h : d = '\n'
    · simp [h, Ne.symm feed, Ne.symm ret]
    · simp [h]

theorem length_le_withReturns (cs : List Char) : cs.length ≤ (withReturns cs).length := by
  induction cs with
  | nil => exact Nat.le_refl 0
  | cons c cs ih =>
    by_cases h : c = '\n'
    · rw [h, withReturns_newline]
      simp only [List.length_cons]
      omega
    · rw [withReturns_cons h]
      exact Nat.succ_le_succ ih

theorem length_withReturns (cs : List Char) : (withReturns cs).length = cs.length + cs.count '\n' := by
  induction cs with
  | nil => rfl
  | cons c cs ih =>
    by_cases h : c = '\n'
    · rw [h, withReturns_newline, List.count_cons_self]
      simp only [List.length_cons, ih]
      omega
    · rw [withReturns_cons h, List.count_cons_of_ne h]
      simp only [List.length_cons, ih]
      omega

/-- Where the characters of a text stand in the one with returns. -/
def reach (cs : List Char) (n : Nat) : Nat := (withReturns (cs.take n)).length

@[simp] theorem reach_zero (cs : List Char) : reach cs 0 = 0 := by simp [reach]

@[simp] theorem reach_newline (cs : List Char) (n : Nat) : reach ('\n' :: cs) (n + 1) = reach cs n + 2 := rfl

theorem reach_cons (other : c ≠ '\n') (cs : List Char) (n : Nat) : reach (c :: cs) (n + 1) = reach cs n + 1 := by
  rw [reach, List.take_succ_cons, withReturns_cons other]
  rfl

theorem reach_append (u cs : List Char) (n : Nat) : reach (u ++ cs) (u.length + n) = (withReturns u).length + reach cs n := by
  rw [reach, List.take_length_add_append, withReturns_append, List.length_append, reach]

theorem reach_add (cs : List Char) (m n : Nat) : reach cs (m + n) = reach cs m + reach (cs.drop m) n := by
  rw [reach, List.take_add, withReturns_append, List.length_append]
  rfl

theorem reach_eq_self (le : n ≤ cs.length) (free : '\n' ∉ cs.take n) : reach cs n = n := by
  rw [reach, withReturns_eq_self free, List.length_take, Nat.min_eq_left le]

theorem take_reach (cs : List Char) (n : Nat) : (withReturns cs).take (reach cs n) = withReturns (cs.take n) := by
  conv => lhs; rw [← List.take_append_drop n cs, withReturns_append, List.take_append_drop]
  exact List.take_left

theorem drop_reach (cs : List Char) (n : Nat) : (withReturns cs).drop (reach cs n) = withReturns (cs.drop n) := by
  conv => lhs; rw [← List.take_append_drop n cs, withReturns_append, List.take_append_drop]
  exact List.drop_left

theorem takeWhile_withReturns (feed : p '\n' = false) (ret : p '\r' = false) (cs : List Char) :
    (withReturns cs).takeWhile p = cs.takeWhile p := by
  induction cs with
  | nil => rfl
  | cons c cs ih =>
    by_cases h : c = '\n'
    · rw [h, withReturns_newline, List.takeWhile_cons_of_neg (by simp [ret]), List.takeWhile_cons_of_neg (by simp [feed])]
    · rw [withReturns_cons h, List.takeWhile_cons, List.takeWhile_cons, ih]

theorem dropWhile_withReturns (feed : p '\n' = false) (ret : p '\r' = false) (cs : List Char) :
    (withReturns cs).dropWhile p = withReturns (cs.dropWhile p) := by
  induction cs with
  | nil => rfl
  | cons c cs ih =>
    by_cases h : c = '\n'
    · rw [h, withReturns_newline, List.dropWhile_cons_of_neg (by simp [ret]), List.dropWhile_cons_of_neg (by simp [feed])]
      rfl
    · rw [withReturns_cons h, List.dropWhile_cons, List.dropWhile_cons]
      split
      · exact ih
      · rw [withReturns_cons h]

theorem find?_withReturns (feed : p '\n' = false) (ret : p '\r' = false) (cs : List Char) :
    (withReturns cs).find? p = cs.find? p := by
  induction cs with
  | nil => rfl
  | cons c cs ih =>
    by_cases h : c = '\n'
    · rw [h, withReturns_newline, List.find?_cons_of_neg (by simp [ret]), List.find?_cons_of_neg (by simp [feed]),
        List.find?_cons_of_neg (by simp [feed]), ih]
    · rw [withReturns_cons h, List.find?_cons, List.find?_cons, ih]

theorem takeWhile_withReturns_over (feed : p '\n' = true) (ret : p '\r' = true) (cs : List Char) :
    (withReturns cs).takeWhile p = withReturns (cs.takeWhile p) := by
  induction cs with
  | nil => rfl
  | cons c cs ih =>
    by_cases h : c = '\n'
    · rw [h, withReturns_newline, List.takeWhile_cons_of_pos ret, List.takeWhile_cons_of_pos feed,
        List.takeWhile_cons_of_pos feed, ih, withReturns_newline]
    · rw [withReturns_cons h, List.takeWhile_cons, List.takeWhile_cons]
      split
      · rw [ih, withReturns_cons h]
      · rfl

end Footprint.Text
