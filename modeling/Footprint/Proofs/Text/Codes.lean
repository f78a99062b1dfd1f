import Mathlib.Algebra.Group.Nat.Even
import Footprint.Proofs.Text.Characters

/-!
# Codes in digits

The digits of a number bound it, so that some are few enough to be the code of a character for certain. A character
takes no more bytes in UTF-8 than its code has digits.
-/

namespace Footprint.Text

variable {base : Nat} {c d : Char} {ds : List Char}

theorem isHex_of_isOctal (h : isOctal d = true) : isHex d = true := by
  have known : ∀ d ∈ ['0', '1', '2', '3', '4', '5', '6', '7'], isHex d = true := by decide
  exact known d (mem_octals h)

theorem digitValue_lt_of_isOctal (h : isOctal d = true) : digitValue d < 8 := by
  have known : ∀ d ∈ ['0', '1', '2', '3', '4', '5', '6', '7'], digitValue d < 8 := by decide
  exact known d (mem_octals h)

theorem digitValue_lt_of_isHex (h : isHex d = true) : digitValue d < 16 := by
  have codes : (48 ≤ d.toNat ∧ d.toNat ≤ 57 ∨ 97 ≤ d.toNat ∧ d.toNat ≤ 102) ∨ 65 ≤ d.toNat ∧ d.toNat ≤ 70 := by
    simp only [isHex, isDigit, Bool.or_eq_true, Bool.and_eq_true, decide_eq_true_eq] at h
    exact h
  have value : digitValue d =
      if d.toNat ≤ 57 then d.toNat - 48 else if d.toNat ≤ 70 then d.toNat - 65 + 10 else d.toNat - 97 + 10 := rfl
  rw [value]
  split
  · omega
  split <;> omega

theorem digitsValue_lt (digits : ∀ d ∈ ds, digitValue d < base) : digitsValue base ds < base ^ ds.length := by
  -- for every number that stands for the digits before
  have behind (n : Nat) : ds.foldl (fun n d => n * base + digitValue d) n < (n + 1) * base ^ ds.length := by
    induction ds generalizing n with
    | nil => simp
    | cons d ds ih =>
      rw [List.forall_mem_cons] at digits
      have step : n * base + digitValue d + 1 ≤ (n + 1) * base := by
        rw [Nat.succ_mul]
        omega
      calc
        _ < (n * base + digitValue d + 1) * base ^ ds.length := ih digits.2 _
        _ ≤ (n + 1) * base * base ^ ds.length := Nat.mul_le_mul_right _ step
        _ = (n + 1) * base ^ (ds.length + 1) := by rw [Nat.mul_assoc, Nat.pow_succ']
  have total := behind 0
  rwa [Nat.zero_add, Nat.one_mul] at total

/-- A number is the code of a character, or a surrogate, or too large. -/
theorem exists_toNat_eq (n : Nat) : (∃ c : Char, n = c.toNat) ∨ 0xD800 ≤ n ∧ n ≤ 0xDFFF ∨ 0x10FFFF < n := by
  by_cases valid : n.isValidChar
  · left
    refine ⟨Char.ofNat n, ?_⟩
    rw [Char.ofNat, dif_pos valid]
    rfl
  · right
    unfold Nat.isValidChar at valid
    omega

/-- Digits so few that they reach no surrogate are the code of a character. -/
theorem exists_of_digits (digits : ∀ d ∈ ds, digitValue d < base) (few : base ^ ds.length ≤ 0xD800) :
    ∃ c : Char, digitsValue base ds = c.toNat := by
  have below := digitsValue_lt digits
  rcases exists_toNat_eq (digitsValue base ds) with code | outside
  · exact code
  · omega

/-- No character has more bytes than its code has hexadecimal digits. -/
theorem utf8Size_le {n : Nat} (pos : 0 < n) (below : c.toNat < 16 ^ n) : c.utf8Size ≤ n := by
  have one : n = 1 → c.toNat < 0x10 := by rintro rfl; exact below
  have two : n = 2 → c.toNat < 0x100 := by rintro rfl; exact below
  have three : n = 3 → c.toNat < 0x1000 := by rintro rfl; exact below
  have size : c.utf8Size =
      if c.toNat ≤ 0x7f then 1 else if c.toNat ≤ 0x7ff then 2 else if c.toNat ≤ 0xffff then 3 else 4 := rfl
  rw [size]
  split
  · omega
  split
  · omega
  split <;> omega

/-- A character has no more bytes than there are digits that write its code. -/
theorem utf8Size_le_length (le : base ≤ 16) (nonempty : ds ≠ []) (digits : ∀ d ∈ ds, digitValue d < base)
    (value : digitsValue base ds = c.toNat) : c.utf8Size ≤ ds.length := by
  apply utf8Size_le (List.length_pos_iff.mpr nonempty)
  rw [← value]
  exact Nat.lt_of_lt_of_le (digitsValue_lt digits) (Nat.pow_le_pow_left le _)

end Footprint.Text
