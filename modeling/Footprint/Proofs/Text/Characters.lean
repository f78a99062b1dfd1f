import Footprint.Text.Digits

/-!
# Characters one by one
-/

namespace Footprint.Text

section Deciding

/-!
What is said about the characters of a text is decided by looking at these only, and not at all there are.
-/

variable {p : Char → Prop} [DecidablePred p]

instance (priority := high) decidableForallMem (cs : List Char) : Decidable (∀ c ∈ cs, p c) :=
  List.decidableBAll p cs

instance (priority := high) decidableExistsMem (cs : List Char) : Decidable (∃ c ∈ cs, p c) :=
  List.decidableBEx p cs

instance (priority := high) decidableForallMemOption (o : Option Char) : Decidable (∀ c ∈ o, p c) :=
  Option.decidableForallMem o

instance (priority := high) decidableExistsMemOption (o : Option Char) : Decidable (∃ c ∈ o, p c) :=
  Option.decidableExistsMem o

end Deciding

theorem mem_digits {d : Char} (h : isDigit d = true) :
    d ∈ ['0', '1', '2', '3', '4', '5', '6', '7', '8', '9'] := by
  simp only [isDigit, Bool.and_eq_true, decide_eq_true_eq] at h
  have lower : 48 ≤ d.toNat := h.1
  have upper : d.toNat ≤ 57 := h.2
  rw [← Char.ofNat_toNat d]
  generalize d.toNat = n at lower upper
  have : n = 48 ∨ n = 49 ∨ n = 50 ∨ n = 51 ∨ n = 52 ∨ n = 53 ∨ n = 54 ∨ n = 55 ∨ n = 56 ∨ n = 57 := by omega
  rcases this with rfl | rfl | rfl | rfl | rfl | rfl | rfl | rfl | rfl | rfl <;> decide

theorem forall_isDigit {p : Char → Prop}
    (h : ∀ d ∈ ['0', '1', '2', '3', '4', '5', '6', '7', '8', '9'], p d) {d : Char} (digit : isDigit d = true) :
    p d := h d (mem_digits digit)

theorem mem_octals {d : Char} (h : isOctal d = true) : d ∈ ['0', '1', '2', '3', '4', '5', '6', '7'] := by
  have digit : isDigit d = true := by
    simp only [isOctal, isDigit, Bool.and_eq_true, decide_eq_true_eq] at h ⊢
    exact ⟨h.1, Nat.le_trans h.2 (by decide)⟩
  revert h
  exact forall_isDigit (p := fun d => isOctal d = true → d ∈ ['0', '1', '2', '3', '4', '5', '6', '7']) (by decide) digit

theorem charOf?_toNat (c : Char) : charOf? c.toNat = some c := by
  have valid : c.toNat.isValidChar := c.valid
  rw [charOf?, if_pos valid, Char.ofNat_toNat]

theorem byteLength_cons (c : Char) (cs : List Char) : byteLength (c :: cs) = c.utf8Size + byteLength cs := rfl

theorem byteLength_append (cs ds : List Char) : byteLength (cs ++ ds) = byteLength cs + byteLength ds := by
  induction cs with
  | nil => exact (Nat.zero_add _).symm
  | cons c cs ih => rw [List.cons_append, byteLength_cons, byteLength_cons, ih, Nat.add_assoc]

theorem length_le_byteLength (cs : List Char) : cs.length ≤ byteLength cs := by
  induction cs with
  | nil => exact Nat.le_refl 0
  | cons c cs ih =>
    have positive := c.utf8Size_pos
    rw [List.length_cons, byteLength_cons]
    omega

theorem utf8ByteSize_eq (s : String) : s.utf8ByteSize = byteLength s.toList := by
  have ofList (cs : List Char) : (String.ofList cs).utf8ByteSize = byteLength cs := by
    induction cs with
    | nil => rfl
    | cons c cs ih =>
      rw [String.ofList_cons, String.utf8ByteSize_append, String.utf8ByteSize_singleton, ih, byteLength_cons]
  rw [← ofList, String.ofList_toList]

theorem exists_run (p : Char → Bool) (n : Nat) (cs : List Char) :
    ∃ ds rest, cs = ds ++ rest ∧ (∀ d ∈ ds, p d = true) ∧
      (ds.length = n ∨ ds.length < n ∧ ∀ d ∈ rest.head?, p d = false) := by
  induction n generalizing cs with
  | zero => exact ⟨[], cs, rfl, nofun, .inl rfl⟩
  | succ n ih =>
    cases cs with
    | nil => exact ⟨[], [], rfl, nofun, .inr ⟨Nat.succ_pos n, nofun⟩⟩
    | cons c cs =>
      by_cases digit : p c = true
      · obtain ⟨ds, rest, rfl, digits, ends⟩ := ih cs
        refine ⟨c :: ds, rest, rfl, List.forall_mem_cons.mpr ⟨digit, digits⟩, ?_⟩
        rw [List.length_cons, Nat.succ_inj, Nat.succ_lt_succ_iff]
        exact ends
      · refine ⟨[], c :: cs, rfl, nofun, .inr ⟨Nat.succ_pos n, ?_⟩⟩
        rintro d ⟨⟩
        exact Bool.eq_false_iff.mpr digit

theorem takeWhile_take_run {p : Char → Bool} {n : Nat} {ds rest : List Char} (digits : ∀ d ∈ ds, p d = true)
    (le : ds.length ≤ n) (ends : ds.length = n ∨ ∀ d ∈ rest.head?, p d = false) :
    ((ds ++ rest).take n).takeWhile p = ds := by
  rw [← List.take_takeWhile, List.takeWhile_append_of_pos digits]
  rcases ends with full | ends
  · exact List.take_left' full
  · have stops : rest.takeWhile p = [] := by
      cases rest with
      | nil => rfl
      | cons c cs => exact List.takeWhile_cons_of_neg (by simp [ends c rfl])
    rw [stops, List.append_nil]
    exact List.take_of_length_le le

end Footprint.Text
