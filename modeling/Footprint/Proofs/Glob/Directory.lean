import Footprint.Proofs.Text.Split
import Footprint.Ignore.Filter

/-!
# The glob of a directory name

Matching takes bytes, paths are made of characters. No byte of a character beyond ASCII is below 0x80,
so a slash that matching finds is a slash of the path, and the glob of all that lies in directories of
a name holds for the paths of which the name is a part that is not the last one.
-/

namespace Footprint

namespace Glob

abbrev bytes (cs : List Char) : List UInt8 := cs.flatMap bytesOf

/-- A character with one byte, which stands in no other character. -/
def IsNarrow (c : Char) : Prop := c.toNat < 0x80

instance (c : Char) : Decidable (IsNarrow c) := inferInstanceAs (Decidable (_ < _))

theorem bytesOf_of_isNarrow {c : Char} (h : IsNarrow c) : bytesOf c = [UInt8.ofNat c.toNat] := by
  have : c.val.toNat ≤ 0x7f := Nat.le_of_lt_succ h
  simp only [bytesOf, String.utf8EncodeChar, this, if_true]
  rfl

theorem le_of_mem_bytesOf {c : Char} {b : UInt8} (h : ¬IsNarrow c) (hb : b ∈ bytesOf c) :
    0x80 ≤ b.toNat := by
  have : ¬c.val.toNat ≤ 0x7f := fun le => h (Nat.lt_succ_of_le le)
  simp only [bytesOf, String.utf8EncodeChar, this, if_false] at hb
  split at hb
  · simp only [List.mem_cons, List.not_mem_nil, or_false] at hb
    rcases hb with rfl | rfl <;> simp <;> omega
  · split at hb <;> simp only [List.mem_cons, List.not_mem_nil, or_false] at hb
    · rcases hb with rfl | rfl | rfl <;> simp <;> omega
    · rcases hb with rfl | rfl | rfl | rfl <;> simp <;> omega

theorem bytesOf_ne_nil (c : Char) : bytesOf c ≠ [] := by
  have : (bytesOf c).length = c.utf8Size := String.length_utf8EncodeChar c
  intro h
  have positive := c.utf8Size_pos
  simp [h] at this
  omega

variable {rest : List UInt8 → Bool} {c : Char} {cs : List Char}

theorem takeOne_bytes_iff (hc : IsNarrow c) :
    takeOne (· == UInt8.ofNat c.toNat) rest (bytes cs) = true ↔
      ∃ ds, cs = c :: ds ∧ rest (bytes ds) = true := by
  cases cs with
  | nil => simp [takeOne]
  | cons d ds =>
    by_cases hd : IsNarrow d
    · have same : UInt8.ofNat d.toNat = UInt8.ofNat c.toNat ↔ d = c := by
        constructor
        · intro h
          have h := congrArg UInt8.toNat h
          unfold IsNarrow at hc hd
          rw [UInt8.toNat_ofNat_of_lt' (by simpa [UInt8.size] using by omega),
            UInt8.toNat_ofNat_of_lt' (by simpa [UInt8.size] using by omega)] at h
          exact Char.toNat_inj.mp h
        · rintro rfl; rfl
      simp only [bytes, List.flatMap_cons, bytesOf_of_isNarrow hd, List.singleton_append, takeOne,
        Bool.and_eq_true, beq_iff_eq, same, List.cons.injEq]
      constructor
      · rintro ⟨rfl, h⟩; exact ⟨ds, ⟨rfl, rfl⟩, h⟩
      · rintro ⟨_, ⟨rfl, rfl⟩, h⟩; exact ⟨rfl, h⟩
    · have ne : d ≠ c := by rintro rfl; exact hd hc
      obtain ⟨b, bs, hb⟩ := List.exists_cons_of_ne_nil (bytesOf_ne_nil d)
      have high := le_of_mem_bytesOf hd (hb ▸ List.mem_cons_self : b ∈ bytesOf d)
      have differs : b ≠ UInt8.ofNat c.toNat := by
        rintro rfl
        unfold IsNarrow at hc
        rw [UInt8.toNat_ofNat_of_lt' (by simpa [UInt8.size] using by omega)] at high
        omega
      simp [bytes, hb, takeOne, differs, ne]

theorem takeBytes_bytes_iff (hc : IsNarrow c) :
    takeBytes rest (bytesOf c) (bytes cs) = true ↔ ∃ ds, cs = c :: ds ∧ rest (bytes ds) = true := by
  rw [← takeOne_bytes_iff hc, bytesOf_of_isNarrow hc]
  cases bytes cs with
  | nil => rfl
  | cons b bs => simp only [takeBytes, takeOne, BEq.comm (a := b)]

theorem takeOne_slash_bytes_iff :
    takeOne (· == slash) rest (bytes cs) = true ↔ ∃ ds, cs = '/' :: ds ∧ rest (bytes ds) = true :=
  takeOne_bytes_iff (c := '/') (by decide)

theorem behindSlash_append {bs bs' : List UInt8} (h : ∀ b ∈ bs, b ≠ slash) :
    behindSlash rest (bs ++ bs') = behindSlash rest bs' := by
  induction bs with
  | nil => rfl
  | cons b bs ih => simp_all [behindSlash]

theorem behindSlash_bytes_iff :
    behindSlash rest (bytes cs) = true ↔ ∃ ds es, cs = ds ++ '/' :: es ∧ rest (bytes es) = true := by
  induction cs with
  | nil => simp [behindSlash]
  | cons d ds ih =>
    by_cases hd : d = '/'
    · subst hd
      have narrow : bytes ('/' :: ds) = slash :: bytes ds := rfl
      rw [narrow, behindSlash, Bool.or_eq_true, ih]
      constructor
      · rintro (h | ⟨xs, es, rfl, h⟩)
        · exact ⟨[], ds, rfl, by simpa using h⟩
        · exact ⟨'/' :: xs, es, rfl, h⟩
      · rintro ⟨xs, es, h, hr⟩
        cases xs with
        | nil => simp_all
        | cons x xs =>
          simp only [List.cons_append, List.cons.injEq] at h
          exact .inr ⟨xs, es, h.2, hr⟩
    · have other : ∀ b ∈ bytesOf d, b ≠ slash := by
        rintro b hb rfl
        by_cases hn : IsNarrow d
        · have one : takeOne (· == slash) (fun _ => true) (bytes [d]) = true := by
            rw [bytesOf_of_isNarrow hn, List.mem_singleton] at hb
            simp [bytes, bytesOf_of_isNarrow hn, takeOne, ← hb]
          obtain ⟨_, h, _⟩ := takeOne_slash_bytes_iff.mp one
          simp_all
        · have := le_of_mem_bytesOf hn hb
          simp [slash] at this
      rw [bytes, List.flatMap_cons, behindSlash_append other, ih]
      constructor
      · rintro ⟨xs, es, rfl, h⟩; exact ⟨d :: xs, es, rfl, h⟩
      · rintro ⟨xs, es, h, hr⟩
        cases xs with
        | nil => simp_all
        | cons x xs =>
          simp only [List.cons_append, List.cons.injEq] at h
          exact ⟨xs, es, h.2, hr⟩

theorem takeMany_of_rest_nil {allowed : UInt8 → Bool} (all : ∀ b, allowed b = true) (h : rest [] = true)
    (bs : List UInt8) : takeMany allowed rest bs = true := by
  induction bs with
  | nil => exact h
  | cons b bs ih => simp [takeMany, all, ih]

theorem allTake_literals_iff {separates : Bool} {name : List Char} {ps : List Piece}
    (narrow : ∀ c ∈ name, IsNarrow c) :
    allTake separates (name.map .literal ++ ps) rest (bytes cs) = true ↔
      ∃ ds, cs = name ++ ds ∧ allTake separates ps rest (bytes ds) = true := by
  induction name generalizing cs with
  | nil => simp
  | cons c name ih =>
    rw [List.map_cons, List.cons_append, allTake, Piece.takes,
      takeBytes_bytes_iff (narrow c List.mem_cons_self)]
    have step (ds : List Char) := @ih ds fun d hd => narrow d (List.mem_cons_of_mem _ hd)
    simp only [step]
    constructor
    · rintro ⟨_, rfl, es, rfl, h⟩; exact ⟨es, rfl, h⟩
    · rintro ⟨es, rfl, h⟩; exact ⟨name ++ es, rfl, es, rfl, h⟩

end Glob

namespace IgnoreFilter

open Glob

/-- The glob of a directory name holds for a path if the name is one of its parts, but not the last. -/
theorem isMatch_inDirectory_iff {name s : String} (narrow : ∀ c ∈ name.toList, IsNarrow c)
    (noSlash : '/' ∉ name.toList) :
    (inDirectory name).isMatch s = true ↔ name.toList ∈ (Text.split '/' s.toList).dropLast := by
  have last : endsInDot (inDirectory name).pieces = false := by
    simp [endsInDot, inDirectory, List.getLast?_cons]
  have tail (cs : List Char) : allTake false [.trailing] List.isEmpty (bytes cs) = true ↔
      ∃ ds, cs = '/' :: ds := by
    have rest (bs : List UInt8) : takeMany (fun _ => true) (allTake false [] List.isEmpty) bs = true :=
      takeMany_of_rest_nil (fun _ => rfl) rfl bs
    simp only [allTake, Piece.takes] at rest ⊢
    rw [takeOne_slash_bytes_iff]
    simp [rest]
  have after (cs : List Char) :
      allTake false (name.toList.map .literal ++ [.trailing]) List.isEmpty (bytes cs) = true ↔
        ∃ ds, cs = name.toList ++ '/' :: ds := by
    rw [allTake_literals_iff narrow]
    simp only [tail]
    constructor
    · rintro ⟨_, rfl, ds, rfl⟩; exact ⟨ds, rfl⟩
    · rintro ⟨ds, rfl⟩; exact ⟨_, rfl, ds, rfl⟩
  rw [Text.mem_dropLast_split_iff noSlash]
  have pieces : (inDirectory name).matchesBytes (bytes s.toList) =
      allTake false (inDirectory name).pieces List.isEmpty (bytes s.toList) := by
    unfold matchesBytes
    split
    · rename_i h
      simp [inDirectory] at h
    · rw [asksForDot, last]
      rfl
  rw [isMatch, pieces, inDirectory, allTake, Piece.takes]
  simp only [Bool.or_eq_true, takeOne_slash_bytes_iff, behindSlash_bytes_iff, after]
  constructor
  · rintro ((h | ⟨_, h, ds, rfl⟩) | ⟨zs, _, h, ds, rfl⟩)
    · exact .inl h
    · exact .inr ⟨[], ds, h⟩
    · exact .inr ⟨zs, ds, h⟩
  · rintro (h | ⟨zs, ds, h⟩)
    · exact .inl (.inl h)
    · exact .inr ⟨zs, _, h, ds, rfl⟩

end IgnoreFilter

end Footprint
