import Footprint.Proofs.Syntax.Stances

/-!
# Readings at places of the cut

A state of a reading stands at a place of the cut, before the gap or behind it, and what the grammar knows of it holds of
that place. Only where the prefix of a literal or the point of a number has been read on its own has the reading gone
astray, and there no token that may be asked for is read.
-/

namespace Footprint.Syntax

open Text (isDigit isIdentifierStart isIdentifierRest)

/-! ### Lexemes by their first characters -/

section Heads

variable {c : Char} {cs ds w m : List Char} {n : Nat} {quotes : List Quote}

theorem of_length_mark (known : m ∈ marks) (length : (Token.mark m).length? quotes cs = some n) :
    n = m.length ∧ m <+: cs ∧ ∃ c ds, cs = c :: ds ∧ m.head? = some c ∧ c ∈ markCharacters := by
  rw [Token.length?, Option.ite_none_right_eq_some, Bool.and_eq_true, List.isPrefixOf_iff_prefix] at length
  obtain ⟨⟨isHead, -⟩, same⟩ := length
  obtain ⟨c, m, rfl, mem⟩ := head_of_mem_marks known
  obtain ⟨ds, rfl⟩ := isHead
  exact ⟨(Option.some.inj same).symm, ⟨ds, rfl⟩, c, m ++ ds, rfl, rfl, mem⟩

theorem isIdentifierRest_of_isQuoteMark (h : isQuoteMark c = true) :
    isIdentifierRest c = false ∧ isIdentifierStart c = false ∧ isStringPrefix c = false ∧ isDigit c = false ∧ c ≠ '.' ∧
      c ∉ markCharacters ∧ isSolid c = true := by
  simp only [isQuoteMark, Bool.or_eq_true, beq_iff_eq] at h
  rcases h with (rfl | rfl) | rfl <;> decide

theorem exists_of_beginsString (h : beginsString cs = true) :
    ∃ w c ds, cs = w ++ c :: ds ∧ (∀ d ∈ w, isStringPrefix d = true) ∧ isQuoteMark c = true := by
  have parts : cs.takeWhile isStringPrefix ++ cs.dropWhile isStringPrefix = cs := List.takeWhile_append_dropWhile
  rw [beginsString] at h
  split at h
  · cases h
  · rename_i c ds rest
    rw [rest] at parts
    exact ⟨_, c, ds, parts.symm, List.all_eq_true.mp List.all_takeWhile, h⟩

theorem beginsString_append (letters : ∀ d ∈ w, isStringPrefix d = true) (quote : isQuoteMark c = true) :
    beginsString (w ++ c :: ds) = true := by
  have noPrefix := (isIdentifierRest_of_isQuoteMark quote).2.2.1
  rw [beginsString, List.dropWhile_append_of_pos letters, List.dropWhile_cons_of_neg (by simp [noPrefix])]
  exact quote

theorem wordLength_letters (letters : ∀ d ∈ w, isStringPrefix d = true) (quote : isQuoteMark c = true) :
    wordLength (w ++ c :: ds) = w.length := by
  obtain ⟨noRest, noStart, -⟩ := isIdentifierRest_of_isQuoteMark quote
  cases w with
  | nil => exact wordLength_cons noStart
  | cons d w =>
    refine (wordAt_append ⟨d, w, rfl, (of_isStringPrefix (letters d List.mem_cons_self)).1⟩ ?_ ?_).2
    · intro e mem
      exact (of_isStringPrefix (letters e mem)).2
    · intro e mem
      obtain rfl := Option.mem_some.mp mem
      exact noRest

theorem wordLength_le (cs : List Char) : wordLength cs ≤ cs.length := by
  cases cs with
  | nil => exact Nat.le_refl 0
  | cons c cs =>
    rw [wordLength]
    split
    · rw [List.length_cons, Nat.add_comm]
      exact Nat.succ_le_succ (List.takeWhile_prefix _).length_le
    · exact Nat.zero_le _

theorem eq_of_nonempty {n m : Nat} (h : nonempty n = some m) : m = n := by
  cases n with
  | zero => cases h
  | succ n => exact (Option.some.inj h).symm

theorem isDigit_eq_false_of_isIdentifierStart (h : isIdentifierStart c = true) : isDigit c = false := by
  refine Bool.eq_false_iff.mpr fun digit => ?_
  rw [(of_isDigit digit).1] at h
  cases h

theorem exists_of_wordLength (h : wordLength cs ≠ 0) : ∃ c ds, cs = c :: ds ∧ isIdentifierStart c = true := by
  refine exists_of_wordAt fun none => h ?_
  rw [wordAt, List.take_eq_nil_iff] at none
  rcases none with zero | rfl
  · exact zero
  · rfl

theorem exists_of_numberLength (h : Number.length cs ≠ 0) : ∃ c ds, cs = c :: ds ∧ (isDigit c = true ∨ c = '.') := by
  cases cs with
  | nil => exact absurd rfl h
  | cons c ds =>
    refine ⟨c, ds, rfl, ?_⟩
    refine Decidable.byContradiction fun other => ?_
    rw [not_or] at other
    exact h (numberLength_cons (Bool.eq_false_iff.mpr other.1) other.2)

theorem numberLength_of_beginsString (h : beginsString cs = true) : Number.length cs = 0 := by
  obtain ⟨w, c, ds, rfl, letters, quote⟩ := exists_of_beginsString h
  cases w with
  | nil =>
    obtain ⟨-, -, -, noDigit, noPoint, -⟩ := isIdentifierRest_of_isQuoteMark quote
    exact numberLength_cons noDigit noPoint
  | cons d w =>
    have start := (of_isStringPrefix (letters d List.mem_cons_self)).1
    refine numberLength_cons (isDigit_eq_false_of_isIdentifierStart start) fun point => ?_
    rw [point] at start
    exact absurd start (by decide)

theorem numberLength_of_wordLength (h : wordLength cs ≠ 0) : Number.length cs = 0 := by
  obtain ⟨c, ds, rfl, start⟩ := exists_of_wordLength h
  refine numberLength_cons (isDigit_eq_false_of_isIdentifierStart start) fun point => ?_
  rw [point] at start
  exact absurd start (by decide)

theorem not_beginsString_of_mark (mem : c ∈ markCharacters) : beginsString (c :: ds) = false := by
  obtain ⟨-, -, noPrefix, noQuote, -⟩ := of_mem_markCharacters mem
  rw [beginsString_cons noPrefix, noQuote]

theorem point_of_number (known : m ∈ marks) (length : (Token.mark m).length? quotes cs = some n)
    (number : Number.length cs ≠ 0) : m = ['.'] ∧ ∃ ds, cs = '.' :: ds ∧ ds.head?.any isDigit = true := by
  obtain ⟨-, isHead, c, ds, rfl, head, mem⟩ := of_length_mark known length
  obtain ⟨c', ds', same, digit | rfl⟩ := exists_of_numberLength number
  · obtain ⟨rfl, -⟩ := List.cons.inj same
    rw [(of_mem_markCharacters mem).2.1] at digit
    cases digit
  · obtain ⟨rfl, -⟩ := List.cons.inj same
    have fraction : ds.head?.any isDigit = true := by
      refine Decidable.byContradiction fun none => ?_
      have whole : Number.digits ('.' :: ds) = 0 := by
        rw [Number.digits, Number.digitsAfter, if_neg (by decide), if_neg (by decide)]
      have part : Number.digits ds = 0 := by
        cases ds with
        | nil => rfl
        | cons d ds =>
          have noDigit : isDigit d = false := Bool.eq_false_iff.mpr none
          rw [Number.digits, Number.digitsAfter, noDigit, if_neg Bool.false_ne_true, Bool.and_false, if_neg Bool.false_ne_true]
      apply number
      simp [Number.length, Number.decimal, whole, part]
    have points : ∀ m ∈ marks, m.head? = some '.' → m = ['.'] ∨ m = ['.', '.', '.'] := by decide
    refine ⟨(points m known head).resolve_right ?_, ds, rfl, fraction⟩
    rintro rfl
    obtain ⟨ds', same⟩ := isHead
    obtain rfl := (List.cons.inj same).2
    have fraction : isDigit '.' = true := fraction
    exact absurd fraction (by decide)

theorem of_length_close (length : Token.closeFormatted.length? quotes cs = some n) :
    ∃ q opened ds, quotes = q :: opened ∧ cs = q.mark :: ds ∧ (q.triple = true → doubled q.mark ds = true) := by
  simp only [Token.length?] at length
  split at length
  · rename_i q opened c ds
    obtain ⟨closes, -⟩ := Option.ite_none_right_eq_some.mp length
    rw [Bool.and_eq_true, decide_eq_true_eq, Bool.or_eq_true, Bool.not_eq_true'] at closes
    obtain ⟨rfl, closes⟩ := closes
    refine ⟨q, opened, ds, rfl, rfl, fun triple => closes.resolve_left ?_⟩
    rw [triple]
    exact Bool.noConfusion
  · cases length

end Heads

/-! ### States at places -/

/-- A state at a place, before the gap or behind it. -/
structure State.At (s : State) (p : Place) : Prop where
  text : s.rest = p.rest ∧ s.here = p.here ∨ s.rest = p.past.rest ∧ s.here = p.past.here
  quotes : s.quotes = p.quotes

namespace State.At

variable {s s' : State} {p : Place} {t : Token} {ts : List Tree} {n : Nat}

theorem past_gap (h : s.At p) : (s.past s.gap).rest = p.past.rest ∧ (s.past s.gap).here = p.past.here := by
  rcases h.text with ⟨rest, here⟩ | ⟨rest, here⟩
  · rw [State.past, State.gap, rest, here]
    exact ⟨rfl, rfl⟩
  · obtain ⟨gap, there, -⟩ := p.ends_past s.here
    rw [State.past, State.gap, rest]
    exact ⟨gap, there.trans here⟩

theorem past (h : s.At p) : (s.past s.gap).At p := ⟨.inr h.past_gap, h.quotes⟩

theorem length_le (h : s.At p) : s.rest.length ≤ p.rest.length := by
  rcases h.text with ⟨rest, -⟩ | ⟨rest, -⟩
  · exact Nat.le_of_eq (congrArg List.length rest)
  · rw [rest]
    exact p.length_past

structure Behind (s s' : State) (p : Place) (t : Token) (n : Nat) : Prop where
  length : t.length? p.quotes p.rest = some n
  rest : s'.rest = p.rest.drop n
  here : s'.here = p.here.afterAll (p.rest.take n)
  quotes : s'.quotes = t.track p.rest p.quotes
  suites : s'.suites = s.suites

theorem exists_behind (h : s.At p) (unspaced : t.isSpaced = false → s.rest = p.rest ∧ s.here = p.here)
    (read : t.read? s = some (ts, s')) : ∃ n, Behind s s' (if t.isSpaced then p.past else p) t n := by
  rw [Token.read?_eq] at read
  obtain ⟨⟨extras, s₁⟩, lead, read⟩ := Option.bind_eq_some_iff.mp read
  obtain ⟨n, length, read⟩ := Option.map_eq_some_iff.mp read
  obtain ⟨-, rfl⟩ := Prod.mk.inj read
  split at lead
  · rename_i spaced
    obtain ⟨-, rfl⟩ := State.eq_past_of_lead lead
    obtain ⟨rest, here⟩ := h.past_gap
    have quotes : (s.past s.gap).quotes = p.past.quotes := h.quotes
    rw [if_pos spaced]
    dsimp only at length
    rw [rest, quotes] at length
    refine ⟨n, length, ?_, ?_, ?_, rfl⟩
    · exact congrArg (List.drop n) rest
    · show (s.past s.gap).here.afterAll ((s.past s.gap).rest.take n) = _
      rw [rest, here]
    · show t.track (s.past s.gap).rest (s.past s.gap).quotes = _
      rw [rest, quotes]
  · rename_i unspaced'
    obtain ⟨-, rfl⟩ := Prod.mk.inj (Option.some.inj lead)
    obtain ⟨rest, here⟩ := unspaced (Bool.eq_false_iff.mpr unspaced')
    rw [if_neg unspaced']
    dsimp only at length
    rw [rest, h.quotes] at length
    refine ⟨n, length, ?_, ?_, ?_, rfl⟩
    · exact congrArg (List.drop n) rest
    · show s.here.afterAll (s.rest.take n) = _
      rw [rest, here]
    · show t.track s.rest s.quotes = _
      rw [rest, h.quotes]

end State.At

/-- A reading that has read the letters before a quote as a word, or the point of a number as a mark. -/
inductive State.Astray (source : List Char) (s : State) : Prop
  | letters {p : Place} {w ds : List Char} {c : Char} : Reached source p → p.isCode = true → p.past.rest = w ++ s.rest →
    w ≠ [] → (∀ d ∈ w, isStringPrefix d = true) → s.rest = c :: ds → isQuoteMark c = true → Astray source s
  | point {p : Place} {ds : List Char} {c : Char} : Reached source p → p.isCode = true → p.past.rest = '.' :: s.rest →
    s.rest = c :: ds → isDigit c = true → Astray source s

/-- What has gone astray stands before a quote or a digit. -/
theorem State.Astray.exists_head {source : List Char} {s : State} (h : s.Astray source) :
    ∃ c ds, s.rest = c :: ds ∧ c ∉ markCharacters ∧ isIdentifierStart c = false ∧ isSolid c = true := by
  cases h with
  | letters _ _ _ _ _ rest quote =>
    obtain ⟨-, noStart, -, -, -, noMark, solid⟩ := isIdentifierRest_of_isQuoteMark quote
    exact ⟨_, _, rest, noMark, noStart, solid⟩
  | point _ _ _ rest digit =>
    obtain ⟨noStart, -, -, solid⟩ := of_isDigit digit
    refine ⟨_, _, rest, fun mem => ?_, noStart, solid⟩
    rw [(of_mem_markCharacters mem).2.1] at digit
    cases digit

/-! ### What holds of a place -/

/-- What a ground says of all that is open. -/
def Ground.Admits (fs : List Frame) : Ground → Prop
  | .outside => fs = []
  | .bracket => fs.head? = some .bracket
  | .code => fs.head?.all Frame.isCode = true
  | .content => fs.head?.any (fun f => !f.isCode) = true

theorem Ground.Admits.isCode {fs : List Frame} {g : Ground} (h : g.Admits fs) (other : g ≠ .content) :
    fs.head?.all Frame.isCode = true := by
  cases g with
  | outside =>
    obtain rfl : fs = [] := h
    rfl
  | bracket =>
    obtain ⟨rest, rfl⟩ := List.head?_eq_some_iff.mp h
    rfl
  | code => exact h
  | content => exact absurd rfl other

/-- A ground says what it says of all that may be open where a phrase begins. -/
def Ground.Holds (base : List Frame → Prop) (g : Ground) : Prop := ∀ fs, base fs → g.Admits fs

namespace Stance

variable {g : Ground} {base : List Frame → Prop} {fs : List Frame} {σ τ : Stance} {f : Frame}

/-- What is open is among what may be open, and this holds of all outside it. -/
def IsOpen (P : List Frame → Prop) : List (List Frame) → List Frame → Prop
  | [], fs => P fs
  | l :: ls, f :: fs => f ∈ l ∧ IsOpen P ls fs
  | _ :: _, [] => False

/-- What is open is what the phrase has opened, and outside of that what may be open where the phrase begins. -/
def Fits (base : List Frame → Prop) (fs : List Frame) (σ : Stance) : Prop :=
  IsOpen (fun outer => σ.exact = true → base outer) σ.opened fs

theorem Fits.push (h : σ.Fits base fs) (g : Ground) (f : Frame) : (σ.push g f).Fits base (f :: fs) :=
  ⟨List.mem_singleton_self f, h⟩

theorem Fits.pop (h : σ.Fits base fs) (g : Ground) : (σ.pop g).Fits base fs.tail := by
  rw [Fits] at h
  unfold Stance.pop
  split
  · rename_i l ls opened
    rw [opened] at h
    cases fs with
    | nil => exact h.elim
    | cons f fs => exact h.2
  · rename_i opened
    show IsOpen _ σ.opened _
    rw [opened]
    exact nofun

theorem Fits.exists_of_isIn (h : σ.Fits base fs) (ground : g.Holds base) {among : List Frame}
    (inside : σ.isIn g among = true) : ∃ f rest, fs = f :: rest ∧ f ∈ among := by
  rw [Fits] at h
  unfold isIn at inside
  split at inside
  · rename_i l ls opened
    rw [opened] at h
    cases fs with
    | nil => exact h.elim
    | cons f fs => exact ⟨f, fs, rfl, List.contains_iff_mem.mp (List.all_eq_true.mp inside f h.1)⟩
  · rename_i opened
    rw [opened] at h
    rw [Bool.and_eq_true] at inside
    have ground := ground fs (h inside.1)
    have inside := inside.2
    split at inside
    · obtain ⟨rest, rfl⟩ := List.head?_eq_some_iff.mp ground
      exact ⟨_, rest, rfl, List.contains_iff_mem.mp inside⟩
    · rw [Bool.and_eq_true, List.contains_iff_mem, List.contains_iff_mem] at inside
      obtain ⟨f, head, content⟩ := (Option.any_eq_true _ _).mp ground
      obtain ⟨rest, rfl⟩ := List.head?_eq_some_iff.mp head
      refine ⟨f, rest, rfl, ?_⟩
      cases f with
      | text => exact inside.1
      | format => exact inside.2
      | _ => cases content
    · cases inside
    · cases inside

theorem Fits.isCode (h : σ.Fits base fs) (ground : g.Holds base) (code : σ.isCode g = true) :
    fs.head?.all Frame.isCode = true := by
  rw [Fits] at h
  unfold Stance.isCode at code
  split at code
  · rename_i l ls opened
    rw [opened] at h
    cases fs with
    | nil => exact h.elim
    | cons f fs => exact List.all_eq_true.mp code f h.1
  · rename_i opened
    rw [opened] at h
    rw [Bool.and_eq_true, bne_iff_ne] at code
    exact (ground fs (h code.1)).isCode code.2

theorem Fits.eq_nil (h : σ.Fits base fs) (ground : g.Holds base) (outside : σ.isOutside g = true) : fs = [] := by
  simp only [isOutside, Bool.and_eq_true, List.isEmpty_iff, beq_iff_eq] at outside
  obtain ⟨⟨none, isExact⟩, rfl⟩ := outside
  rw [Fits, none] at h
  exact ground fs (h isExact)

section Levels

variable {P Q : List Frame → Prop} {ls ms : List (List Frame)}

theorem IsOpen.zipWith_left (h : IsOpen P ls fs) (same : ls.length = ms.length → ∀ outer, P outer → Q outer)
    (other : ls.length ≠ ms.length → ∀ outer, Q outer) :
    IsOpen Q (List.zipWith (fun l m => l ++ m.filter (· ∉ l)) ls ms) fs := by
  induction ls generalizing ms fs with
  | nil =>
    cases ms with
    | nil => exact same rfl fs h
    | cons m ms => exact other nofun fs
  | cons l ls ih =>
    cases ms with
    | nil => exact other nofun fs
    | cons m ms =>
      cases fs with
      | nil => exact h.elim
      | cons f fs =>
        refine ⟨List.mem_append_left _ h.1, ih h.2 ?_ ?_⟩
        · exact fun length => same (congrArg (· + 1) length)
        · exact fun length => other (mt Nat.succ.inj length)

theorem IsOpen.zipWith_right (h : IsOpen P ms fs) (same : ls.length = ms.length → ∀ outer, P outer → Q outer)
    (other : ls.length ≠ ms.length → ∀ outer, Q outer) :
    IsOpen Q (List.zipWith (fun l m => l ++ m.filter (· ∉ l)) ls ms) fs := by
  induction ls generalizing ms fs with
  | nil =>
    cases ms with
    | nil => exact same rfl fs h
    | cons m ms => exact other nofun fs
  | cons l ls ih =>
    cases ms with
    | nil => exact other nofun fs
    | cons m ms =>
      cases fs with
      | nil => exact h.elim
      | cons f fs =>
        refine ⟨?_, ih h.2 ?_ ?_⟩
        · by_cases mem : f ∈ l
          · exact List.mem_append_left _ mem
          · exact List.mem_append_right _ (List.mem_filter.mpr ⟨h.1, decide_eq_true mem⟩)
        · exact fun length => same (congrArg (· + 1) length)
        · exact fun length => other (mt Nat.succ.inj length)

theorem IsOpen.of_among (h : IsOpen P ls fs) (isAmong : among ls ms = true)
    (same : ls.length = ms.length → ∀ outer, P outer → Q outer) (other : ls.length ≠ ms.length → ∀ outer, Q outer) :
    IsOpen Q ms fs := by
  induction ms generalizing ls fs with
  | nil =>
    cases ls with
    | nil => exact same rfl fs h
    | cons l ls => exact other nofun fs
  | cons m ms ih =>
    cases ls with
    | nil => cases isAmong
    | cons l ls =>
      cases fs with
      | nil => exact h.elim
      | cons f fs =>
        rw [among, Bool.and_eq_true, List.all_eq_true] at isAmong
        refine ⟨List.contains_iff_mem.mp (isAmong.1 f h.1), ih h.2 isAmong.2 ?_ ?_⟩
        · exact fun length => same (congrArg (· + 1) length)
        · exact fun length => other (mt Nat.succ.inj length)

end Levels

theorem Fits.join_left (h : σ.Fits base fs) (τ : Stance) : (σ.join τ).Fits base fs := by
  refine IsOpen.zipWith_left h ?_ ?_
  · intro _ outer exact' isExact
    simp only [Stance.join, Bool.and_eq_true] at isExact
    exact exact' isExact.1.1
  · intro length outer isExact
    simp only [Stance.join, Bool.and_eq_true, beq_iff_eq] at isExact
    exact absurd isExact.2 length

theorem Fits.join_right (h : τ.Fits base fs) (σ : Stance) : (σ.join τ).Fits base fs := by
  refine IsOpen.zipWith_right h ?_ ?_
  · intro _ outer exact' isExact
    simp only [Stance.join, Bool.and_eq_true] at isExact
    exact exact' isExact.1.2
  · intro length outer isExact
    simp only [Stance.join, Bool.and_eq_true, beq_iff_eq] at isExact
    exact absurd isExact.2 length

theorem Fits.of_entails (h : σ.Fits base fs) (entails : σ.entails τ = true) : τ.Fits base fs := by
  simp only [Stance.entails, Bool.and_eq_true, Bool.or_eq_true, Bool.not_eq_true', beq_iff_eq] at entails
  obtain ⟨⟨⟨⟨isAmong, exact'⟩, -⟩, -⟩, -⟩ := entails
  refine IsOpen.of_among h isAmong ?_ ?_
  · intro _ outer holds isExact
    exact holds (exact'.resolve_left (by rw [isExact]; exact Bool.noConfusion)).1
  · intro length outer isExact
    exact absurd (exact'.resolve_left (by rw [isExact]; exact Bool.noConfusion)).2 length

end Stance

end Footprint.Syntax
