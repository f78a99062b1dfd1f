import Mathlib.Algebra.Group.Nat.Defs
import Footprint.Yaml.Scalar

/-!
# Texts in YAML are told apart

The first character of a scalar shows its style: a text without quotes and without lines begins with no quote and no
bar. Within each style the end of the text shows, so two texts that are written alike are equal, and so is what follows
them. Only a block needs to know what follows: it ends before a line that is neither empty nor indented.
-/

namespace Footprint.Yaml

variable {cs ds r s : List Char} {c d : Char} {n : Nat}

/-- What is written for different things is not the same, whatever text of this sort follows. -/
def Unambiguous {α : Type} (next : List Char → Prop) (write : α → List Char) : Prop :=
  ∀ a b r s, next r → next s → write a ++ r = write b ++ s → a = b ∧ r = s

def Solid (r : List Char) : Prop := ∀ c ∈ r.head?, c ≠ ' ' ∧ isBreak c = false

theorem solid_nil : Solid [] := fun c none => by cases none

theorem solid_cons (blank : c ≠ ' ') (joined : isBreak c = false) : Solid (c :: r) := fun _ same => by
  cases same
  exact ⟨blank, joined⟩

/-- The part of a text before a character shows where that is first. -/
theorem append_cons_inj {α : Type} {x : α} {as bs r s : List α} (ha : x ∉ as) (hb : x ∉ bs)
    (same : as ++ x :: r = bs ++ x :: s) : as = bs ∧ r = s := by
  induction as generalizing bs with
  | nil =>
    cases bs with
    | nil => exact ⟨rfl, List.cons.inj same |>.2⟩
    | cons b bs =>
      obtain ⟨rfl, -⟩ := List.cons.inj same
      exact absurd List.mem_cons_self hb
  | cons a as ih =>
    cases bs with
    | nil =>
      obtain ⟨rfl, -⟩ := List.cons.inj same
      exact absurd List.mem_cons_self ha
    | cons b bs =>
      rw [List.cons_append, List.cons_append, List.cons.injEq] at same
      rw [List.mem_cons, not_or] at ha hb
      obtain ⟨rfl, same⟩ := same
      obtain ⟨rfl, rest⟩ := ih ha.2 hb.2 same
      exact ⟨rfl, rest⟩

/-! ### Double quotes -/

def letters : List (Char × Char) :=
  [('\x00', '0'), ('\x07', 'a'), ('\x08', 'b'), ('\t', 't'), ('\n', 'n'), ('\x0b', 'v'), ('\x0c', 'f'), ('\r', 'r'),
    ('\x1b', 'e'), ('"', '"'), ('\\', '\\'), ('\u0085', 'N'), ('\u2028', 'L'), ('\u2029', 'P')]

theorem mem_letters (h : letter? c = some d) : (c, d) ∈ letters := by
  unfold letter? at h
  split at h
  all_goals cases h
  all_goals decide

theorem letter?_inj {x : Char} (hc : letter? c = some x) (hd : letter? d = some x) : c = d := by
  have distinct : ∀ p ∈ letters, ∀ q ∈ letters, p.2 = q.2 → p.1 = q.1 := by decide
  exact distinct _ (mem_letters hc) _ (mem_letters hd) rfl

theorem letter?_ne_hex (h : letter? c = some d) : d ≠ 'x' ∧ d ≠ 'u' := by
  have others : ∀ p ∈ letters, p.2 ≠ 'x' ∧ p.2 ≠ 'u' := by decide
  exact others _ (mem_letters h)

theorem length_hexDigits (width n : Nat) : (hexDigits width n).length = width := by
  induction width generalizing n with
  | zero => rfl
  | succ width ih => rw [hexDigits, List.length_append, ih, List.length_singleton]

theorem hexDigit_inj : ∀ m < 16, ∀ n < 16, hexDigit m = hexDigit n → m = n := by decide

theorem hexDigits_inj {width m n : Nat} (hm : m < 16 ^ width) (hn : n < 16 ^ width)
    (same : hexDigits width m = hexDigits width n) : m = n := by
  induction width generalizing m n with
  | zero =>
    rw [Nat.pow_zero] at hm hn
    omega
  | succ width ih =>
    rw [Nat.pow_succ] at hm hn
    obtain ⟨front, last⟩ := List.append_inj' same rfl
    have high : m / 16 = n / 16 := ih (by omega) (by omega) front
    have low : m % 16 = n % 16 := hexDigit_inj _ (by omega) _ (by omega) (List.cons.inj last).1
    omega

inductive Escapes (c : Char) : List Char → Prop where
  | letter {x : Char} (h : letter? c = some x) : Escapes c ['\\', x]
  | itself (slash : c ≠ '\\') (quote : c ≠ '"') : Escapes c [c]
  | short (h : c.toNat < 16 ^ 2) : Escapes c ('\\' :: 'x' :: hexDigits 2 c.toNat)
  | long (h : c.toNat < 16 ^ 4) : Escapes c ('\\' :: 'u' :: hexDigits 4 c.toNat)

theorem toNat_lt_of_not_isPrintable (h : isPrintable c = false) : c.toNat < 16 ^ 4 := by
  have special : c = '\ufeff' ∨ c = '\ufffe' ∨ c = '\uffff' ∨ c.toNat < 0xA0 := by
    by_cases small : c.toNat < 0xA0
    · simp [small]
    · simp [isPrintable] at h
      have := h.2 (by omega)
      by_cases c = '\ufeff' <;> by_cases c = '\ufffe' <;> simp_all
  rcases special with rfl | rfl | rfl | small
  · decide
  · decide
  · decide
  · omega

theorem escapes_escaped (c : Char) : Escapes c (escaped c) := by
  unfold escaped
  split
  · rename_i x h
    exact .letter h
  · rename_i none
    split
    · refine .itself ?_ ?_
      · rintro rfl
        cases none
      · rintro rfl
        cases none
    · rename_i hidden
      split
      · rename_i small
        exact .short (by omega)
      · exact .long (toNat_lt_of_not_isPrintable (Bool.eq_false_iff.mpr hidden))

theorem toNat_inj (same : c.toNat = d.toNat) : c = d := Char.toNat_inj.mp same

theorem hex_inj {width : Nat} (hc : c.toNat < 16 ^ width) (hd : d.toNat < 16 ^ width)
    (same : hexDigits width c.toNat ++ r = hexDigits width d.toNat ++ s) : c = d ∧ r = s := by
  obtain ⟨digits, rest⟩ := List.append_inj same (by rw [length_hexDigits, length_hexDigits])
  exact ⟨toNat_inj (hexDigits_inj hc hd digits), rest⟩

theorem escapes_inj {as bs : List Char} (ha : Escapes c as) (hb : Escapes d bs) (same : as ++ r = bs ++ s) :
    c = d ∧ r = s := by
  cases ha with
  | letter hc =>
    cases hb with
    | letter hd =>
      cases same
      exact ⟨letter?_inj hc hd, rfl⟩
    | itself slash quote =>
      cases same
      exact absurd rfl slash
    | short hd =>
      cases same
      exact absurd rfl (letter?_ne_hex hc).1
    | long hd =>
      cases same
      exact absurd rfl (letter?_ne_hex hc).2
  | itself slash quote =>
    cases hb with
    | itself _ _ =>
      cases same
      exact ⟨rfl, rfl⟩
    | letter hd =>
      cases same
      exact absurd rfl slash
    | short hd =>
      cases same
      exact absurd rfl slash
    | long hd =>
      cases same
      exact absurd rfl slash
  | short hc =>
    cases hb with
    | letter hd =>
      cases same
      exact absurd rfl (letter?_ne_hex hd).1
    | itself slash quote =>
      cases same
      exact absurd rfl slash
    | short hd => exact hex_inj hc hd (List.cons.inj (List.cons.inj same).2).2
    | long hd => cases same
  | long hc =>
    cases hb with
    | letter hd =>
      cases same
      exact absurd rfl (letter?_ne_hex hd).2
    | itself slash quote =>
      cases same
      exact absurd rfl slash
    | short hd => cases same
    | long hd => exact hex_inj hc hd (List.cons.inj (List.cons.inj same).2).2

theorem head_of_escapes (h : Escapes c cs) : ∃ x xs, cs = x :: xs ∧ x ≠ '"' := by
  cases h with
  | letter _ => exact ⟨_, _, rfl, by decide⟩
  | itself _ quote => exact ⟨_, _, rfl, quote⟩
  | short _ => exact ⟨_, _, rfl, by decide⟩
  | long _ => exact ⟨_, _, rfl, by decide⟩

/-- The closing quote shows: it is the first one that is not escaped. -/
theorem flatMap_escaped_inj (same : cs.flatMap escaped ++ '"' :: r = ds.flatMap escaped ++ '"' :: s) :
    cs = ds ∧ r = s := by
  induction cs generalizing ds with
  | nil =>
    cases ds with
    | nil =>
      cases same
      exact ⟨rfl, rfl⟩
    | cons d ds =>
      obtain ⟨x, xs, head, other⟩ := head_of_escapes (escapes_escaped d)
      rw [List.flatMap_cons, head] at same
      cases same
      exact absurd rfl other
  | cons c cs ih =>
    cases ds with
    | nil =>
      obtain ⟨x, xs, head, other⟩ := head_of_escapes (escapes_escaped c)
      rw [List.flatMap_cons, head] at same
      cases same
      exact absurd rfl other
    | cons d ds =>
      rw [List.flatMap_cons, List.flatMap_cons, List.append_assoc, List.append_assoc] at same
      obtain ⟨rfl, others⟩ := escapes_inj (escapes_escaped c) (escapes_escaped d) same
      obtain ⟨rfl, rest⟩ := ih others
      exact ⟨rfl, rest⟩

/-! ### Lines

Between single quotes and in blocks, a line break stands as it is, and a line that is not empty is indented.
-/

/-- What stands before the next character of a text: blanks, if a line begins there. -/
def lead (n : Nat) (broken : Bool) : List Char := if broken then indentation n else []

/-- A character that is written this way, and what follows it, which may begin a line. -/
def put (n : Nat) (write : Char → List Char) (broken : Bool) (c : Char) (rest : Bool → List Char) : List Char :=
  if isBreak c then c :: rest true else lead n broken ++ (write c ++ rest false)

theorem lead_ne_break {broken : Bool} (joined : isBreak d = false) (break' : isBreak c = true) :
    lead n broken ++ d :: r ≠ c :: s := by
  intro same
  have first : d = c ∨ ' ' = c := by
    cases broken with
    | false => exact .inl (List.cons.inj same).1
    | true =>
      cases n with
      | zero => exact .inl (List.cons.inj same).1
      | succ n => exact .inr (List.cons.inj same).1
  rcases first with rfl | rfl
  · rw [joined] at break'
    cases break'
  · cases break'

theorem put_inj {write : Char → List Char} {broken : Bool} {x y : Bool → List Char}
    (head : ∀ c, ∃ xs, write c = c :: xs) (inj : ∀ c d r s, write c ++ r = write d ++ s → c = d ∧ r = s)
    (same : put n write broken c x = put n write broken d y) : c = d ∧ x (isBreak c) = y (isBreak c) := by
  unfold put at same
  cases hc : isBreak c with
  | true =>
    cases hd : isBreak d with
    | true =>
      rw [hc, hd, if_pos rfl, if_pos rfl] at same
      exact List.cons.inj same
    | false =>
      obtain ⟨xs, written⟩ := head d
      rw [hc, hd, if_pos rfl, if_neg Bool.false_ne_true, written] at same
      exact absurd same.symm (lead_ne_break hd hc)
  | false =>
    cases hd : isBreak d with
    | true =>
      obtain ⟨xs, written⟩ := head c
      rw [hc, hd, if_pos rfl, if_neg Bool.false_ne_true, written] at same
      exact absurd same (lead_ne_break hc hd)
    | false =>
      rw [hc, hd, if_neg Bool.false_ne_true, if_neg Bool.false_ne_true] at same
      exact inj c d _ _ (List.append_cancel_left same)

theorem put_append {write : Char → List Char} {broken : Bool} {x : Bool → List Char} :
    put n write broken c x ++ r = put n write broken c fun b => x b ++ r := by
  unfold put
  split
  · rfl
  · rw [List.append_assoc, List.append_assoc]

/-! ### Single quotes -/

def doubled (c : Char) : List Char := if c = '\'' then ['\'', '\''] else [c]

theorem singleFrom_cons (n : Nat) (broken : Bool) (c : Char) (cs : List Char) :
    singleFrom n broken (c :: cs) = put n doubled broken c fun b => singleFrom n b cs := by
  rw [singleFrom, put, lead, doubled, List.append_assoc]

theorem head_doubled (c : Char) : ∃ xs, doubled c = c :: xs := by
  unfold doubled
  by_cases quote : c = '\''
  · rw [if_pos quote, quote]
    exact ⟨_, rfl⟩
  · rw [if_neg quote]
    exact ⟨_, rfl⟩

theorem doubled_inj (c d : Char) (r s : List Char) (same : doubled c ++ r = doubled d ++ s) : c = d ∧ r = s := by
  obtain ⟨xs, hc⟩ := head_doubled c
  obtain ⟨ys, hd⟩ := head_doubled d
  have first : c = d := by
    rw [hc, hd] at same
    exact (List.cons.inj same).1
  subst first
  exact ⟨rfl, List.append_cancel_left same⟩

theorem doubled_ne_end : doubled c ++ r ≠ '\'' :: '\n' :: s := by
  unfold doubled
  by_cases quote : c = '\''
  · rw [if_pos quote]
    intro same
    cases same
  · rw [if_neg quote]
    intro same
    exact quote (List.cons.inj same).1

theorem put_doubled_ne_end {broken : Bool} {x : Bool → List Char} :
    put n doubled broken c x ≠ lead n broken ++ '\'' :: '\n' :: s := by
  unfold put
  cases hc : isBreak c with
  | true =>
    rw [if_pos rfl]
    exact (lead_ne_break rfl hc).symm
  | false =>
    rw [if_neg Bool.false_ne_true]
    intro same
    exact doubled_ne_end (List.append_cancel_left same)

theorem singleFrom_inj {broken : Bool}
    (same : singleFrom n broken cs ++ '\'' :: '\n' :: r = singleFrom n broken ds ++ '\'' :: '\n' :: s) :
    cs = ds ∧ r = s := by
  induction cs generalizing broken ds with
  | nil =>
    cases ds with
    | nil =>
      cases List.append_cancel_left same
      exact ⟨rfl, rfl⟩
    | cons d ds =>
      rw [singleFrom_cons, put_append] at same
      exact absurd same.symm put_doubled_ne_end
  | cons c cs ih =>
    cases ds with
    | nil =>
      rw [singleFrom_cons, put_append] at same
      exact absurd same put_doubled_ne_end
    | cons d ds =>
      rw [singleFrom_cons, singleFrom_cons, put_append, put_append] at same
      obtain ⟨rfl, others⟩ := put_inj head_doubled doubled_inj same
      obtain ⟨rfl, rest⟩ := ih others
      exact ⟨rfl, rest⟩

/-! ### Blocks -/

theorem blockFrom_cons (n : Nat) (broken : Bool) (c : Char) (cs : List Char) :
    blockFrom n broken (c :: cs) = put n (fun c => [c]) broken c fun b => blockFrom n b cs := by
  rw [blockFrom, put, lead]
  rfl

/-- Whether a text ends in a line break, or is empty and follows one. -/
def brokenAfter (broken : Bool) : List Char → Bool
  | [] => broken
  | c :: cs => brokenAfter (isBreak c) cs

theorem brokenAfter_eq (broken : Bool) (cs : List Char) :
    brokenAfter broken cs = (cs.getLast?.map isBreak).getD broken := by
  induction cs generalizing broken with
  | nil => rfl
  | cons c cs ih =>
    rw [brokenAfter, ih]
    cases cs with
    | nil => rfl
    | cons d ds =>
      rw [List.getLast?_cons_cons, List.getLast?_eq_some_getLast (List.cons_ne_nil d ds)]
      rfl

/-- What follows a block does not look like one more line of it. -/
theorem put_ne_solid {x : Bool → List Char} (indented : 0 < n) (solid : Solid s) :
    put n (fun c => [c]) true c x ≠ s := by
  rintro rfl
  unfold put at solid
  cases hc : isBreak c with
  | true =>
    rw [hc, if_pos rfl] at solid
    have := (solid c rfl).2
    rw [hc] at this
    cases this
  | false =>
    rw [hc, if_neg Bool.false_ne_true] at solid
    cases n with
    | zero => exact absurd indented (Nat.lt_irrefl 0)
    | succ n => exact (solid ' ' rfl).1 rfl

theorem blockFrom_inj {broken : Bool} (indented : 0 < n) (hr : Solid r) (hs : Solid s)
    (hc : brokenAfter broken cs = true) (hd : brokenAfter broken ds = true)
    (same : blockFrom n broken cs ++ r = blockFrom n broken ds ++ s) : cs = ds ∧ r = s := by
  induction cs generalizing broken ds with
  | nil =>
    cases ds with
    | nil => exact ⟨rfl, same⟩
    | cons d ds =>
      obtain rfl : broken = true := hc
      rw [blockFrom_cons, put_append] at same
      exact absurd same.symm (put_ne_solid indented hr)
  | cons c cs ih =>
    cases ds with
    | nil =>
      obtain rfl : broken = true := hd
      rw [blockFrom_cons, put_append] at same
      exact absurd same (put_ne_solid indented hs)
    | cons d ds =>
      rw [blockFrom_cons, blockFrom_cons, put_append, put_append] at same
      obtain ⟨rfl, others⟩ := put_inj (fun c => ⟨[], rfl⟩) (fun c d r s same => List.cons.inj same) same
      obtain ⟨rfl, rest⟩ := ih hc hd others
      exact ⟨rfl, rest⟩

def isEnded (cs : List Char) : Bool := (cs.getLast?.map isBreak).getD false

def ended (cs : List Char) : List Char := cs ++ if isEnded cs then [] else ['\n']

theorem blockFrom_concat (broken : Bool) (cs : List Char) :
    blockFrom n broken (cs ++ ['\n']) = blockFrom n broken cs ++ ['\n'] := by
  induction cs generalizing broken with
  | nil => rfl
  | cons c cs ih =>
    rw [List.cons_append, blockFrom_cons, blockFrom_cons, put_append]
    simp only [ih]

theorem blockFrom_ended (broken : Bool) (cs : List Char) :
    blockFrom n broken (ended cs) = blockFrom n broken cs ++ if isEnded cs then [] else ['\n'] := by
  unfold ended
  split
  · rw [List.append_nil, List.append_nil]
  · exact blockFrom_concat broken cs

theorem brokenAfter_ended (cs : List Char) : brokenAfter true (ended cs) = true := by
  rw [brokenAfter_eq]
  unfold ended
  split
  · rename_i done
    rw [List.append_nil]
    unfold isEnded at done
    cases last : cs.getLast? with
    | none => rfl
    | some c =>
      rw [last] at done
      exact done
  · rw [List.getLast?_concat]
    rfl

theorem ended_inj (done : isEnded cs = isEnded ds) (same : ended cs = ended ds) : cs = ds := by
  unfold ended at same
  rw [done] at same
  exact List.append_cancel_right same

theorem blockHead_eq (cs : List Char) : ∃ digit sign, blockHead cs = '|' :: digit ++ sign ∧
    (digit = [] ∨ digit = ['2']) ∧
      (isEnded cs = false ∧ sign = ['-'] ∨ isEnded cs = true ∧ (sign = ['+'] ∨ sign = [])) := by
  have digits (blank : Bool) : (if blank then ['2'] else []) = [] ∨ (if blank then ['2'] else []) = ['2'] := by
    cases blank <;> simp
  refine ⟨_, _, rfl, digits _, ?_⟩
  rw [isEnded, ← List.head?_reverse]
  cases cs.reverse with
  | nil => exact .inl ⟨rfl, rfl⟩
  | cons c back =>
    cases last : isBreak c with
    | false =>
      left
      cases back <;> simp [last]
    | true =>
      right
      cases back <;> simp [last]

theorem not_mem_blockHead : '\n' ∉ blockHead cs := by
  obtain ⟨digit, sign, head, rfl | rfl, ⟨-, rfl⟩ | ⟨-, rfl | rfl⟩⟩ := blockHead_eq cs
  all_goals
    rw [head]
    decide

/-- The sign shows whether the last line of a text is ended. -/
theorem mem_blockHead_iff : '-' ∈ blockHead cs ↔ isEnded cs = false := by
  obtain ⟨digit, sign, head, rfl | rfl, ⟨more, rfl⟩ | ⟨done, rfl | rfl⟩⟩ := blockHead_eq cs
  all_goals simp_all

theorem block_inj (indented : 0 < n) (hr : Solid r) (hs : Solid s)
    (same : blockHead cs ++ '\n' :: (blockFrom n true (ended cs) ++ r) =
      blockHead ds ++ '\n' :: (blockFrom n true (ended ds) ++ s)) : cs = ds ∧ r = s := by
  obtain ⟨head, body⟩ := append_cons_inj not_mem_blockHead not_mem_blockHead same
  obtain ⟨lines, rest⟩ := blockFrom_inj indented hr hs (brokenAfter_ended cs) (brokenAfter_ended ds) body
  have done : isEnded cs = false ↔ isEnded ds = false := by
    rw [← mem_blockHead_iff, head, mem_blockHead_iff]
  refine ⟨ended_inj ?_ lines, rest⟩
  cases hc : isEnded cs with
  | false => exact (done.mp hc).symm
  | true =>
    cases hd : isEnded ds with
    | false => exact hc.symm.trans (done.mpr hd)
    | true => rfl

/-! ### All styles -/

/-- The style that the first character of a scalar shows. -/
def Style.openedBy : Char → Style
  | '\'' => single
  | '"' => double
  | '|' => block
  | _ => plain

theorem writeText_plain (style : styleOf cs = .plain) : writeText n cs ++ r = cs ++ '\n' :: r := by
  rw [writeText, style]
  exact List.append_assoc cs ['\n'] r

theorem writeText_single (style : styleOf cs = .single) :
    writeText n cs ++ r = '\'' :: (singleFrom n false cs ++ '\'' :: '\n' :: r) := by
  rw [writeText, style]
  simp

theorem writeText_double (style : styleOf cs = .double) :
    writeText n cs ++ r = '"' :: (cs.flatMap escaped ++ '"' :: '\n' :: r) := by
  rw [writeText, style]
  simp

theorem writeText_block (style : styleOf cs = .block) :
    writeText n cs ++ r = blockHead cs ++ '\n' :: (blockFrom n true (ended cs) ++ r) := by
  rw [writeText, style, blockFrom_ended, isEnded]
  simp

theorem of_styleOf_eq_plain (style : styleOf cs = .plain) :
    '\n' ∉ cs ∧ isAmbiguous cs = false ∧ hasIndicator cs = false := by
  unfold styleOf at style
  split at style
  · split at style <;> cases style
  rename_i joined
  split at style
  · cases style
  split at style
  · cases style
  rename_i clear
  simp only [Bool.or_eq_true, not_or, Bool.not_eq_true] at clear
  exact ⟨by simpa using joined, clear.1.1.1.1.1, clear.1.1.1.1.2⟩

theorem openedBy_of_plain (style : styleOf cs = .plain) : ∃ x xs, cs = x :: xs ∧ Style.openedBy x = .plain := by
  obtain ⟨-, clear, bare⟩ := of_styleOf_eq_plain style
  cases cs with
  | nil => cases clear
  | cons x xs =>
    refine ⟨x, xs, rfl, ?_⟩
    unfold Style.openedBy
    split
    · cases bare
    · cases bare
    · cases bare
    · rfl

theorem openedBy_writeText (n : Nat) (cs r : List Char) :
    ∃ x xs, writeText n cs ++ r = x :: xs ∧ Style.openedBy x = styleOf cs := by
  cases style : styleOf cs with
  | plain =>
    obtain ⟨x, xs, rfl, opened⟩ := openedBy_of_plain style
    exact ⟨x, _, writeText_plain style, opened⟩
  | single => exact ⟨_, _, writeText_single style, rfl⟩
  | double => exact ⟨_, _, writeText_double style, rfl⟩
  | block =>
    rw [writeText_block style]
    exact ⟨'|', _, rfl, rfl⟩

theorem styleOf_eq_of_writeText (same : writeText n cs ++ r = writeText n ds ++ s) : styleOf cs = styleOf ds := by
  obtain ⟨x, xs, hc, styleC⟩ := openedBy_writeText n cs r
  obtain ⟨y, ys, hd, styleD⟩ := openedBy_writeText n ds s
  rw [hc, hd] at same
  rw [← styleC, ← styleD, (List.cons.inj same).1]

/-- Texts of one line are told apart, whatever follows. -/
theorem writeText_inj_of_plain (hc : styleOf cs = .plain) (same : writeText n cs ++ r = writeText n ds ++ s) :
    cs = ds ∧ r = s := by
  have hd : styleOf ds = .plain := (styleOf_eq_of_writeText same).symm.trans hc
  rw [writeText_plain hc, writeText_plain hd] at same
  exact append_cons_inj (of_styleOf_eq_plain hc).1 (of_styleOf_eq_plain hd).1 same

/-- Texts are told apart whatever they hold, if something solid follows. -/
theorem unambiguous_writeText (indented : 0 < n) : Unambiguous Solid (writeText n) := by
  intro cs ds r s hr hs same
  have styles := styleOf_eq_of_writeText same
  cases hc : styleOf cs with
  | plain => exact writeText_inj_of_plain hc same
  | single =>
    rw [writeText_single hc, writeText_single (styles.symm.trans hc), List.cons.injEq] at same
    exact singleFrom_inj same.2
  | double =>
    rw [writeText_double hc, writeText_double (styles.symm.trans hc), List.cons.injEq] at same
    obtain ⟨rfl, rest⟩ := flatMap_escaped_inj same.2
    exact ⟨rfl, (List.cons.inj rest).2⟩
  | block =>
    rw [writeText_block hc, writeText_block (styles.symm.trans hc)] at same
    exact block_inj indented hr hs same

end Footprint.Yaml
