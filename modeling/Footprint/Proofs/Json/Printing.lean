import Footprint.Json.Printer
import Footprint.Proofs.Json.Collections
import Mathlib.Data.Nat.Digits.Lemmas

/-!
# Documents that are printed and read

A document is read back from its text if its numbers are natural numbers of 64 bits, or the fraction zero, and it
nests no deeper than the reader goes. The layout has no bearing on it. Texts are induced over by the ways in which
a document can fit a depth, so that each kind of value is read by the reader of one depth less.
-/

namespace Footprint.Json

open Text (isDigit digitValue)

variable {l : Layout} {text w : List Char} {n : Nat}

/-! ### Strings -/

theorem spellsCode_control (h : n < 0x20) : SpellsCode n ['0', '0', hexDigit (n / 16), hexDigit (n % 16)] := by
  have all : ∀ n < 0x20, (∀ d ∈ ['0', '0', hexDigit (n / 16), hexDigit (n % 16)], Text.isHex d = true) ∧
      Text.digitsValue 16 ['0', '0', hexDigit (n / 16), hexDigit (n % 16)] = n := by decide
  exact ⟨rfl, (all n h).1, (all n h).2⟩

theorem spellsChar_escaped (c : Char) : SpellsChar c (escaped c) := by
  unfold escaped
  split
  · subst_vars; exact .quote
  split
  · subst_vars; exact .backslash
  split
  · subst_vars; exact .backspace
  split
  · subst_vars; exact .feed
  split
  · subst_vars; exact .newline
  split
  · subst_vars; exact .return
  split
  · subst_vars; exact .tab
  split
  · rename_i control
    exact .code (spellsCode_control control)
  · rename_i noQuote noBackslash _ _ _ _ _ noControl
    exact .plain (Nat.le_of_not_lt noControl) noQuote noBackslash

theorem spellsChars_escaped (cs : List Char) : SpellsChars cs (cs.flatMap escaped) := by
  induction cs with
  | nil => exact .nil
  | cons c cs ih => exact .cons (spellsChar_escaped c) ih

theorem SpellsCode.isStringBody {ds ts : List Char} (h : SpellsCode n ds) (hts : IsStringBody ts) :
    IsStringBody ('\\' :: 'u' :: (ds ++ ts)) := .code h.1 h.2.1 hts

theorem SpellsChar.isStringBody {c : Char} {t ts : List Char} (h : SpellsChar c t) (hts : IsStringBody ts) :
    IsStringBody (t ++ ts) := by
  cases h with
  | plain noControl noQuote noBackslash => exact .plain noControl noQuote noBackslash hts
  | code spelled => exact spelled.isStringBody hts
  | @pair _ _ _ ds es _ _ _ hds hes =>
    have both := hds.isStringBody (hes.isStringBody hts)
    simpa only [List.cons_append, List.append_assoc] using both
  | _ => exact .escape (by decide) hts

theorem SpellsChars.isStringBody {cs ts : List Char} (h : SpellsChars cs ts) : IsStringBody ts := by
  induction h with
  | nil => exact .nil
  | cons spelled _ ih => exact spelled.isStringBody ih

/-! ### Numbers -/

theorem isDigit_of_mem_digits {d : Char} (h : d ∈ Decimal.digits n) : isDigit d = true := by
  have digit : d.isDigit = true := Nat.isDigit_of_mem_toDigits (by decide) (by decide) h
  simpa [Char.isDigit, isDigit, Char.le_def] using digit

theorem isDigits_digits : IsDigits (Decimal.digits n) := ⟨Nat.toDigits_ne_nil, fun _ => isDigit_of_mem_digits⟩

theorem exists_digits (m : Nat) : ∃ a as, Decimal.digits m = a :: as ∧ isDigit a = true := by
  obtain ⟨a, as, same⟩ := List.exists_cons_of_ne_nil (isDigits_digits (n := m)).1
  exact ⟨a, as, same, isDigit_of_mem_digits (n := m) (by rw [same]; exact List.mem_cons_self)⟩

def valueBehind (n : Nat) (ds : List Char) : Nat := ds.foldl (fun n d => n * 10 + digitValue d) n

theorem le_valueBehind {ds : List Char} : n ≤ valueBehind n ds := by
  induction ds generalizing n with
  | nil => exact Nat.le_refl n
  | cons d ds ih =>
    have step : n ≤ n * 10 + digitValue d := by omega
    exact Nat.le_trans step ih

theorem valueBehind_digits : valueBehind 0 (Decimal.digits n) = n := by
  have whole : Nat.ofDigitChars 10 (Decimal.digits n) 0 = n := Nat.ofDigitChars_ten_toDigits
  conv => rhs; rw [← whole]
  refine List.foldl_ext _ _ _ fun m d mem => ?_
  have small : d ≤ '9' := (Bool.and_eq_true_iff.mp (isDigit_of_mem_digits mem)).2 |> of_decide_eq_true
  rw [digitValue, if_pos small, Nat.mul_comm]

theorem head?_digits (positive : 0 < n) : (Decimal.digits n).head? ≠ some '0' := by
  induction n using Nat.strongRecOn with
  | ind n ih =>
    rw [Decimal.digits, Nat.toDigits_eq_if (by decide)]
    split
    · have all : ∀ m < 10, 0 < m → [m.digitChar].head? ≠ some '0' := by decide
      exact all n ‹_› positive
    · rw [List.head?_append_of_ne_nil _ Nat.toDigits_ne_nil]
      exact ih (n / 10) (by omega) (by omega)

theorem reads_afterWhole (ends : EndsNumber text) : Reads (afterWhole true n) text (.integer n) text := by
  refine reads_peekOrNull.bind ?_
  rw [if_neg ends.1, ends.2]
  exact reads_pure

theorem reads_wholeDigits {ds fuel : List Char} (digits : ∀ d ∈ ds, isDigit d = true) (ends : EndsDigits text)
    (endsNumber : EndsNumber text) (bound : valueBehind n ds < limit64) (enough : ds.length ≤ fuel.length) :
    Reads (wholeDigits true fuel n) (ds ++ text) (.integer (valueBehind n ds)) text := by
  induction ds generalizing n fuel with
  | nil =>
    cases fuel with
    | nil => exact reads_afterWhole endsNumber
    | cons a f =>
      refine reads_peekOrNull.bind ?_
      rw [List.nil_append, ends]
      exact reads_afterWhole endsNumber
  | cons d ds ih =>
    rw [List.forall_mem_cons] at digits
    cases fuel with
    | nil => simp at enough
    | cons a f =>
      refine reads_peekOrNull.bind ?_
      have fits : n * 10 + digitValue d < limit64 := Nat.lt_of_le_of_lt le_valueBehind bound
      rw [List.cons_append, List.headD_cons, if_pos digits.1]
      dsimp only
      rw [if_pos fits]
      exact (reads_advance d).bind (ih digits.2 bound (Nat.le_of_succ_le_succ enough))

theorem reads_number (bound : n < limit64) (stops : Stops text) :
    Reads (number true) (Decimal.digits n ++ text) (.integer n) text := by
  obtain rfl | positive := Nat.eq_zero_or_pos n
  · refine reads_peek.bind ((reads_advance '0').bind (reads_peekOrNull.bind ?_))
    have ends : isDigit (text.headD '\x00') = false := stops.endsDigits
    rw [show ([] : List Char).append text = text from rfl, ends]
    exact reads_afterWhole stops.endsNumber
  · have head := head?_digits positive
    have value := valueBehind_digits (n := n)
    have digits : ∀ d ∈ Decimal.digits n, isDigit d = true := fun d => isDigit_of_mem_digits
    obtain ⟨d, ds, same, digit⟩ := exists_digits n
    rw [same] at head value digits ⊢
    rw [List.forall_mem_cons] at digits
    have first : d ≠ '0' := fun zero => head (congrArg some zero)
    refine reads_peek.bind ?_
    simp only [List.cons_append, List.head?_cons, if_neg first, digit, if_true]
    refine (reads_advance d).bind (Reads.remaining_bind ?_)
    have behind : valueBehind (digitValue d) ds = n := by
      simpa [valueBehind] using value
    rw [← behind] at bound ⊢
    exact reads_wholeDigits digits.2 stops.endsDigits stops.endsNumber bound (by simp)

theorem printReal_zero : printReal 0.0 = ['0', '.', '0'] := by decide

theorem reads_maybeExponent (stops : Stops text) {positive : Bool} {scale : Int} {d : Document}
    (h : Reads (finish positive n scale) text d text) : Reads (maybeExponent positive n scale) text d text := by
  refine reads_peekOrNull.bind ?_
  rw [stops.endsNumber.2]
  exact h

theorem reads_number_zero (stops : Stops text) : Reads (number true) ('0' :: '.' :: '0' :: text) (.real 0.0) text := by
  have zero : Reads (finish true 0 (0 - (0 + 1 : Nat))) text (.real 0.0) text := by
    have scaled : scaled? 8 (Float.ofNat 0) (0 - (0 + 1 : Nat)) = some 0.0 := by decide
    rw [finish, scaled]
    exact reads_pure
  have digits : Reads (fractionDigits ('0' :: text) 0 0) ('0' :: text) (0, 0 + 1, false) text := by
    refine reads_peekOrNull.bind ((reads_advance '0').bind ?_)
    cases text with
    | nil => exact reads_pure
    | cons a text =>
      refine reads_peekOrNull.bind ?_
      have ends : isDigit a = false := stops.endsDigits
      rw [List.headD_cons, ends]
      exact reads_pure
  refine reads_peek.bind ((reads_advance '0').bind (reads_peekOrNull.bind (reads_peekOrNull.bind ?_)))
  refine (reads_advance '.').bind (reads_remaining.bind (digits.bind ?_))
  exact reads_maybeExponent stops zero

/-! ### Values -/

/-- A layout that adds white space only. -/
structure Layout.IsWhite (l : Layout) : Prop where
  newline : ∀ depth, IsSpacing (l.newline depth)
  colon : ∃ w, IsSpacing w ∧ l.colon = ':' :: w

theorem Layout.isWhite_compact : compact.IsWhite := ⟨fun _ => .nil, [], .nil, rfl⟩

theorem Layout.isWhite_pretty : pretty.IsWhite := by
  refine ⟨fun depth c mem => ?_, [' '], fun c mem => .inl (List.mem_singleton.mp mem), rfl⟩
  rcases List.mem_cons.mp mem with rfl | mem
  · exact .inr (.inl rfl)
  · exact .inl (List.eq_of_mem_replicate mem)

/-- A document that nests less deep than some depth, with numbers that can be read back. -/
inductive Fits : Nat → Document → Prop
  | null {n : Nat} : Fits (n + 1) .null
  | bool {n : Nat} (b : Bool) : Fits (n + 1) (.bool b)
  | natural {n m : Nat} : m < limit64 → Fits (n + 1) (.natural m)
  | zero {n : Nat} : Fits (n + 1) (.real 0.0)
  | text {n : Nat} (s : String) : Fits (n + 1) (.text s)
  | list {n : Nat} {ds : List Document} : (∀ d ∈ ds, Fits (n + 1) d) → Fits (n + 2) (.list ds)
  | record {n : Nat} {fs : List (String × Document)} : (∀ x ∈ fs, Fits (n + 1) x.2) → Fits (n + 2) (.record fs)

theorem print_natural {depth m : Nat} : print l depth (.natural m) = Decimal.digits m := by
  have notNegative : decide ((m : Int) < 0) = false := by simp
  rw [Document.natural, print, printInteger, notNegative]
  rfl

/-- A text of a value begins with none of white space and closing brackets. -/
theorem print_head {depth : Nat} {d : Document} (fits : Fits n d) :
    ∃ a as, print l depth d = a :: as ∧ Cursor.isSpace a = false ∧ a ≠ ']' := by
  cases fits with
  | null => exact ⟨_, _, rfl, by decide, by decide⟩
  | bool b => cases b <;> exact ⟨_, _, rfl, by decide, by decide⟩
  | @natural _ m _ =>
    obtain ⟨a, as, same, digit⟩ := exists_digits m
    refine ⟨a, as, print_natural.trans same, ?_⟩
    exact Text.forall_isDigit (p := fun a => Cursor.isSpace a = false ∧ a ≠ ']') (by decide) digit
  | zero => exact ⟨_, _, printReal_zero, by decide, by decide⟩
  | text s => exact ⟨_, _, rfl, by decide, by decide⟩
  | @list _ ds _ =>
    cases ds with
    | nil => exact ⟨_, _, rfl, by decide, by decide⟩
    | cons d ds => exact ⟨_, _, rfl, by decide, by decide⟩
  | @record _ fs _ =>
    cases fs with
    | nil => exact ⟨_, _, rfl, by decide, by decide⟩
    | cons x fs => exact ⟨_, _, rfl, by decide, by decide⟩

def Prints (l : Layout) (depth : Nat) (ds : List Document) (d : Document) (v : List Char) : Prop :=
  d ∈ ds ∧ v = print l depth d

def PrintsField (l : Layout) (depth : Nat) (fs : List (String × Document)) (x : String × Document)
    (v : List Char) : Prop :=
  x ∈ fs ∧ v = printText x.1 ++ l.colon ++ print l depth x.2

theorem spellsAll_printItems (white : l.IsWhite) {depth : Nat} {d : Document} {ds all : List Document} {u w : List Char}
    (sub : ∀ e ∈ d :: ds, e ∈ all) (hu : IsSpacing u) (hw : IsSpacing w) :
    SpellsAll (Prints l depth all) (d :: ds) (u ++ (print l depth d ++ (printItems l depth ds ++ w))) := by
  induction ds generalizing d u with
  | nil => exact .one hu ⟨sub d List.mem_cons_self, rfl⟩ hw
  | cons e ds ih =>
    have rest := ih (fun x mem => sub x (List.mem_cons_of_mem _ mem)) (white.newline depth)
    have whole := SpellsAll.cons hu ⟨sub d List.mem_cons_self, rfl⟩ IsSpacing.nil rest
    simpa [printItems] using whole

theorem spellsAll_printFields (white : l.IsWhite) {depth : Nat} {x : String × Document}
    {fs all : List (String × Document)} {u w : List Char} (sub : ∀ y ∈ x :: fs, y ∈ all) (hu : IsSpacing u)
    (hw : IsSpacing w) : SpellsAll (PrintsField l depth all) (x :: fs)
      (u ++ ((printText x.1 ++ l.colon ++ print l depth x.2) ++ (printFields l depth fs ++ w))) := by
  induction fs generalizing x u with
  | nil => exact .one hu ⟨sub x List.mem_cons_self, rfl⟩ hw
  | cons y fs ih =>
    have rest := ih (fun z mem => sub z (List.mem_cons_of_mem _ mem)) (white.newline depth)
    have whole := SpellsAll.cons hu ⟨sub x List.mem_cons_self, rfl⟩ IsSpacing.nil rest
    simpa [printFields] using whole

theorem exists_print_list (white : l.IsWhite) (depth : Nat) (ds : List Document) :
    ∃ cs, print l depth (.list ds) = '[' :: (cs ++ [']']) ∧ SpellsAll (Prints l (depth + 1) ds) ds cs := by
  cases ds with
  | nil => exact ⟨[], rfl, .nil .nil⟩
  | cons d ds =>
    refine ⟨_, ?_, spellsAll_printItems white (fun _ mem => mem) (white.newline (depth + 1)) (white.newline depth)⟩
    simp [print]

theorem exists_print_record (white : l.IsWhite) (depth : Nat) (fs : List (String × Document)) :
    ∃ cs, print l depth (.record fs) = '\x7b' :: (cs ++ ['\x7d']) ∧
      SpellsAll (PrintsField l (depth + 1) fs) fs cs := by
  cases fs with
  | nil => exact ⟨[], rfl, .nil .nil⟩
  | cons x fs =>
    refine ⟨_, ?_, spellsAll_printFields white (fun _ mem => mem) (white.newline (depth + 1)) (white.newline depth)⟩
    simp [print]

theorem reads_value_digit (hw : IsSpacing w) {a : Char} (digit : isDigit a = true) {as left : List Char} {d : Document}
    (h : Reads (number true) (a :: as) d left) : Reads (value (n + 1)) (w ++ a :: as) d left := by
  have solid : Cursor.isSpace a = false :=
    Text.forall_isDigit (p := fun a => Cursor.isSpace a = false) (by decide) digit
  refine (reads_peekToken_cons hw solid).bind ?_
  split
  all_goals
    rename_i same
    first
    | cases same; done
    | obtain rfl := Option.some.inj same
  iterate 7 exact absurd digit (by decide)
  rw [if_pos digit]
  exact h

/-- A document is read back from its text, in every layout. -/
theorem reads_value (white : l.IsWhite) {d : Document} (fits : Fits n d) {depth : Nat} {w : List Char}
    (hw : IsSpacing w) {text : List Char} (stops : Stops text) :
    Reads (value n) (w ++ (print l depth d ++ text)) d text := by
  induction fits generalizing depth w text with
  | null => exact (reads_peekToken_cons hw rfl).bind ((reads_advance 'n').bind ((reads_word _).bind reads_pure))
  | bool b =>
    cases b with
    | false => exact (reads_peekToken_cons hw rfl).bind ((reads_advance 'f').bind ((reads_word _).bind reads_pure))
    | true => exact (reads_peekToken_cons hw rfl).bind ((reads_advance 't').bind ((reads_word _).bind reads_pure))
  | @natural n m bound =>
    have read := reads_number bound stops
    obtain ⟨a, as, same, digit⟩ := exists_digits m
    rw [same] at read
    rw [print_natural, same]
    exact reads_value_digit hw digit read
  | zero => exact reads_value_digit hw (by decide) (reads_number_zero stops)
  | text s =>
    have whole : print l depth (.text s) ++ text = '"' :: (s.toList.flatMap escaped ++ '"' :: text) := by
      simp [print, printText]
    rw [whole]
    refine (reads_peekToken_cons hw rfl).bind ((reads_advance '"').bind ?_)
    exact (reads_text (spellsChars_escaped s.toList)).bind reads_pure
  | @list n ds fits ih =>
    have items : ReadsItems (Prints l (depth + 1) ds) (value (n + 1)) id := by
      constructor
      · rintro d v ⟨mem, rfl⟩
        exact print_head (fits d mem)
      · rintro d v text ⟨mem, rfl⟩ stops
        exact ih d mem IsSpacing.nil stops
    obtain ⟨cs, same, all⟩ := exists_print_list white depth ds
    rw [same]
    refine (reads_peekToken_cons hw rfl).bind ?_
    have read : Reads (enclosed closeList (Json.items (value (n + 1)))) ('[' :: (cs ++ [']']) ++ text) (ds.map id)
      text := items.reads_list (.brackets all)
    rw [List.map_id] at read
    exact read.bind reads_pure
  | @record n fs fits ih =>
    let entry (key : String) (fields : List (String × Document)) : Reader (List (String × Document)) := do
      colon
      return (key, ← value (n + 1)) :: fields
    let step (fields : List (String × Document)) (x : String × Document) : Option (List (String × Document)) :=
      some (x :: fields)
    have entries : ReadsEntries (PrintsField l (depth + 1) fs) entry step := by
      constructor
      rintro ⟨key, d⟩ v ⟨mem, rfl⟩
      obtain ⟨u, hu, colon⟩ := white.colon
      refine ⟨key.toList.flatMap escaped ++ ['"'] ++ l.colon ++ print l (depth + 1) d, by simp [printText], ?_⟩
      rintro s s' text goes stops
      obtain rfl := Option.some.inj goes
      have read : Reads (value (n + 1)) (u ++ (print l (depth + 1) d ++ text)) d text := ih (key, d) mem hu stops
      rw [colon]
      simp only [List.append_assoc, List.cons_append, List.nil_append]
      refine (reads_text (spellsChars_escaped key.toList)).bind ?_
      exact (reads_colon (w := []) .nil).bind (read.bind reads_pure)
    have goes (read : List (String × Document)) : fs.foldlM step read = some (fs.reverse ++ read) := by
      clear fits ih entries
      induction fs generalizing read with
      | nil => rfl
      | cons x fs later =>
        rw [List.foldlM_cons, List.reverse_cons, List.append_assoc]
        exact later (x :: read)
    obtain ⟨cs, same, all⟩ := exists_print_record white depth fs
    have inside : Reads (Json.entries entry []) (cs ++ '\x7d' :: text) (fs.reverse ++ []) ('\x7d' :: text) :=
      entries.reads_entries all (goes [])
    have read := reads_enclosed_object inside
    have whole : print l depth (.record fs) ++ text = '\x7b' :: (cs ++ '\x7d' :: text) := by simp [same]
    rw [whole]
    refine (reads_peekToken_cons hw rfl).bind (read.bind ?_)
    rw [List.append_nil, List.reverse_reverse]
    exact reads_pure

/-! ### Texts that are JSON -/

theorem SpellsAll.between {α : Type} {Spells : α → List Char → Prop} {P All : List Char → Prop} {xs : List α}
    {cs : List Char} (each : ∀ x v, Spells x v → P v)
    (one : ∀ v w, P v → IsSpacing w → All (v ++ w))
    (cons : ∀ v w u cs, P v → IsSpacing w → IsSpacing u → All cs → All (v ++ (w ++ ',' :: (u ++ cs))))
    (h : SpellsAll Spells xs cs) :
    xs = [] ∧ IsSpacing cs ∨ ∃ u vs, cs = u ++ vs ∧ IsSpacing u ∧ All vs := by
  induction h with
  | nil hw => exact .inl ⟨rfl, hw⟩
  | one hu spelled hw => exact .inr ⟨_, _, rfl, hu, one _ _ (each _ _ spelled) hw⟩
  | cons hu spelled hw _ ih =>
    rcases ih with ⟨empty, -⟩ | ⟨u', vs, rfl, hu', all⟩
    · cases empty
    · exact .inr ⟨_, _, rfl, hu, cons _ _ _ _ (each _ _ spelled) hw hu' all⟩

theorem isKey_printText (white : l.IsWhite) (s : String) : IsKey (printText s ++ l.colon) := by
  obtain ⟨w, hw, colon⟩ := white.colon
  have key := IsKey.mk (spellsChars_escaped s.toList).isStringBody IsSpacing.nil hw
  simpa [printText, colon] using key

/-- The text of a document is JSON, in every layout. -/
theorem isValue_print (white : l.IsWhite) {d : Document} (fits : Fits n d) {depth : Nat} :
    IsValue (print l depth d) := by
  induction fits generalizing depth with
  | null => exact .null
  | bool b =>
    cases b with
    | false => exact .falseWord
    | true => exact .trueWord
  | @natural n m _ =>
    have whole : print l depth (.natural m) = [] ++ (Decimal.digits m ++ ([] ++ [])) := by
      simp [print_natural]
    have digits : IsWhole (Decimal.digits m) := by
      obtain rfl | positive := Nat.eq_zero_or_pos m
      · exact .zero
      · exact .positive isDigits_digits (head?_digits positive)
    rw [whole]
    exact .number (.mk (.inl rfl) digits .none .none)
  | zero =>
    have whole : print l depth (.real 0.0) = [] ++ (['0'] ++ (('.' :: ['0']) ++ [])) := printReal_zero
    rw [whole]
    exact .number (.mk (.inl rfl) .zero (.digits ⟨by decide, by decide⟩) .none)
  | text s => exact .text (spellsChars_escaped s.toList).isStringBody
  | @list n ds fits ih =>
    obtain ⟨cs, same, all⟩ := exists_print_list white depth ds
    rw [same]
    have items : ds = [] ∧ IsSpacing cs ∨ ∃ u vs, cs = u ++ vs ∧ IsSpacing u ∧ AreItems vs := by
      refine all.between (P := IsValue) (fun d v printed => ?_) (fun _ _ => .one) (fun _ _ _ _ => .cons)
      obtain ⟨mem, rfl⟩ := printed
      exact ih d mem
    rcases items with ⟨-, empty⟩ | ⟨u, vs, rfl, hu, items⟩
    · exact .emptyList empty
    · exact .list hu items
  | @record n fs fits ih =>
    obtain ⟨cs, same, all⟩ := exists_print_record white depth fs
    rw [same]
    have fields : fs = [] ∧ IsSpacing cs ∨ ∃ u vs, cs = u ++ vs ∧ IsSpacing u ∧ AreFields vs := by
      refine all.between (P := fun v => ∃ key d, v = key ++ d ∧ IsKey key ∧ IsValue d) (fun x v printed => ?_)
        (fun v w field hw => ?_) (fun v w u cs field hw hu rest => ?_)
      · obtain ⟨mem, rfl⟩ := printed
        exact ⟨_, _, rfl, isKey_printText white x.1, ih x mem⟩
      · obtain ⟨key, d, rfl, hkey, hd⟩ := field
        rw [List.append_assoc]
        exact .one hkey hd hw
      · obtain ⟨key, d, rfl, hkey, hd⟩ := field
        rw [List.append_assoc]
        exact .cons hkey hd hw hu rest
    rcases fields with ⟨-, empty⟩ | ⟨u, vs, rfl, hu, fields⟩
    · exact .emptyObject empty
    · exact .object hu fields

/-- A document is read from its text, which is JSON. -/
theorem ofJson_toJson (white : l.IsWhite) {d : Document} (fits : Fits depthLimit d) :
    IsValue (d.toJson l).toList ∧ Document.ofJson (d.toJson l) = .ok d := by
  constructor
  · rw [Document.toJson, String.toList_ofList]
    exact isValue_print white fits
  · have solid : StartsSolid [] := by rintro a ⟨⟩
    have stops : Stops [] := by rintro a ⟨⟩
    have value : Reads (value depthLimit) ([] ++ (print l 0 d ++ [])) d [] := reads_value white fits .nil stops
    have ended : Reads atEnd ([] ++ []) () [] := (reads_peekToken .nil solid).bind reads_pure
    rw [List.nil_append, List.append_nil] at value
    have read : Reads (do let d ← Json.value depthLimit; atEnd; return d) (print l 0 d) d [] :=
      value.bind (ended.bind reads_pure)
    obtain ⟨c, -, read⟩ := read ⟨print l 0 d, 1, 0⟩ rfl
    rw [Document.ofJson, run, Document.toJson, String.toList_ofList, read]

end Footprint.Json
