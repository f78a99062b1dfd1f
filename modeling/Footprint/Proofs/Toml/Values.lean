import Footprint.Proofs.Toml.Numbers
import Footprint.Proofs.Toml.Shows

/-!
# What readers of TOML yield: values

Any spelling of a value is read to a node that denotes it, if what follows may follow a value. What is shown for the
values in lists and tables carries over to these, so the induction is on how deep they nest.
-/

namespace Footprint.Toml

open Text

variable {text ts t left : List Char} {v : Value} {n : Node}

/-! ### Values that are no list or table -/

theorem Reads.orElse {α : Type} {r s : Reader α} {x : α} (first : r text = none) (second : Reads s text x left) :
    Reads (r <|> s) text x left := by
  show (r text).orElse (fun _ => s text) = some (x, left)
  rw [first]
  exact second

theorem Reads.orElse_first {α : Type} {r s : Reader α} {x : α} (first : Reads r text x left) :
    Reads (r <|> s) text x left := by
  show (r text).orElse (fun _ => s text) = some (x, left)
  rw [first]
  rfl

theorem reads_passBy {after? : List Char → Option (List Char)} (h : after? text = some left) :
    Reads (passBy after?) text () left := by
  rw [Reads, passBy, h, Option.map_some]

def startsNumber (c : Char) : Bool := isSign c || isDigit c || c == 'i' || c == 'n'

theorem startsNumber_of_isDigit {c : Char} (h : isDigit c = true) : startsNumber c = true := by
  simp [startsNumber, h]

theorem startsNumber_sign {sign : List Char} {c : Char} (h : IsSign sign) (first : startsNumber c = true)
    (us : List Char) : ∃ d vs, sign ++ c :: us = d :: vs ∧ startsNumber d = true := by
  rcases h with rfl | rfl | rfl
  · exact ⟨c, us, rfl, first⟩
  · exact ⟨'+', c :: us, rfl, rfl⟩
  · exact ⟨'-', c :: us, rfl, rfl⟩

theorem SpellsDigits.startsNumber {ds : List Char} {sign : List Char} (h : SpellsDigits isDigit ds ts)
    (signed : IsSign sign) (us : List Char) : ∃ d vs, sign ++ (ts ++ us) = d :: vs ∧ Toml.startsNumber d = true := by
  obtain ⟨d, vs, rfl, digit⟩ := h.exists_cons
  exact startsNumber_sign signed (startsNumber_of_isDigit digit) (vs ++ us)

theorem IsInteger.exists_cons (h : IsInteger ts) : ∃ c us, ts = c :: us ∧ startsNumber c = true := by
  cases h with
  | decimal signed whole _ =>
    have first := whole.1.startsNumber signed []
    rwa [List.append_nil] at first
  | hexadecimal _ _ => exact ⟨'0', _, rfl, rfl⟩
  | octal _ _ => exact ⟨'0', _, rfl, rfl⟩
  | binary _ _ => exact ⟨'0', _, rfl, rfl⟩

theorem IsFloat.exists_cons (h : IsFloat ts) : ∃ c us, ts = c :: us ∧ startsNumber c = true := by
  cases h with
  | special signed => exact startsNumber_sign signed rfl _
  | undefined signed => exact startsNumber_sign signed rfl _
  | decimal signed whole _ _ _ _ => exact whole.1.startsNumber signed _

theorem SpellsField.exists_cons {width least most k : Nat} (h : SpellsField (width + 1) least most k ts)
    (us : List Char) : ∃ c vs, ts ++ us = c :: vs ∧ startsNumber c = true := by
  obtain ⟨length, digits, -⟩ := h
  cases ts with
  | nil => cases length
  | cons c ts => exact ⟨c, ts ++ us, rfl, startsNumber_of_isDigit (digits c List.mem_cons_self)⟩

theorem IsDate.exists_cons (h : IsDate ts) (us : List Char) : ∃ c vs, ts ++ us = c :: vs ∧ startsNumber c = true := by
  obtain ⟨year, -, -⟩ := h
  rw [List.append_assoc]
  exact year.exists_cons _

theorem IsTime.exists_cons (h : IsTime ts) : ∃ c vs, ts = c :: vs ∧ startsNumber c = true := by
  obtain ⟨hour, -, -, -⟩ := h
  exact hour.exists_cons _

theorem IsMoment.exists_cons (h : IsMoment ts) : ∃ c us, ts = c :: us ∧ startsNumber c = true := by
  cases h with
  | date date =>
    have first := date.exists_cons []
    rwa [List.append_nil] at first
  | time time => exact time.exists_cons
  | «local» date _ _ => exact date.exists_cons _
  | offset date _ _ _ => exact date.exists_cons _

/-- Reads a date or a time, or else a number. -/
def momentOrNumber : Reader Node := (do passBy afterMoment?; return .moment) <|> (do passBy afterNumber?; return .scalar)

theorem reads_plain_number {c : Char} (h : startsNumber c = true) (read : Reads momentOrNumber (c :: text) n left) :
    Reads plain (c :: text) n left := by
  refine reads_peek.bind ?_
  rw [List.head?_cons]
  split
  · rename_i eq
    cases eq
    cases h
  · rename_i eq
    cases eq
    cases h
  · rename_i eq
    cases eq
    cases h
  · rename_i eq
    cases eq
    cases h
  · exact read

theorem reads_plain_scalar (first : ∃ c us, ts = c :: us ∧ startsNumber c = true) (other : NoMoment (ts ++ text))
    (after : afterNumber? (ts ++ text) = some text) : Reads plain (ts ++ text) .scalar text := by
  obtain ⟨c, us, rfl, start⟩ := first
  refine reads_plain_number start (Reads.orElse ?_ ((reads_passBy after).bind reads_pure))
  show ((afterMoment? (c :: us ++ text)).map _).bind _ = none
  rw [other.afterMoment?_none]
  rfl

theorem SpellsText.exists_cons {s : String} (h : SpellsText s ts) : ∃ c us, ts = c :: us ∧ (c = '"' ∨ c = '\'') := by
  cases h with
  | short short =>
    cases short with
    | basic _ => exact ⟨'"', _, rfl, .inl rfl⟩
    | literal _ _ => exact ⟨'\'', _, rfl, .inr rfl⟩
  | longBasic _ _ => exact ⟨'"', _, rfl, .inl rfl⟩
  | longLiteral _ _ => exact ⟨'\'', _, rfl, .inr rfl⟩

theorem reads_plain (h : SpellsPlain v ts) (ends : EndsValue text) :
    ∃ n, Reads plain (ts ++ text) n text ∧ Denotes v n := by
  obtain ⟨here, -⟩ := id ends
  cases h with
  | @text s _ spelled =>
    refine ⟨.text s, ?_, .text s⟩
    have read : Reads (do return .text (← Toml.text) : Reader Node) (ts ++ text) (.text s) text :=
      (reads_text spelled (here.of (by decide))).bind reads_pure
    obtain ⟨c, us, rfl, rfl | rfl⟩ := spelled.exists_cons
    · exact reads_peek.bind read
    · exact reads_peek.bind read
  | trueWord => exact ⟨.scalar, reads_peek.bind ((reads_passBy (afterWord?_append _)).bind reads_pure), .scalar⟩
  | falseWord => exact ⟨.scalar, reads_peek.bind ((reads_passBy (afterWord?_append _)).bind reads_pure), .scalar⟩
  | integer integer =>
    have other := noMoment_integer integer here
    exact ⟨.scalar, reads_plain_scalar integer.exists_cons other (afterNumber?_integer integer here), .scalar⟩
  | float float =>
    have other : NoMoment (ts ++ text) := noMoment_float float
    exact ⟨.scalar, reads_plain_scalar float.exists_cons other (afterNumber?_float float here), .scalar⟩
  | moment moment =>
    refine ⟨.moment, ?_, .moment⟩
    obtain ⟨c, us, rfl, start⟩ := moment.exists_cons
    have after := afterMoment?_append moment ends
    exact reads_plain_number start (Reads.orElse_first ((reads_passBy after).bind reads_pure))

theorem SpellsPlain.exists_cons (h : SpellsPlain v ts) : ∃ c us, ts = c :: us ∧ c ∉ enders ∧ c ≠ '[' ∧ c ≠ '\x7b' := by
  have number (first : ∃ c us, ts = c :: us ∧ startsNumber c = true) :
      ∃ c us, ts = c :: us ∧ c ∉ enders ∧ c ≠ '[' ∧ c ≠ '\x7b' := by
    obtain ⟨c, us, rfl, start⟩ := first
    have other (d : Char) (h : startsNumber d = false) : c ≠ d := by
      rintro rfl
      rw [start] at h
      cases h
    refine ⟨c, us, rfl, fun mem => ?_, other _ rfl, other _ rfl⟩
    have none : ∀ d ∈ enders, startsNumber d = false := by decide
    exact other c (none c mem) rfl
  cases h with
  | text spelled =>
    obtain ⟨c, us, rfl, rfl | rfl⟩ := spelled.exists_cons
    · exact ⟨_, us, rfl, by decide⟩
    · exact ⟨_, us, rfl, by decide⟩
  | trueWord => exact ⟨_, _, rfl, by decide⟩
  | falseWord => exact ⟨_, _, rfl, by decide⟩
  | integer integer => exact number integer.exists_cons
  | float float => exact number float.exists_cons
  | moment moment => exact number moment.exists_cons

theorem reads_value_plain {depth : Nat} (h : SpellsPlain v ts) (read : Reads plain (ts ++ text) n left) :
    Reads (value (depth + 1)) (ts ++ text) n left := by
  obtain ⟨c, us, rfl, -, bracket, brace⟩ := h.exists_cons
  refine reads_peek.bind ?_
  rw [List.cons_append, List.head?_cons]
  split
  · rename_i same
    exact absurd (Option.some.inj same) bracket
  · rename_i same
    exact absurd (Option.some.inj same) brace
  · exact read

/-! ### What follows a value in a list or a table -/

theorem IsBlanks.isLayout {w : List Char} (h : IsBlanks w) : IsLayout w := by
  induction w with
  | nil => exact .nil
  | cons c w ih => exact .blank (h c List.mem_cons_self) (ih fun d mem => h d (List.mem_cons_of_mem _ mem))

theorem endsToken_cons {c : Char} (h : c ∈ enders) : EndsToken (c :: text) := fun d same => by
  cases same
  exact h

theorem endsValue_cons {c : Char} (h : c ∈ enders) (solid : isBlank c = false) : EndsValue (c :: text) := by
  have here : EndsToken (c :: text) := endsToken_cons h
  refine ⟨here, ?_⟩
  rw [dropWhile_of_head (solid_cons solid)]
  exact here

theorem EndsValue.blank {c : Char} (h : EndsValue text) (blank : isBlank c = true) : EndsValue (c :: text) := by
  constructor
  · refine endsToken_cons ?_
    rcases isBlank_cases blank with rfl | rfl <;> decide
  · rw [List.dropWhile_cons, if_pos blank]
    exact h.2

theorem endsValue_break {m : List Char} (h : IsBreak m) (text : List Char) : EndsValue (m ++ text) := by
  cases h with
  | feed => exact endsValue_cons (by decide) rfl
  | both => exact endsValue_cons (by decide) rfl

theorem EndsValue.layout {w : List Char} (h : EndsValue text) (layout : IsLayout w) : EndsValue (w ++ text) := by
  induction layout with
  | nil => exact h
  | blank blank _ ih => exact ih.blank blank
  | line line _ _ =>
    rw [List.append_assoc]
    exact endsValue_break line _
  | comment comment _ _ _ =>
    obtain ⟨-⟩ := comment
    exact endsValue_cons (by decide) rfl

theorem startsToken_cons {c : Char} (h : c ≠ '\n' ∧ c ≠ '\r' ∧ c ≠ '#' ∧ isBlank c = false) : StartsToken (c :: text) :=
  fun d same => by
    cases same
    exact h

/-! ### Lists and tables -/

def StartsKey (c : Char) : Prop := isBare c = true ∨ c = '"' ∨ c = '\''

theorem SpellsKey.trim {k : Nat} {ks : List String} (h : SpellsKey k ks ts) :
    ∃ u c us, ts = u ++ c :: us ∧ IsBlanks u ∧ SpellsKey k ks (c :: us) ∧ StartsKey c := by
  have first {s : String} {t : List Char} (part : SpellsPart s t) :
      ∃ c us, t = c :: us ∧ StartsKey c := by
    cases part with
    | bare nonempty bare =>
      obtain ⟨c, us, word⟩ := List.exists_cons_of_ne_nil nonempty
      exact ⟨c, us, word, .inl (bare c (word ▸ List.mem_cons_self))⟩
    | quoted short =>
      obtain ⟨c, us, rfl, quote⟩ := (SpellsText.short short).exists_cons
      exact ⟨c, us, rfl, .inr quote⟩
  cases h with
  | last before part behind =>
    obtain ⟨c, us, rfl, start⟩ := first part
    exact ⟨_, c, _, rfl, before, .last isBlanks_nil part behind, start⟩
  | more before part behind others =>
    obtain ⟨c, us, rfl, start⟩ := first part
    exact ⟨_, c, _, rfl, before, .more isBlanks_nil part behind others, start⟩

theorem isBlank_of_startsKey {c : Char} (h : StartsKey c) : isBlank c = false := by
  rcases h with bare | rfl | rfl
  · exact (isBare_ne bare).2.2
  · rfl
  · rfl

/-- What a key begins with is neither a blank nor anything else that a reader looks for before it. -/
theorem ne_of_startsKey {c d : Char} (h : StartsKey c)
    (other : isBare d = false ∧ d ≠ '"' ∧ d ≠ '\'') : c ≠ d := by
  rintro rfl
  rcases h with bare | rfl | rfl
  · rw [bare] at other
    cases other.1
  · exact other.2.1 rfl
  · exact other.2.2 rfl

section

variable {limit : Nat} {Spells : Value → List Char → Prop}

theorem SpellsEntry.trim {f : List String × Value} (h : SpellsEntry limit Spells f ts) :
    ∃ u c us, ts = u ++ c :: us ∧ IsBlanks u ∧ SpellsEntry limit Spells f (c :: us) ∧ StartsKey c := by
  cases h with
  | mk key blanks value =>
    obtain ⟨u, c, us, rfl, before, key, start⟩ := key.trim
    exact ⟨u, c, _, List.append_assoc _ _ _, before, .mk key blanks value, start⟩

theorem SpellsFields.trim {fs : List (List String × Value)} (h : SpellsFields limit Spells fs ts) :
    ∃ u c us, ts = u ++ c :: us ∧ IsBlanks u ∧ SpellsFields limit Spells fs (c :: us) ∧ StartsKey c := by
  cases h with
  | last entry blanks =>
    obtain ⟨u, c, us, rfl, before, entry, start⟩ := entry.trim
    exact ⟨u, c, _, List.append_assoc _ _ _, before, .last entry blanks, start⟩
  | more entry blanks others =>
    obtain ⟨u, c, us, rfl, before, entry, start⟩ := entry.trim
    exact ⟨u, c, _, List.append_assoc _ _ _, before, .more entry blanks others, start⟩

end

/-- A reader that comes through these spellings of values. -/
structure Covers (read : Reader Node) (Spells : Value → List Char → Prop) : Prop where
  starts : ∀ {v ts}, Spells v ts → ∃ c us, ts = c :: us ∧ c ∉ enders
  reads : ∀ {v ts text}, Spells v ts → EndsValue text → ∃ n, Reads read (ts ++ text) n text ∧ Denotes v n

namespace Covers

variable {read : Reader Node} {Spells : Value → List Char → Prop} (covers : Covers read Spells)

include covers

theorem startsToken (h : Spells v ts) (text : List Char) : StartsToken (ts ++ text) := by
  obtain ⟨c, us, rfl, start⟩ := covers.starts h
  have other (d : Char) (mem : d ∈ enders) : c ≠ d := fun same => start (same ▸ mem)
  refine startsToken_cons ⟨other _ (by decide), other _ (by decide), other _ (by decide), ?_⟩
  rw [Bool.eq_false_iff]
  intro blank
  rcases isBlank_cases blank with rfl | rfl
  · exact other ' ' (by decide) rfl
  · exact other '\t' (by decide) rfl

/-- The items of a list are read. The induction is on them, and the fuel bounds the characters that spell them. -/
theorem reads_items {vs : List Value} {f : Nat} (text : List Char) (h : SpellsItems Spells vs ts)
    (enough : ts.length ≤ f) :
    ∃ ns, Reads (itemsFrom read f) (ts ++ text) ns (']' :: text) ∧ DenoteItems vs ns := by
  have closes : StartsToken (']' :: text) := startsToken_cons (by decide)
  induction h generalizing f with
  | close layout =>
    obtain ⟨f, rfl⟩ : ∃ g, f = g + 1 := ⟨f - 1, by simp at enough; omega⟩
    refine ⟨[], ?_, .nil⟩
    rw [List.append_assoc]
    exact (reads_skipLayout layout closes).bind (reads_peek.bind reads_pure)
  | last before spelled behind =>
    obtain ⟨f, rfl⟩ : ∃ g, f = g + 1 := ⟨f - 1, by simp at enough; omega⟩
    simp only [List.append_assoc]
    have ends : EndsValue (']' :: text) := endsValue_cons (by decide) rfl
    obtain ⟨c, us, rfl, start⟩ := covers.starts spelled
    obtain ⟨n, one, denotes⟩ := covers.reads spelled (ends.layout behind)
    refine ⟨[n], (reads_skipLayout before (covers.startsToken spelled _)).bind (reads_peek.bind ?_), .cons denotes .nil⟩
    have item : ¬some c = some ']' := fun same => start (Option.some.inj same ▸ by decide)
    rw [List.cons_append, List.head?_cons, if_neg item]
    refine one.bind ((reads_skipLayout behind closes).bind (reads_peek.bind ?_))
    exact reads_pure
  | @more v vs u t w ts before spelled behind _ ih =>
    simp only [List.append_assoc, List.cons_append] at enough ⊢
    obtain ⟨f, rfl⟩ : ∃ g, f = g + 1 := ⟨f - 1, by simp at enough; omega⟩
    have ends : EndsValue (',' :: (ts ++ text)) := endsValue_cons (by decide) rfl
    obtain ⟨ns, all, denote⟩ := ih (f := f) (by simp at enough; omega)
    obtain ⟨c, us, rfl, start⟩ := covers.starts spelled
    obtain ⟨n, one, denotes⟩ := covers.reads spelled (ends.layout behind)
    refine ⟨n :: ns, (reads_skipLayout before (covers.startsToken spelled _)).bind (reads_peek.bind ?_),
      .cons denotes denote⟩
    have item : ¬some c = some ']' := fun same => start (Option.some.inj same ▸ by decide)
    rw [List.cons_append, List.head?_cons, if_neg item]
    refine one.bind ((reads_skipLayout behind (startsToken_cons (by decide))).bind (reads_peek.bind ?_))
    exact (reads_pass ',').bind (all.bind reads_pure)

theorem reads_list {vs : List Value} (h : SpellsItems Spells vs ts) :
    ∃ n, Reads (list read) ('[' :: (ts ++ text)) n text ∧ Denotes (.list vs) n := by
  have enough : ts.length ≤ (ts ++ text).length := by simp
  obtain ⟨ns, items, denote⟩ := covers.reads_items text h enough
  refine ⟨.list ns, (reads_pass '[').bind ?_, .list denote⟩
  have counted : Reads remaining (ts ++ text) (ts ++ text).length (ts ++ text) := rfl
  refine counted.bind (items.bind ?_)
  exact (reads_skipLayout (w := []) .nil (startsToken_cons (by decide))).bind ((reads_pass ']').bind reads_pure)

theorem reads_field {k : List String} (h : SpellsEntry (depthLimit - 1) Spells (k, v) ts) (ends : EndsValue text) :
    ∃ n, Reads (field read) (ts ++ text) (k, n) text ∧ Denotes v n := by
  cases h with
  | mk key blanks spelled =>
    obtain ⟨n, one, denotes⟩ := covers.reads spelled ends
    have solid : Solid _ := fun c mem => (covers.startsToken spelled text c mem).2.2.2
    have ended (us : List Char) : EndsKey ('=' :: us) := fun c same => by
      cases same
      decide
    refine ⟨n, ?_, denotes⟩
    simp only [List.append_assoc, List.cons_append]
    refine (reads_key key (ended _)).bind ((reads_pass '=').bind ?_)
    exact (reads_skipBlanks blanks solid).bind (one.bind reads_pure)

/-- The fields of a table in braces are read. The induction is on them, and the fuel bounds the characters that spell
them. -/
theorem reads_fields {fs : List (List String × Value)} {f : Nat} (text : List Char)
    (h : SpellsFields (depthLimit - 1) Spells fs ts) (enough : ts.length ≤ f) :
    ∃ gs, Reads (fieldsFrom read f) (ts ++ text) gs ('\x7d' :: text) ∧ DenoteFields fs gs := by
  induction h generalizing f with
  | @last entry t w spelled blanks =>
    obtain ⟨k, v⟩ := entry
    obtain ⟨f, rfl⟩ : ∃ g, f = g + 1 := ⟨f - 1, by simp at enough; omega⟩
    simp only [List.append_assoc]
    have ends : EndsValue ('\x7d' :: text) := endsValue_cons (by decide) rfl
    obtain ⟨n, one, denotes⟩ := covers.reads_field spelled (ends.layout blanks.isLayout)
    refine ⟨[(k, n)], one.bind ((reads_skipBlanks blanks (solid_cons rfl)).bind (reads_peek.bind ?_)),
      .cons denotes .nil⟩
    exact reads_pure
  | @more entry fs t w ts spelled blanks _ ih =>
    obtain ⟨k, v⟩ := entry
    simp only [List.append_assoc, List.cons_append] at enough ⊢
    obtain ⟨f, rfl⟩ : ∃ g, f = g + 1 := ⟨f - 1, by simp at enough; omega⟩
    have ends : EndsValue (',' :: (ts ++ text)) := endsValue_cons (by decide) rfl
    obtain ⟨gs, all, denote⟩ := ih (f := f) (by simp at enough; omega)
    obtain ⟨n, one, denotes⟩ := covers.reads_field spelled (ends.layout blanks.isLayout)
    refine ⟨(k, n) :: gs, one.bind ((reads_skipBlanks blanks (solid_cons rfl)).bind (reads_peek.bind ?_)),
      .cons denotes denote⟩
    exact (reads_pass ',').bind (all.bind reads_pure)

omit covers in
theorem reads_empty {w : List Char} (blanks : IsBlanks w) :
    ∃ n, Reads (braces read) ('\x7b' :: (w ++ '\x7d' :: text)) n text ∧ Denotes (.table []) n := by
  have solid : Solid ('\x7d' :: text) := solid_cons rfl
  refine ⟨.table .inline [], (reads_pass '\x7b').bind ((reads_skipBlanks blanks solid).bind ?_), .table .nil rfl⟩
  refine reads_peek.bind (Reads.bind reads_pure ?_)
  exact (reads_skipBlanks isBlanks_nil solid).bind ((reads_pass '\x7d').bind rfl)

theorem reads_braces {fs : List (List String × Value)} {m : Places} (h : SpellsFields (depthLimit - 1) Spells fs ts)
    (tells : Tells [] .none fs m) :
    ∃ n, Reads (braces read) ('\x7b' :: (ts ++ text)) n text ∧ Denotes (.table fs) n := by
  obtain ⟨u, c, us, rfl, blanks, spelled, start⟩ := h.trim
  have enough : (c :: us).length ≤ (c :: us ++ text).length := by simp
  obtain ⟨gs, fields, denote⟩ := covers.reads_fields text spelled enough
  obtain ⟨n, made, -⟩ := exists_inlineTable tells denote
  refine ⟨_, ?_, .table denote made⟩
  rw [List.append_assoc]
  have solid : Solid (c :: us ++ text) := solid_cons (isBlank_of_startsKey start)
  have counted : Reads remaining (c :: us ++ text) (c :: us ++ text).length (c :: us ++ text) := rfl
  refine (reads_pass '\x7b').bind ((reads_skipBlanks blanks solid).bind (reads_peek.bind ?_))
  have other : ¬(c :: us ++ text).head? = some '\x7d' := fun same =>
    ne_of_startsKey start (by decide) (Option.some.inj same)
  rw [if_neg other]
  refine counted.bind (fields.bind ?_)
  refine (reads_skipBlanks isBlanks_nil (solid_cons rfl)).bind ((reads_pass '\x7d').bind ?_)
  rw [made]
  rfl

end Covers

/-- Values that nest one level deeper are read by the reader for lists and tables of such values. -/
theorem Covers.nested {Spells : Value → List Char → Prop} {depth : Nat} (h : Covers (value (depth + 1)) Spells) :
    Covers (value (depth + 2)) (SpellsNested (depthLimit - 1) Spells) where
  starts spelled := by
    cases spelled with
    | plain plain =>
      obtain ⟨c, us, rfl, start, -⟩ := plain.exists_cons
      exact ⟨c, us, rfl, start⟩
    | list _ => exact ⟨'[', _, rfl, by decide⟩
    | empty _ => exact ⟨'\x7b', _, rfl, by decide⟩
    | table _ _ => exact ⟨'\x7b', _, rfl, by decide⟩
  reads spelled ends := by
    cases spelled with
    | plain plain =>
      obtain ⟨n, read, denotes⟩ := reads_plain plain ends
      exact ⟨n, reads_value_plain plain read, denotes⟩
    | list items =>
      obtain ⟨n, read, denotes⟩ := h.reads_list items
      exact ⟨n, reads_peek.bind read, denotes⟩
    | empty blanks =>
      obtain ⟨n, read, denotes⟩ := reads_empty blanks
      rw [List.cons_append, List.append_assoc]
      exact ⟨n, reads_peek.bind read, denotes⟩
    | table fields tells =>
      obtain ⟨n, read, denotes⟩ := h.reads_braces fields tells
      exact ⟨n, reads_peek.bind read, denotes⟩

/-- All values are read that nest in fewer levels than the reader allows for. The induction is on the number of
levels. -/
theorem covers_value (depth : Nat) : Covers (value (depth + 1)) (SpellsValue (depthLimit - 1) depth) := by
  induction depth with
  | zero =>
    refine ⟨fun spelled => ?_, fun spelled ends => ?_⟩
    · obtain ⟨c, us, rfl, start, -⟩ := SpellsPlain.exists_cons spelled
      exact ⟨c, us, rfl, start⟩
    · obtain ⟨n, read, denotes⟩ := reads_plain spelled ends
      exact ⟨n, reads_value_plain spelled read, denotes⟩
  | succ depth ih => exact ih.nested

end Footprint.Toml
