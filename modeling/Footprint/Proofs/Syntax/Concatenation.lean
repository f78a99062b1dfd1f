import Footprint.Proofs.Syntax.Alike

/-!
# Adjacent literals

Adjacent literals are checked as a whole and folded into one argument, each part being read twice. Both readings agree:
bytes among others are refused, and of what is accepted no part is left out.
-/

namespace Footprint.Syntax.Tree

open StringLiteral

def textOf (l : Option StringLiteral) : String := match l with | some (.text v) => v | _ => ""

def isConstant (l : Option StringLiteral) : Bool := l matches some (.text _) | some .bytes

theorem concatenation_eq (ls : List (Option StringLiteral)) :
    concatenation ls =
      if ls.all isConstant then
        if ls.contains (some .bytes) then .constant else .text (String.join (ls.map textOf))
      else .other := rfl

/-- Nodes that hold these literals in their order, with comments and line joins between them. -/
inductive HoldLiterals : List Tree → List StringLiteral → Prop
  | nil : HoldLiterals [] []
  | extra {t : Tree} {ts : List Tree} {ls : List StringLiteral} : t.IsExtra → HoldLiterals ts ls → HoldLiterals (t :: ts) ls
  | literal {t : Tree} {ts : List Tree} {l : StringLiteral} {ls : List StringLiteral} : t.kind = .string →
    ofToken? t.spelling = some l → HoldLiterals ts ls → HoldLiterals (t :: ts) (l :: ls)

def AreMixed (ls : List StringLiteral) : Prop := .bytes ∈ ls ∧ ∃ l ∈ ls, l ≠ .bytes

variable {t u : Tree} {ts : List Tree} {l : StringLiteral} {ls ls' : List StringLiteral} {source : List Char}

theorem HoldLiterals.parts_eq (h : HoldLiterals ts ls) :
    (ts.filter (·.kind = .string)).map (fun c => ofToken? c.spelling) = ls.map some := by
  induction h with
  | nil => rfl
  | extra isExtra _ ih =>
    have other : ¬_ = Kind.string := fun string => by
      rcases isExtra with kind | kind <;> exact absurd (kind.symm.trans string) (by decide)
    rwa [List.filter_cons_of_neg (by simpa using other)]
  | literal string read _ ih => rw [List.filter_cons_of_pos (by simpa using string), List.map_cons, read, ih, List.map_cons]

theorem mixesBytes_of_holdLiterals (h : HoldLiterals t.children ls) : t.mixesBytes = true ↔ AreMixed ls := by
  rw [mixesBytes, parts, h.parts_eq]
  simp [AreMixed]

/-- Literals that are not mixed are texts, or bytes, or one of them has fields. -/
theorem alike_of_not_areMixed (alike : ¬AreMixed ls) :
    (∃ vs : List String, ls = vs.map .text) ∨ (∀ l ∈ ls, l = .bytes) ∨ .formatted ∈ ls := by
  by_cases bytes : .bytes ∈ ls
  · exact .inr (.inl fun l mem => Decidable.of_not_not fun other => alike ⟨bytes, l, mem, other⟩)
  by_cases formatted : .formatted ∈ ls
  · exact .inr (.inr formatted)
  · refine .inl ?_
    clear alike
    induction ls with
    | nil => exact ⟨[], rfl⟩
    | cons l ls ih =>
      rw [List.mem_cons, not_or] at bytes formatted
      obtain ⟨vs, rfl⟩ := ih bytes.2 formatted.2
      cases l with
      | text v => exact ⟨v :: vs, rfl⟩
      | bytes => exact absurd rfl bytes.1
      | formatted => exact absurd rfl formatted.1

theorem concatenation_texts (vs : List String) :
    concatenation ((vs.map StringLiteral.text).map some) = .text (String.join vs) := by
  have constants : ((vs.map StringLiteral.text).map some).all isConstant = true := by simp [isConstant]
  have noBytes : ((vs.map StringLiteral.text).map some).contains (some .bytes) = false := by simp
  have values : ((vs.map StringLiteral.text).map some).map textOf = vs := by simp [Function.comp_def, textOf]
  rw [concatenation_eq, if_pos constants, noBytes, if_neg Bool.false_ne_true, values]

theorem concatenation_bytes (more : ls ≠ []) (bytes : ∀ l ∈ ls, l = .bytes) : concatenation (ls.map some) = .constant := by
  obtain ⟨l, ls, rfl⟩ := List.exists_cons_of_ne_nil more
  have constants : ((l :: ls).map some).all isConstant = true := by
    refine List.all_eq_true.mpr fun x given => ?_
    obtain ⟨l, mem, rfl⟩ := List.mem_map.mp given
    rw [bytes l mem]
    rfl
  have isBytes : ((l :: ls).map some).contains (some .bytes) = true := by simp [bytes l List.mem_cons_self]
  rw [concatenation_eq, if_pos constants, if_pos isBytes]

theorem concatenation_formatted (formatted : .formatted ∈ ls) : concatenation (ls.map some) = .other := by
  rw [concatenation_eq, if_neg]
  intro all
  have own := List.all_eq_true.mp all (some .formatted) (List.mem_map_of_mem formatted)
  cases own

theorem not_bytes_of_texts {vs : List String} (more : vs.map StringLiteral.text ≠ []) :
    ¬∀ l ∈ vs.map StringLiteral.text, l = .bytes := by
  intro bytes
  obtain ⟨l, mem⟩ := List.exists_mem_of_ne_nil _ more
  obtain ⟨v, -, rfl⟩ := List.mem_map.mp mem
  cases bytes _ mem

theorem formatted_notMem_texts {vs : List String} : .formatted ∉ vs.map StringLiteral.text := by
  intro mem
  obtain ⟨v, -, same⟩ := List.mem_map.mp mem
  cases same

/-- The kind of a concatenation tells the kinds of its parts. -/
theorem concatenation_iff (more : ls ≠ []) (alike : ¬AreMixed ls) :
    (∀ v, concatenation (ls.map some) = .text v ↔ ∃ vs : List String, ls = vs.map .text ∧ v = String.join vs) ∧
      (concatenation (ls.map some) = .constant ↔ ∀ l ∈ ls, l = .bytes) ∧
      (concatenation (ls.map some) = .other ↔ .formatted ∈ ls) := by
  rcases alike_of_not_areMixed alike with ⟨vs, rfl⟩ | bytes | formatted
  · rw [concatenation_texts]
    refine ⟨fun v => ⟨fun same => ⟨vs, rfl, (Argument.text.inj same).symm⟩, ?_⟩,
      iff_of_false nofun (not_bytes_of_texts more), iff_of_false nofun formatted_notMem_texts⟩
    rintro ⟨vs', same, rfl⟩
    rw [List.map_injective_iff.mpr (fun _ _ => StringLiteral.text.inj) same]
  · rw [concatenation_bytes more bytes]
    refine ⟨fun v => iff_of_false nofun ?_, iff_of_true rfl bytes, iff_of_false nofun fun formatted => ?_⟩
    · rintro ⟨vs, rfl, -⟩
      exact not_bytes_of_texts more bytes
    · cases bytes _ formatted
  · rw [concatenation_formatted formatted]
    refine ⟨fun v => iff_of_false nofun ?_, iff_of_false nofun fun bytes => ?_, iff_of_true rfl formatted⟩
    · rintro ⟨vs, rfl, -⟩
      exact formatted_notMem_texts formatted
    · cases bytes _ formatted

theorem argument_of_holdLiterals (kind : t.kind = .concatenatedString) (h : HoldLiterals t.children ls) :
    t.argument = concatenation (ls.map some) := by
  rw [argument, unparenthesized_eq, if_neg (by rw [kind]; decide), bareArgument, kind]
  exact congrArg concatenation h.parts_eq

/-- Adjacent literals are refused if some are bytes and others are not. Otherwise they are accepted, as the text of all
of them, as bytes, or as no constant if one has fields. -/
theorem concatenation_agrees (source : List Char) (kind : t.kind = .concatenatedString) (h : HoldLiterals t.children ls)
    (more : ls ≠ []) :
    (AreMixed ls → t.ownFault? source = some (.mixedBytes, t) ∧ ∀ r : Tree, t ∈ r.preorder → r.fault? source ≠ none) ∧
      (¬AreMixed ls → t.ownFault? source = none ∧
        (∀ v, t.argument = .text v ↔ ∃ vs : List String, ls = vs.map .text ∧ v = String.join vs) ∧
        (t.argument = .constant ↔ ∀ l ∈ ls, l = .bytes) ∧ (t.argument = .other ↔ .formatted ∈ ls)) ∧
      ∀ (u : Tree) (vs vs' : List String), u.kind = .concatenatedString → HoldLiterals u.children (vs'.map .text) →
        ls = vs.map .text → String.join vs' = String.join vs → u.argument = t.argument := by
  have mixes := mixesBytes_of_holdLiterals h
  have value := argument_of_holdLiterals kind h
  have own : t.ownFault? source = if t.mixesBytes then some (.mixedBytes, t) else none := by rw [ownFault?, kind]
  refine ⟨fun mixed => ?_, fun alike => ⟨?_, ?_⟩, ?_⟩
  · rw [mixes.mpr mixed, if_pos rfl] at own
    refine ⟨own, fun r mem fine => ?_⟩
    have conforms := ownFault?_eq_none_iff.mpr (fault?_eq_none_iff.mp fine t mem)
    rw [own] at conforms
    cases conforms
  · rw [own, if_neg (mt mixes.mp alike)]
  · rw [value]
    exact concatenation_iff more alike
  · rintro u vs vs' kind' h' rfl same
    rw [value, argument_of_holdLiterals kind' h', concatenation_texts, concatenation_texts, same]

/-- A raw part and a plain one, with a comment between them, and a part that is bytes in place of the second. -/
theorem concatenation_agrees_parted :
    let part (spelling : String) : Tree := .node .string none {} spelling.toList []
    let comment : Tree := .node .comment none {} [] []
    let texts : Tree := .node .concatenatedString none {} [] [part "r'\\'", comment, part "\"x\""]
    let mixed : Tree := .node .concatenatedString none {} [] [part "r'\\'", comment, part "b\"x\""]
    texts.ownFault? [] = none ∧ texts.argument = .text "\\x" ∧ mixed.ownFault? [] = some (.mixedBytes, mixed) := by
  intro part comment texts mixed
  have holdsTexts : HoldLiterals texts.children [.text "\\", .text "x"] :=
    .literal rfl (by decide +kernel) (.extra (.inl rfl) (.literal rfl (by decide +kernel) .nil))
  have holdsMixed : HoldLiterals mixed.children [.text "\\", .bytes] :=
    .literal rfl (by decide +kernel) (.extra (.inl rfl) (.literal rfl (by decide +kernel) .nil))
  have noBytes : ¬AreMixed [.text "\\", .text "x"] := by
    rintro ⟨bytes, -⟩
    simp at bytes
  have settled := (concatenation_agrees [] rfl holdsTexts (by simp)).2.1 noBytes
  refine ⟨settled.1, ?_, ?_⟩
  · exact (settled.2.1 _).mpr ⟨["\\", "x"], rfl, by decide +kernel⟩
  · exact ((concatenation_agrees [] rfl holdsMixed (by simp)).1 ⟨by simp, .text "\\", by simp⟩).1

end Footprint.Syntax.Tree
