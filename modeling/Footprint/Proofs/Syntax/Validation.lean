import Footprint.Proofs.Syntax.Conformance
import Footprint.Proofs.Syntax.Mirror
import Mathlib.Data.List.Induction

/-!
# Validation

A tree is accepted if all of its nodes keep to their rules. Otherwise the message is about the first node in
pre-order that does not, and names the line and column of the node that shows it; these are counted in the source.
-/

namespace Footprint.Syntax

def lastLine (text : List Char) : List Char := (text.reverse.takeWhile (· ≠ '\n')).reverse

theorem lastLine_concat (text : List Char) (c : Char) :
    lastLine (text ++ [c]) = if c = '\n' then [] else lastLine text ++ [c] := by
  rw [lastLine, List.reverse_append, List.reverse_singleton, List.singleton_append, List.takeWhile_cons]
  by_cases h : c = '\n'
  · rw [if_pos h, h]
    rfl
  · rw [if_neg h, if_pos (by simp [h]), List.reverse_cons, ← lastLine]

theorem lastLine_append (text line : List Char) (noFeed : '\n' ∉ line) : lastLine (text ++ line) = lastLine text ++ line := by
  induction line using List.reverseRecOn with
  | nil => rw [List.append_nil, List.append_nil]
  | append_singleton line c ih =>
    rw [List.mem_append, List.mem_singleton, not_or] at noFeed
    rw [← List.append_assoc, lastLine_concat, if_neg (Ne.symm noFeed.2), ih noFeed.1, List.append_assoc]

theorem lastLine_feed (text more : List Char) : lastLine (text ++ '\n' :: more) = lastLine ('\n' :: more) := by
  induction more using List.reverseRecOn with
  | nil =>
    rw [lastLine_concat, if_pos rfl]
    rfl
  | append_singleton more c ih =>
    rw [← List.cons_append, ← List.append_assoc, lastLine_concat, lastLine_concat, ih]

theorem Tree.opensLine_eq (source : List Char) (t : Tree) :
    t.opensLine source = (lastLine (source.take t.start.offset)).all Text.isBlank := by
  rw [opensLine, lastLine, List.all_reverse]

namespace Position

theorem row_afterAll (p : Position) (text : List Char) : (p.afterAll text).row = p.row + text.count '\n' := by
  induction text generalizing p with
  | nil => rfl
  | cons c text ih =>
    rw [afterAll_cons, ih, List.count_cons, after]
    by_cases h : c = '\n'
    · simp only [h, if_true, beq_self_eq_true]
      omega
    · simp only [h, if_false, beq_iff_eq]
      omega

theorem column_afterAll (text : List Char) :
    (({} : Position).afterAll text).column = Text.byteLength (lastLine text) := by
  induction text using List.reverseRecOn with
  | nil => rfl
  | append_singleton text c ih =>
    rw [afterAll_append, afterAll_cons, afterAll_nil, after, lastLine_concat]
    by_cases h : c = '\n'
    · rw [if_pos h, if_pos h]
      rfl
    · rw [if_neg h, if_neg h, Text.byteLength_append, ← ih]
      rfl

end Position

namespace Mirror

/-- A text is an image of itself, place by place. -/
def self (source : List Char) : Mirror where
  cuts before behind before' behind' := source = before ++ behind ∧ before' = before ∧ behind' = behind
  literals := Eq
  joins := False

variable {source : List Char} {s u : State} {ts : List Tree}

theorem States.eq_self (h : (self source).States s u) : u = s ∧ s.StandsIn source := by
  obtain ⟨before, before', ⟨split, rfl, behind⟩, here, here'⟩ := h.place
  refine ⟨?_, ⟨before', split, here⟩, h.marked⟩
  obtain ⟨suites, quotes, region⟩ := And.intro h.suites (And.intro h.quotes h.region)
  cases s; cases u
  simp_all

theorem States.self (h : s.StandsIn source) : (self source).States s s := by
  obtain ⟨before, split, here⟩ := h.place
  exact ⟨⟨before, before, ⟨split, rfl, rfl⟩, here, here⟩, rfl, rfl, rfl, h.marked⟩

theorem Forests.self (h : ∀ t ∈ ts, t.IsFillerOf {} source) : (self source).Forests ts ts := by
  induction ts with
  | nil => exact .nil
  | cons t ts ih =>
    rw [List.forall_mem_cons] at h
    obtain ⟨⟨k, p, kind, ⟨before, behind, split, rfl⟩, rfl⟩, rest⟩ := h
    refine .cons ⟨rfl, rfl, ⟨before, behind, before, behind, ⟨split, rfl, rfl⟩, rfl, rfl⟩, fun _ => rfl, fun _ => rfl,
      nofun⟩ .nil (ih rest)

theorem keeps_self (source : List Char) : (self source).Keeps fun _ _ => True where
  token {q s u} _ _ h := by
    obtain ⟨rfl, stands⟩ := h.eq_self
    cases read : q.read? u with
    | none => exact .none
    | some p => exact .read (.self (stands.token read).2) (.self (stands.token read).1)
  layout {l s u} _ h := by
    obtain ⟨rfl, stands⟩ := h.eq_self
    cases read : l.read? u with
    | none => exact .none
    | some p => exact .read (.self (stands.layout read).2) (.self (stands.layout read).1)
  name _ h _ _ length length' := by
    obtain ⟨rfl, -⟩ := h.eq_self
    rw [Option.some.inj (length'.symm.trans length)]
  literal _ h _ _ length length' := by
    obtain ⟨rfl, -⟩ := h.eq_self
    rw [Option.some.inj (length'.symm.trans length)]
    rfl
  formatted _ h h' _ _ _ _ _ _ := by
    obtain ⟨rfl, -⟩ := h.eq_self
    obtain ⟨rfl, -⟩ := h'.eq_self
    rfl

end Mirror

namespace Tree

variable {source : List Char} {t : Tree}

/-- Each node of a tree knows the row and the column, in bytes, of the place where it begins. -/
theorem start_of_ofSource? (read : ofSource? source = some t) :
    ∀ n ∈ t.preorder, n.start.row = (source.take n.start.offset).count '\n' ∧
      n.start.column = Text.byteLength (lastLine (source.take n.start.offset)) := by
  obtain ⟨u, -, same⟩ := (Mirror.keeps_self source).exists_ofSource? ⟨rfl, rfl, rfl⟩ (fun _ _ => trivial) read
  intro n mem
  have all := Paired.singleton same.1 same.2
  obtain ⟨v, -, nodes, -⟩ := all.exists_right n (by simpa [preorders] using mem)
  obtain ⟨before, behind, _, _, ⟨split, -, -⟩, start, -⟩ := nodes.start
  have offset : source.take n.start.offset = before := by
    rw [start, Position.offset_afterAll, split, Nat.zero_add, List.take_left]
  rw [offset, start, Position.row_afterAll, Position.column_afterAll]
  exact ⟨Nat.zero_add _, rfl⟩

theorem exists_error_iff {message : String} :
    (∃ e, t.analyze source = .error e ∧ e.message = message) ↔
      ∃ what p, (∃ f, t.fault? source = some (f, p) ∧ f.message = what) ∧
        message = s!"Failed to parse source code: {what} at line {p.row + 1}, column {p.column + 1}" := by
  rw [analyze]
  cases h : t.fault? source with
  | none => simp
  | some q =>
    obtain ⟨f, p⟩ := q
    constructor
    · rintro ⟨e, same, rfl⟩
      obtain rfl := Except.error.inj same
      exact ⟨f.message, p, ⟨f, rfl, rfl⟩, rfl⟩
    · rintro ⟨_, _, ⟨g, same, rfl⟩, rfl⟩
      obtain ⟨rfl, rfl⟩ := Prod.mk.inj (Option.some.inj same)
      exact ⟨.fault f p.row p.column, rfl, rfl⟩

/-- A tree is accepted if all of its nodes keep to their rules. If not, the message is that of the first in pre-order
that does not, with the line and the column of the node that shows it. -/
theorem analyze_reports_first (source : List Char) (t : Tree) :
    ((∃ cs, t.analyze source = .ok cs) ↔ ∀ n ∈ t.preorder, n.Conforms source) ∧
    (∀ message, (∃ e, t.analyze source = .error e ∧ e.message = message) ↔
      ∃ before n after what m, t.preorder = before ++ n :: after ∧ (∀ k ∈ before, k.Conforms source) ∧
        n.Offends source what m ∧
        message = s!"Failed to parse source code: {what} at line {m.start.row + 1}, column {m.start.column + 1}") ∧
    (ofSource? source = some t → ∀ n ∈ t.preorder, n.start.row = (source.take n.start.offset).count '\n' ∧
      n.start.column = Text.byteLength (lastLine (source.take n.start.offset))) := by
  refine ⟨?_, fun message => ?_, start_of_ofSource?⟩
  · rw [← fault?_eq_none_iff, analyze]
    cases h : t.fault? source with
    | none => simp
    | some p => simp
  · rw [exists_error_iff]
    constructor
    · rintro ⟨what, p, fault, rfl⟩
      obtain ⟨before, n, after, m, split, conform, offends, rfl⟩ := fault?_eq_some_iff.mp fault
      exact ⟨before, n, after, what, m, split, conform, offends, rfl⟩
    · rintro ⟨before, n, after, what, m, split, conform, offends, rfl⟩
      exact ⟨what, m.start, fault?_eq_some_iff.mpr ⟨before, n, after, m, split, conform, offends, rfl⟩, rfl⟩

/-- A source is accepted if its tree is read and keeps to the rules. -/
theorem constructsOf_eq_ok_iff {source : String} {cs : List Construct} :
    constructsOf source = .ok cs ↔
      ∃ t, ofSource? source.toList = some t ∧ (∀ n ∈ t.preorder, n.Conforms source.toList) ∧ t.constructs = cs := by
  -- To unfold by an equation would evaluate the grammar.
  delta constructsOf
  cases ofSource? source.toList with
  | none => simp
  | some t =>
    simp only [Option.some.injEq, exists_eq_left']
    rw [analyze, ← fault?_eq_none_iff]
    cases t.fault? source.toList <;> simp

theorem constructsOf_of_toOption {source : String} {cs : List Construct}
    (computed : (constructsOf source).toOption = some cs) : constructsOf source = .ok cs := by
  generalize constructsOf source = outcome at computed ⊢
  cases outcome with
  | error e => cases computed
  | ok ds => rw [Option.some.inj computed]

/-- A positional argument behind a keyword is reported in its line and column, in bytes. -/
theorem analyze_reports_first_positional :
    let source := "f(\n  é=1, b)".toList
    ∃ t, ofSource? source = some t ∧
      (∃ e, t.analyze source = .error e ∧
        e.message = "Failed to parse source code: positional argument follows keyword argument at line 2, column 9") ∧
      ∀ n ∈ t.preorder, n.start.row = (source.take n.start.offset).count '\n' ∧
        n.start.column = Text.byteLength (lastLine (source.take n.start.offset)) := by
  intro source
  have found : (ofSource? source).any (fun t => match t.analyze source with
      | .error e => e == .fault .positionalAfterKeywords 1 8
      | .ok _ => false) = true := by
    decide +kernel
  obtain ⟨t, read, refused⟩ := (Option.any_eq_true _ _).mp found
  refine ⟨t, read, ?_, (analyze_reports_first source t).2.2 read⟩
  split at refused
  · rename_i e error
    refine ⟨e, error, ?_⟩
    rw [eq_of_beq refused]
    decide +kernel
  · cases refused

end Tree

end Footprint.Syntax
