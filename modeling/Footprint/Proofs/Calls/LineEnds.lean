import Footprint.Proofs.Syntax.Concatenation
import Footprint.Proofs.Syntax.Questions
import Footprint.Proofs.Syntax.Returns
import Footprint.Proofs.Syntax.Validation

/-!
# Constructs with other line ends

A cell whose lines end in a return and a line feed has the same constructs as with line feeds alone, but for text
arguments: those keep each line end of their literals that no backslash takes, as it stands in the source.
-/

namespace Footprint

open Text Syntax

variable {n : Nat}

/-! ### Arguments -/

namespace Argument

/-- The same argument, or a text with so many characters more. -/
inductive Gains (n : Nat) : Argument → Argument → Prop
  | text {v v' : String} : v'.length = v.length + n → (n = 0 → v' = v) → Gains n (.text v) (.text v')
  | other {a : Argument} : (∀ v, a ≠ .text v) → Gains n a a

variable {a b : Argument}

def withoutText : Argument → Argument
  | .text _ => .text ""
  | a => a

theorem Gains.withoutText_eq (h : Gains n a b) : b.withoutText = a.withoutText := by
  cases h <;> rfl

theorem Gains.eq_iff (h : Gains n a b) : b = a ↔ (∃ v, a = .text v) → n = 0 := by
  cases h with
  | text length same =>
    constructor
    · intro eq _
      rw [text.inj eq] at length
      omega
    · exact fun none => congrArg Argument.text (same (none ⟨_, rfl⟩))
  | other noText =>
    constructor
    · rintro - ⟨v, isText⟩
      exact absurd isText (noText v)
    · exact fun _ => rfl

end Argument

def Construct.withoutTexts : Construct → Construct
  | .call f as => .call f (as.map Argument.withoutText)
  | c => c

namespace Syntax.Tree

section Concatenation

variable {α β : Type} {f : α → Option StringLiteral} {g : β → Option StringLiteral} {k : α → Nat} {as : List α} {bs : List β}

theorem isConstant_eq {l l' : Option StringLiteral} (h : StringLiteral.Gains n l l') : isConstant l' = isConstant l := by
  cases h <;> rfl

theorem bytes_eq_iff {l l' : Option StringLiteral} (h : StringLiteral.Gains n l l') : some .bytes = l' ↔ some .bytes = l := by
  cases h <;> simp

theorem length_join (h : List.Forall₂ (fun a b => StringLiteral.Gains (k a) (f a) (g b)) as bs)
    (texts : ∀ a ∈ as, ∃ v, f a = some (.text v)) :
    (String.join ((bs.map g).map textOf)).length = (String.join ((as.map f).map textOf)).length + (as.map k).sum := by
  induction h with
  | nil => rfl
  | @cons a b as bs first _ ih =>
    rw [List.forall_mem_cons] at texts
    obtain ⟨⟨v, isText⟩, texts⟩ := texts
    simp only [List.map_cons, String.join_cons, String.length_append, List.sum_cons, ih texts]
    rw [isText] at first ⊢
    generalize g b = l at first
    cases first with
    | text length =>
      rw [textOf, textOf, length]
      omega
    | other noText => exact absurd rfl (noText v)

theorem concatenation_gains (h : List.Forall₂ (fun a b => StringLiteral.Gains (k a) (f a) (g b)) as bs) :
    Argument.Gains (as.map k).sum (concatenation (as.map f)) (concatenation (bs.map g)) := by
  have all : (bs.map g).all isConstant = (as.map f).all isConstant := by
    rw [List.all_map, List.all_map]
    induction h with
    | nil => rfl
    | cons first _ ih => rw [List.all_cons, List.all_cons, ih, Function.comp, Function.comp, isConstant_eq first]
  have bytes : (bs.map g).contains (some .bytes) = (as.map f).contains (some .bytes) := by
    clear all
    rw [Bool.eq_iff_iff, List.contains_iff_mem, List.contains_iff_mem]
    induction h with
    | nil => rfl
    | cons first _ ih => rw [List.map_cons, List.map_cons, List.mem_cons, List.mem_cons, ih, bytes_eq_iff first]
  rw [concatenation_eq, concatenation_eq, all, bytes]
  by_cases constants : (as.map f).all isConstant = true
  · rw [if_pos constants, if_pos constants]
    by_cases someBytes : (as.map f).contains (some .bytes) = true
    · rw [if_pos someBytes, if_pos someBytes]
      exact .other nofun
    · rw [if_neg someBytes, if_neg someBytes]
      have texts : ∀ a ∈ as, ∃ v, f a = some (.text v) := by
        intro a mem
        have constant := List.all_eq_true.mp constants (f a) (List.mem_map_of_mem mem)
        cases isText : f a with
        | none => rw [isText] at constant; cases constant
        | some l =>
          cases l with
          | text v => exact ⟨v, rfl⟩
          | bytes => exact absurd (List.contains_iff_mem.mpr (isText ▸ List.mem_map_of_mem mem)) someBytes
          | formatted => rw [isText] at constant; cases constant
      refine .text (length_join h texts) fun none => ?_
      have same : bs.map g = as.map f := by
        refine map_eq_of_forall₂ h fun a mem b gains => ?_
        have zero : k a = 0 := List.sum_eq_zero_iff_forall_eq_nat.mp none _ (List.mem_map_of_mem mem)
        generalize g b = l, f a = l' at gains
        cases gains with
        | text _ eq => rw [eq zero]
        | other => rfl
      rw [same]
  · rw [if_neg constants, if_neg constants]
    exact .other nofun

end Concatenation

/-- How many line feeds of its literals come into the value of an argument as they stand. -/
def openBreaks (a : Tree) : Nat := (a.unparenthesized.literals.map fun l => StringLiteral.openBreaks l.spelling).sum

section Nodes

variable {source : List Char} {joins : Prop} {t u : Tree}

/-- Counterparts in a text and in the text with returns. -/
def Returned (source : List Char) (t u : Tree) : Prop := (Mirror.returns source).Nodes t u ∧ u.shownJoins = t.shownJoins

theorem Returned.agree (h : Returned source t u) : Agree t u := .of_nodes h.1 h.2

theorem Returned.gains (h : Returned source t u) (string : t.kind = .string) :
    StringLiteral.Gains (StringLiteral.openBreaks t.spelling) (StringLiteral.ofToken? t.spelling)
      (StringLiteral.ofToken? u.spelling) := by
  obtain ⟨spelled, noReturn, literal⟩ := h.1.literal string
  rw [spelled]
  exact StringLiteral.ofToken?_withReturns literal noReturn

variable (h : Matches (Returned source) joins t u)
include h

theorem bareArgument_gains :
    Argument.Gains (t.literals.map fun l => StringLiteral.openBreaks l.spelling).sum t.bareArgument u.bareArgument := by
  have agree (t u : Tree) (related : Returned source t u) : Agree t u := related.agree
  by_cases string : t.kind = .string
  · have gains := h.1.gains string
    have alone : t.literals = [t] := by simp only [literals, string]
    rw [alone, List.map_singleton, List.sum_singleton, bareArgument, bareArgument, h.1.agree.kind, string]
    dsimp only
    generalize StringLiteral.ofToken? t.spelling = l, StringLiteral.ofToken? u.spelling = l' at gains
    cases gains with
    | text length same => exact .text length same
    | other noText =>
      rcases l with _ | (v | _ | _)
      · exact .other (by simp)
      · exact absurd rfl (noText v)
      · exact .other (by simp)
      · exact .other (by simp)
  by_cases several : t.kind = .concatenatedString
  · have parts : t.literals = t.children.filter (·.kind = .string) := by simp only [literals, several]
    rw [parts, bareArgument, bareArgument, h.1.agree.kind, several]
    refine concatenation_gains ?_
    have strings := h.2.filter (p := fun c => decide (c.kind = .string))
      (fun t u related => by rw [related.agree.kind]) (fun _ => by simp [Tree.kind])
    have all : ∀ a ∈ t.children.filter (·.kind = .string), a.kind = .string := fun a mem => by
      simpa using (List.mem_filter.mp mem).2
    exact ((List.forall₂_and_left _ _).mpr ⟨all, strings⟩).imp fun a b related => related.2.1.gains related.1
  · have none : t.literals = [] := by
      rw [literals]
      split <;> simp_all
    have same := bareArgument_eq agree h (by simp [none])
    rw [same]
    refine .other fun v isText => ?_
    rw [bareArgument] at isText
    split at isText <;> simp_all

theorem argument_gains : Argument.Gains t.openBreaks t.argument u.argument :=
  bareArgument_gains (unparenthesized_matches (fun _ _ related => related.agree) h)

theorem given_gains :
    List.Forall₂ (fun a b => Argument.Gains a.openBreaks a.argument b.argument) t.given u.given :=
  (given_forall₂ (fun _ _ related => related.agree) h).imp fun _ _ related => argument_gains related

theorem withoutTexts_positional :
    u.positional.map Argument.withoutText = t.positional.map Argument.withoutText := by
  rw [positional_eq, positional_eq, comprehends_eq (fun _ _ related => related.agree) h]
  split
  · rfl
  · rw [List.map_map, List.map_map]
    exact map_eq_of_forall₂ (given_gains h) fun a _ b gains => gains.withoutText_eq

omit h in
theorem given_of_comprehends (comprehends : (t.child? .arguments).any (·.kind ≠ .argumentList) = true) : t.given = [] := by
  obtain ⟨a, found, kind⟩ := (Option.any_eq_true _ _).mp comprehends
  rw [given, found]
  exact if_neg (by simpa using kind)

theorem positional_eq_iff :
    u.positional = t.positional ↔ ∀ a ∈ t.given, (∃ v, a.argument = .text v) → a.openBreaks = 0 := by
  rw [positional_eq, positional_eq, comprehends_eq (fun _ _ related => related.agree) h]
  split
  · rename_i comprehends
    rw [given_of_comprehends comprehends]
    simp
  · exact map_eq_iff_of_forall₂ (given_gains h) fun a b gains => gains.eq_iff

omit h in
theorem construct_of_call (isCall : t.kind = .call) : t.construct? = some (.call t.callee t.positional) := by
  simp only [construct?, isCall]

theorem callee_eq_of_returned : u.callee = t.callee := callee_eq (fun _ _ related => related.agree) h

theorem withoutTexts_construct : u.construct?.map Construct.withoutTexts = t.construct?.map Construct.withoutTexts := by
  by_cases isCall : t.kind = .call
  · rw [construct_of_call isCall, construct_of_call (h.1.agree.kind.trans isCall), callee_eq_of_returned h, Option.map_some,
      Option.map_some, Construct.withoutTexts, Construct.withoutTexts, withoutTexts_positional h]
  · rw [construct?_eq (fun _ _ related => related.agree) h fun is => absurd is isCall]

/-- A node has the same construct if it is no call, or one with arguments that gain nothing. -/
theorem construct_eq_iff : u.construct? = t.construct? ↔
    (t.kind = .call → ∀ a ∈ t.given, (∃ v, a.argument = .text v) → a.openBreaks = 0) := by
  by_cases isCall : t.kind = .call
  · rw [construct_of_call isCall, construct_of_call (h.1.agree.kind.trans isCall), callee_eq_of_returned h, Option.some.injEq,
      Construct.call.injEq, positional_eq_iff h]
    simp [isCall]
  · rw [construct?_eq (fun _ _ related => related.agree) h fun is => absurd is isCall]
    simp [isCall]

end Nodes

/-! ### Rules -/

section Rules

variable {source : List Char} {t u : Tree}

theorem lastLine_withReturns (text : List Char) : lastLine (withReturns text) = lastLine text := by
  induction text using List.reverseRecOn with
  | nil => rfl
  | append_singleton text c ih =>
    rw [withReturns_append]
    by_cases feed : c = '\n'
    · rw [feed, withReturns_newline, withReturns_nil, List.append_cons, lastLine_concat, lastLine_concat text,
        if_pos rfl, if_pos rfl]
    · rw [withReturns_cons feed, withReturns_nil, lastLine_concat, lastLine_concat, ih]

theorem Returned.leadsLine (h : Returned source t u) (leads : u.LeadsLine (withReturns source)) :
    t.LeadsLine source ∧ u.start.column = t.start.column := by
  obtain ⟨before, behind, _, _, ⟨split, rfl, rfl⟩, start, start'⟩ := h.1.start
  have offset : source.take t.start.offset = before := by
    rw [start, Position.offset_afterAll, split, Nat.zero_add, List.take_left]
  have offset' : (withReturns source).take u.start.offset = withReturns before := by
    rw [start', Position.offset_afterAll, split, withReturns_append, Nat.zero_add, List.take_left]
  obtain ⟨noExtra, begins⟩ := leads
  rw [← opensLine_iff, opensLine_eq, offset', lastLine_withReturns] at begins
  refine ⟨⟨mt (isExtra_iff h.agree.kind).mpr noExtra, ?_⟩, ?_⟩
  · rw [← opensLine_iff, opensLine_eq, offset, begins]
  · rw [start, start', Position.column_afterAll, Position.column_afterAll, lastLine_withReturns]

theorem Returned.bytes_iff (h : Returned source t u) (string : t.kind = .string) :
    StringLiteral.ofToken? u.spelling = some .bytes ↔ StringLiteral.ofToken? t.spelling = some .bytes := by
  rw [eq_comm, bytes_eq_iff (h.gains string), eq_comm]

theorem Returned.backtick (h : Returned source t u) (string : t.kind = .string) (opens : u.OpensWithBacktick) :
    t.OpensWithBacktick := by
  rw [← isBacktick_iff, isBacktick] at opens ⊢
  rwa [(h.1.literal string).1, find?_withReturns (by decide) (by decide)] at opens

end Rules

end Syntax.Tree

/-! ### Places -/

/-- Whether the literal or text that may be next is also read if lines end in returns. -/
def Syntax.Place.bearsReturns (p : Place) : Bool :=
  if p.isCode then Token.plainString.bearsReturns p.quotes p.past.rest
  else Token.formattedText.bearsReturns p.quotes p.rest

/-- What is asked of a text bears returns where the place does that it is asked at. -/
theorem Syntax.Question.IsAsked.bearsReturns {source : List Char} {s : State} {q : Question} (h : q.IsAsked source s)
    (bears : ∀ p, Reached source p → p.bearsReturns = true) : q.bearsReturns s = true := by
  cases h with
  | @token t p _ reached stands unspaced asked =>
    have bears := bears p reached
    rw [Place.bearsReturns] at bears
    cases t with
    | plainString =>
      have code : p.isCode = true := asked
      rw [if_pos code] at bears
      rwa [← stands.past_gap.1] at bears
    | formattedText =>
      have content : p.isCode = false := by
        have text : p.frames.head? = some .text := asked
        rw [Place.isCode, text]
        rfl
      rwa [content, if_neg Bool.false_ne_true, ← (unspaced rfl).1, ← stands.quotes] at bears
    | _ => rfl
  | @astray t _ tame =>
    cases t with
    | plainString | formattedText => cases tame
    | _ => rfl
  | layout | astrayLayout => rfl

open Tree

/-- What line ends with returns do to a cell that is accepted, as long as all that is asked in its reading bears them: it is
accepted with the same constructs but for text constants, and these are the same if no argument of a call holds a line
feed that is no part of an escape. -/
theorem constructsOf_withReturns_of_asked (source : String) {cs : List Construct} (noReturn : '\r' ∉ source.toList)
    (accepted : constructsOf source = .ok cs)
    (bears : ∀ x ∈ asked grammar (fuelFor source.toList) cell { rest := source.toList }, x.1.bearsReturns x.2 = true) :
    ∃ cs', constructsOf (String.ofList (withReturns source.toList)) = .ok cs' ∧
      cs'.map Construct.withoutTexts = cs.map Construct.withoutTexts ∧
      (cs' = cs ↔ ∀ t, Tree.ofSource? source.toList = some t → ∀ c ∈ t.preorder, c.kind = .call →
        ∀ a ∈ c.given, (∃ v, a.argument = .text v) → a.openBreaks = 0) := by
  obtain ⟨t, read, fine, rfl⟩ := constructsOf_eq_ok_iff.mp accepted
  obtain ⟨u, read', related, children⟩ := (Mirror.keeps_returns noReturn).exists_ofSource?
    (Mirror.cuts_returns (List.nil_append source.toList).symm) bears read
  have kinds (t u : Tree) (related : (Mirror.returns source.toList).Nodes t u) : u.kind = t.kind := related.kind
  have same : Tree.Paired (Returned source.toList) False [t] [u] := by
    have all := Tree.Paired.singleton related children
    exact all.shown kinds (all.joinsShown_eq kinds)
  have agree (t u : Tree) (h : Returned source.toList t u) : Agree t u := h.agree
  have nodes := same.forall₂_preorders
  rw [preorders_singleton, preorders_singleton] at nodes
  have fine' : ∀ n ∈ u.preorder, n.Conforms (withReturns source.toList) := by
    have all := same.conforms agree (fun _ _ _ a _ b h leads => h.leadsLine leads) (fun a b h string => h.bytes_iff string)
      (fun a b h string => h.backtick string) (by rwa [preorders_singleton])
    rwa [preorders_singleton] at all
  refine ⟨u.constructs, constructsOf_eq_ok_iff.mpr ⟨u, ?_, ?_, rfl⟩, ?_, ?_⟩
  · rw [String.toList_ofList, read']
  · rwa [String.toList_ofList]
  · rw [constructs, constructs, List.map_filterMap, List.map_filterMap]
    exact filterMap_eq_of_forall₂ nodes fun a _ b h => withoutTexts_construct h
  · simp only [read, Option.some.injEq, forall_eq']
    refine filterMap_eq_iff_of_forall₂ nodes (fun a b h => ?_) fun a b h => construct_eq_iff h
    have shape := congrArg Option.isSome (withoutTexts_construct h)
    rwa [Option.isSome_map, Option.isSome_map] at shape

/-- The same, as long as the literals in single quotes bear returns. -/
theorem constructsOf_withReturns (source : String) {cs : List Construct} (noReturn : '\r' ∉ source.toList)
    (accepted : constructsOf source = .ok cs) (bears : ∀ p ∈ places source.toList, p.bearsReturns = true) :
    ∃ cs', constructsOf (String.ofList (withReturns source.toList)) = .ok cs' ∧
      cs'.map Construct.withoutTexts = cs.map Construct.withoutTexts ∧
      (cs' = cs ↔ ∀ t, Tree.ofSource? source.toList = some t → ∀ c ∈ t.preorder, c.kind = .call →
        ∀ a ∈ c.given, (∃ v, a.argument = .text v) → a.openBreaks = 0) := by
  apply constructsOf_withReturns_of_asked source noReturn accepted
  intro x mem
  apply (isAsked source.toList _ x mem).bearsReturns
  exact fun p reached => bears p (reached_iff_mem_places.mp reached)

/-- The line end of a text in three quotes comes into its value as the source has it. -/
theorem constructsOf_withReturns_triple :
    '\r' ∉ "f('''a\nb''')".toList ∧ constructsOf "f('''a\nb''')" = .ok [.call (.name "f") [.text "a\nb"]] ∧
      (∀ p ∈ places "f('''a\nb''')".toList, p.bearsReturns = true) ∧
      ∃ cs, constructsOf "f('''a\r\nb''')" = .ok cs ∧ cs ≠ [.call (.name "f") [.text "a\nb"]] := by
  have noReturn : '\r' ∉ "f('''a\nb''')".toList := by decide +kernel
  have accepted : constructsOf "f('''a\nb''')" = .ok [.call (.name "f") [.text "a\nb"]] :=
    constructsOf_of_toOption (by decide +kernel)
  have bears : ∀ p ∈ places "f('''a\nb''')".toList, p.bearsReturns = true := List.all_eq_true.mp (by decide +kernel)
  have open_ : (Tree.ofSource? "f('''a\nb''')".toList).any (fun t => t.preorder.any fun c => decide (c.kind = .call) &&
      c.given.any fun a => a.argument.text?.isSome && decide (a.openBreaks ≠ 0)) = true := by
    decide +kernel
  have image : String.ofList (withReturns "f('''a\nb''')".toList) = "f('''a\r\nb''')" := by decide +kernel
  have returned := constructsOf_withReturns "f('''a\nb''')" noReturn accepted bears
  rw [image] at returned
  obtain ⟨cs, accepted', -, same⟩ := returned
  refine ⟨noReturn, accepted, bears, cs, accepted', fun eq => ?_⟩
  obtain ⟨t, tree, found⟩ := (Option.any_eq_true _ _).mp open_
  simp only [List.any_eq_true, Bool.and_eq_true, decide_eq_true_eq, Option.isSome_iff_exists,
    Argument.text?_eq_some_iff] at found
  obtain ⟨c, memC, isCall, a, memA, isText, some⟩ := found
  exact some (same.mp eq t tree c memC isCall a memA isText)

end Footprint
