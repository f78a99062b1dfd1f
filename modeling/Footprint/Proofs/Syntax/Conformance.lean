import Footprint.Source
import Footprint.Proofs.Text.Characters

/-!
# What conforms

The rules for trees, each said without the order in which it is checked. A tree is accepted if all its nodes
keep to their rules; otherwise the first node in pre-order that does not is reported, with the first of its
children that shows it.
-/

namespace Footprint.Syntax.Tree

variable {source : List Char} {t m : Tree} {ts before : List Tree} {f : Fault}

/-! ### Lines -/

/-- Only white space stands between a node and the line feed before it, or the beginning of the text. -/
def BeginsLine (source : List Char) (t : Tree) : Prop :=
  ∃ before blanks, source.take t.start.offset = before ++ blanks ∧
    (before = [] ∨ before.getLast? = some '\n') ∧ ∀ c ∈ blanks, Text.isBlank c = true

theorem mem_of_mem_takeWhile_line {c : Char} {u v : List Char} (ends : v = [] ∨ v.head? = some '\n')
    (mem : c ∈ (u ++ v).takeWhile (· ≠ '\n')) : c ∈ u := by
  induction u with
  | nil =>
    rcases ends with rfl | head
    · exact mem
    · cases v with
      | nil => exact mem
      | cons d v =>
        obtain rfl := Option.some.inj head
        rw [List.nil_append, List.takeWhile_cons_of_neg (by simp)] at mem
        exact mem
  | cons d u ih =>
    rw [List.cons_append, List.takeWhile_cons] at mem
    split at mem
    · rcases List.mem_cons.mp mem with rfl | later
      · exact List.mem_cons_self
      · exact List.mem_cons_of_mem d (ih later)
    · cases mem

theorem opensLine_iff : t.opensLine source = true ↔ t.BeginsLine source := by
  rw [opensLine, List.all_eq_true]
  constructor
  · intro blank
    refine ⟨((source.take t.start.offset).reverse.dropWhile (· ≠ '\n')).reverse,
      ((source.take t.start.offset).reverse.takeWhile (· ≠ '\n')).reverse, ?_, ?_, ?_⟩
    · rw [← List.reverse_append, List.takeWhile_append_dropWhile, List.reverse_reverse]
    · rw [List.getLast?_reverse, List.reverse_eq_nil_iff]
      cases h : (source.take t.start.offset).reverse.dropWhile (· ≠ '\n') with
      | nil => exact .inl rfl
      | cons c cs =>
        have stops := List.head?_dropWhile_not (· ≠ '\n') (source.take t.start.offset).reverse
        rw [h] at stops
        exact .inr (congrArg some (by simpa using stops))
    · exact fun c mem => blank c (List.mem_reverse.mp mem)
  · rintro ⟨before, blanks, split, ends, blank⟩ c mem
    rw [split, List.reverse_append] at mem
    refine blank c (List.mem_reverse.mp (mem_of_mem_takeWhile_line ?_ mem))
    rwa [List.reverse_eq_nil_iff, List.head?_reverse]

/-- A statement that comes first on its line. Comments and line joins are none. -/
def LeadsLine (source : List Char) (t : Tree) : Prop := ¬t.IsExtra ∧ t.BeginsLine source

/-- Those of the nodes that come first on their lines stand in this column. -/
def Aligned (source : List Char) (column : Nat) (ts : List Tree) : Prop :=
  ∀ c ∈ ts, c.LeadsLine source → c.start.column = column

theorem leads_iff : (!decide t.IsExtra && t.opensLine source) = true ↔ t.LeadsLine source := by
  rw [Bool.and_eq_true, opensLine_iff, LeadsLine, Bool.not_eq_true', decide_eq_false_iff_not]

/-! ### Arguments -/

/-- Whether one argument may stand anywhere behind another. -/
def MayFollow (a b : Tree) : Prop :=
  (b.kind = .listSplat → a.kind ≠ .dictionarySplat) ∧
    (b.kind ∉ [.comment, .keywordArgument, .dictionarySplat, .listSplat] →
      a.kind ≠ .keywordArgument ∧ a.kind ≠ .dictionarySplat)

/-- What is wrong with an argument behind these. -/
def Misplaces (before : List Tree) (m : Tree) : Fault → Prop
  | .splatAfterKeywords => m.kind = .listSplat ∧ ∃ a ∈ before, a.kind = .dictionarySplat
  | .positionalAfterKeywords =>
    m.kind ∉ [.comment, .keywordArgument, .dictionarySplat, .listSplat] ∧
      ∃ a ∈ before, a.kind = .keywordArgument ∨ a.kind = .dictionarySplat
  | _ => False

/-- What is wrong with an argument, given what has been seen before it. -/
def verdict (keyword doubleSplat : Bool) (a : Tree) : Option Fault :=
  match a.kind with
  | .comment | .keywordArgument | .dictionarySplat => none
  | .listSplat => if doubleSplat then some .splatAfterKeywords else none
  | _ => if keyword || doubleSplat then some .positionalAfterKeywords else none

def sawKeyword (before : List Tree) : Bool := before.any (·.kind = .keywordArgument)

def sawDoubleSplat (before : List Tree) : Bool := before.any (·.kind = .dictionarySplat)

theorem misplaced?_cons (keyword doubleSplat : Bool) (a : Tree) (as : List Tree) :
    misplaced? keyword doubleSplat (a :: as) =
      match verdict keyword doubleSplat a with
      | some f => some (f, a)
      | none => misplaced? (keyword || decide (a.kind = .keywordArgument))
          (doubleSplat || decide (a.kind = .dictionarySplat)) as := by
  rw [misplaced?, verdict]
  cases a.kind <;> cases keyword <;> cases doubleSplat <;> rfl

theorem verdict_eq_some_iff :
    verdict (sawKeyword before) (sawDoubleSplat before) m = some f ↔ Misplaces before m f := by
  have keyword : sawKeyword before = true ↔ ∃ a ∈ before, a.kind = .keywordArgument := by simp [sawKeyword]
  have double : sawDoubleSplat before = true ↔ ∃ a ∈ before, a.kind = .dictionarySplat := by simp [sawDoubleSplat]
  have either : (sawKeyword before || sawDoubleSplat before) = true ↔
      ∃ a ∈ before, a.kind = .keywordArgument ∨ a.kind = .dictionarySplat := by
    rw [Bool.or_eq_true, keyword, double]
    grind
  rw [verdict]
  split
  case h_1 kind | h_2 kind | h_3 kind => cases f <;> simp [Misplaces, kind]
  case h_4 kind =>
    rw [Option.ite_none_right_eq_some, double, Option.some.injEq]
    constructor
    · rintro ⟨seen, rfl⟩
      exact ⟨kind, seen⟩
    · intro misplaced
      cases f with
      | splatAfterKeywords => exact ⟨misplaced.2, rfl⟩
      | positionalAfterKeywords => exact absurd (by simp [kind]) misplaced.1
      | _ => cases misplaced
  case h_5 comment keyword_ double_ splat =>
    rw [Option.ite_none_right_eq_some, either, Option.some.injEq]
    constructor
    · rintro ⟨seen, rfl⟩
      exact ⟨by simpa using ⟨comment, keyword_, double_, splat⟩, seen⟩
    · intro misplaced
      cases f with
      | splatAfterKeywords => exact absurd misplaced.1 splat
      | positionalAfterKeywords => exact ⟨misplaced.2, rfl⟩
      | _ => cases misplaced

theorem verdict_eq_none_iff :
    verdict (sawKeyword before) (sawDoubleSplat before) m = none ↔ ∀ a ∈ before, MayFollow a m := by
  rw [Option.eq_none_iff_forall_not_mem]
  simp only [Option.mem_def, verdict_eq_some_iff]
  constructor
  · intro placed a mem
    refine ⟨fun splat double => placed .splatAfterKeywords ⟨splat, a, mem, double⟩, fun plain => ⟨?_, ?_⟩⟩
    · exact fun keyword => placed .positionalAfterKeywords ⟨plain, a, mem, .inl keyword⟩
    · exact fun double => placed .positionalAfterKeywords ⟨plain, a, mem, .inr double⟩
  · intro may f misplaced
    cases f with
    | splatAfterKeywords =>
      obtain ⟨splat, a, mem, double⟩ := misplaced
      exact (may a mem).1 splat double
    | positionalAfterKeywords =>
      obtain ⟨plain, a, mem, keyword | double⟩ := misplaced
      · exact ((may a mem).2 plain).1 keyword
      · exact ((may a mem).2 plain).2 double
    | _ => exact misplaced

/-- The check goes on behind arguments that are in order; what it has seen stands for them. -/
theorem misplaced?_spec (ordered : before.Pairwise MayFollow) :
    (misplaced? (sawKeyword before) (sawDoubleSplat before) ts = none ↔ (before ++ ts).Pairwise MayFollow) ∧
    ∀ f m, misplaced? (sawKeyword before) (sawDoubleSplat before) ts = some (f, m) ↔
      ∃ mid after, ts = mid ++ m :: after ∧ (before ++ mid).Pairwise MayFollow ∧ Misplaces (before ++ mid) m f := by
  induction ts generalizing before with
  | nil => simp [misplaced?, ordered]
  | cons a as ih =>
    have seen : sawKeyword (before ++ [a]) = (sawKeyword before || decide (a.kind = .keywordArgument)) ∧
        sawDoubleSplat (before ++ [a]) = (sawDoubleSplat before || decide (a.kind = .dictionarySplat)) := by
      simp [sawKeyword, sawDoubleSplat]
    rw [misplaced?_cons]
    cases h : verdict (sawKeyword before) (sawDoubleSplat before) a with
    | some g =>
      have wrong := verdict_eq_some_iff.mp h
      have apart : ¬∀ b ∈ before, MayFollow b a := by
        rw [← verdict_eq_none_iff, h]
        nofun
      have disorder (us : List Tree) : ¬(before ++ a :: us).Pairwise MayFollow := fun pairs =>
        apart fun b mem => (List.pairwise_append.mp pairs).2.2 b mem a List.mem_cons_self
      refine ⟨by simp [disorder], fun f m => ?_⟩
      constructor
      · intro same
        obtain ⟨rfl, rfl⟩ := Prod.mk.inj (Option.some.inj same)
        exact ⟨[], as, rfl, by simpa using ordered, by simpa using wrong⟩
      · rintro ⟨mid, after, same, pairs, misplaced⟩
        cases mid with
        | nil =>
          obtain ⟨rfl, rfl⟩ := List.cons.inj same
          rw [List.append_nil, ← verdict_eq_some_iff, h] at misplaced
          rw [Option.some.inj misplaced]
        | cons b mid =>
          obtain ⟨rfl, rfl⟩ := List.cons.inj same
          exact absurd pairs (disorder mid)
    | none =>
      have further : (before ++ [a]).Pairwise MayFollow := by
        rw [List.pairwise_append]
        refine ⟨ordered, List.pairwise_singleton _ a, fun b mem c here => ?_⟩
        obtain rfl := List.mem_singleton.mp here
        exact verdict_eq_none_iff.mp h b mem
      obtain ⟨accepts, refuses⟩ := ih further
      rw [seen.1, seen.2] at accepts refuses
      refine ⟨by rw [accepts, List.append_assoc]; rfl, fun f m => ?_⟩
      rw [refuses]
      constructor
      · rintro ⟨mid, after, rfl, pairs, misplaced⟩
        rw [List.append_assoc] at pairs misplaced
        exact ⟨a :: mid, after, rfl, pairs, misplaced⟩
      · rintro ⟨mid, after, same, pairs, misplaced⟩
        cases mid with
        | nil =>
          obtain ⟨rfl, rfl⟩ := List.cons.inj same
          rw [List.append_nil, ← verdict_eq_some_iff, h] at misplaced
          cases misplaced
        | cons b mid =>
          obtain ⟨rfl, rfl⟩ := List.cons.inj same
          refine ⟨mid, after, rfl, ?_, ?_⟩ <;> rw [List.append_assoc] <;> assumption

/-! ### String literals -/

def IsBytes (t : Tree) : Prop := t.kind = .string ∧ StringLiteral.ofToken? t.spelling = some .bytes

def IsNoBytes (t : Tree) : Prop := t.kind = .string ∧ StringLiteral.ofToken? t.spelling ≠ some .bytes

theorem mixesBytes_iff :
    t.mixesBytes = true ↔ ∃ a ∈ t.children, ∃ b ∈ t.children, a.IsBytes ∧ b.IsNoBytes := by
  rw [mixesBytes, parts, Bool.and_eq_true]
  simp only [List.any_map, List.any_filter, List.any_eq_true, Function.comp, Bool.and_eq_true, decide_eq_true_eq,
    beq_iff_eq, bne_iff_ne]
  constructor
  · rintro ⟨⟨a, inA, bytes⟩, b, inB, noBytes⟩
    exact ⟨a, inA, b, inB, bytes, noBytes⟩
  · rintro ⟨a, inA, b, inB, bytes, noBytes⟩
    exact ⟨⟨a, inA, bytes⟩, b, inB, noBytes⟩

def OpensWithBacktick (t : Tree) : Prop :=
  ∃ before after, t.spelling = before ++ '`' :: after ∧ ∀ c ∈ before, c ≠ '\'' ∧ c ≠ '"' ∧ c ≠ '`'

theorem isBacktick_iff : t.isBacktick = true ↔ t.OpensWithBacktick := by
  rw [isBacktick, beq_iff_eq, List.find?_eq_some_iff_append, OpensWithBacktick]
  simp [and_assoc]

/-! ### Rules of nodes -/

/-- A node keeps to the rule of its kind. -/
def Conforms (source : List Char) (t : Tree) : Prop :=
  match t.kind with
  | .module => Aligned source 0 t.children
  | .block => ∃ column, Aligned source column t.children
  | .expressionStatement => ∀ c ∈ t.children, c.kind ≠ .namedExpression
  | .argumentList => t.children.Pairwise MayFollow
  | .concatenatedString => ¬∃ a ∈ t.children, ∃ b ∈ t.children, a.IsBytes ∧ b.IsNoBytes
  | .string => ¬t.OpensWithBacktick
  | .printStatement | .execStatement => False
  | _ => True

/-- How a node breaks its rule, what is said of that, and which node shows it. -/
inductive Offends (source : List Char) (t : Tree) : String → Tree → Prop
  | module {before after : List Tree} {m : Tree} : t.kind = .module → t.children = before ++ m :: after →
    Aligned source 0 before → m.LeadsLine source → m.start.column ≠ 0 → Offends source t "inconsistent indentation" m
  | block {before after : List Tree} {c m : Tree} : t.kind = .block → t.children = before ++ m :: after →
    c ∈ before → c.LeadsLine source → Aligned source c.start.column before → m.LeadsLine source →
    m.start.column ≠ c.start.column → Offends source t "inconsistent indentation" m
  | walrus {before after : List Tree} {m : Tree} : t.kind = .expressionStatement → t.children = before ++ m :: after →
    (∀ c ∈ before, c.kind ≠ .namedExpression) → m.kind = .namedExpression →
    Offends source t "unparenthesized assignment expression" m
  | splat {before after : List Tree} {a m : Tree} : t.kind = .argumentList → t.children = before ++ m :: after →
    before.Pairwise MayFollow → m.kind = .listSplat → a ∈ before → a.kind = .dictionarySplat →
    Offends source t "iterable unpacking follows keyword argument unpacking" m
  | positional {before after : List Tree} {a m : Tree} : t.kind = .argumentList → t.children = before ++ m :: after →
    before.Pairwise MayFollow → m.kind ∉ [.comment, .keywordArgument, .dictionarySplat, .listSplat] → a ∈ before →
    a.kind = .keywordArgument ∨ a.kind = .dictionarySplat →
    Offends source t "positional argument follows keyword argument" m
  | bytes {a b : Tree} : t.kind = .concatenatedString → a ∈ t.children → b ∈ t.children → a.IsBytes → b.IsNoBytes →
    Offends source t "cannot mix bytes and nonbytes literals" t
  | backtick : t.kind = .string → t.OpensWithBacktick → Offends source t "backtick repr" t
  | print : t.kind = .printStatement → Offends source t "Python 2 print statement" t
  | exec : t.kind = .execStatement → Offends source t "Python 2 exec statement" t

/-! ### Indentation -/

theorem mem_lineOpeners {c : Tree} : c ∈ t.lineOpeners source ↔ c ∈ t.children ∧ c.LeadsLine source := by
  rw [lineOpeners, List.mem_filter, leads_iff]

theorem find?_lineOpeners (p : Tree → Bool) :
    (t.lineOpeners source).find? p = some m ↔
      ∃ before after, t.children = before ++ m :: after ∧ m.LeadsLine source ∧ p m = true ∧
        ∀ c ∈ before, c.LeadsLine source → p c = false := by
  simp only [lineOpeners, List.find?_filter, List.find?_eq_some_iff_append, leads_iff, decide_eq_true_eq,
    Bool.not_eq_true', decide_eq_false_iff_not, not_and, Bool.not_eq_true]
  constructor
  · rintro ⟨⟨leads, found⟩, before, after, split, others⟩
    exact ⟨before, after, split, leads, found, others⟩
  · rintro ⟨before, after, split, leads, found, others⟩
    exact ⟨⟨leads, found⟩, before, after, split, others⟩

/-- The first of the statements that lead their lines stands before one that is found later, or is that one. -/
theorem head?_lineOpeners {after : List Tree} (split : t.children = before ++ m :: after) (leads : m.LeadsLine source) :
    (∃ c ∈ before, c.LeadsLine source ∧ (t.lineOpeners source).head? = some c) ∨
      (∀ c ∈ before, ¬c.LeadsLine source) ∧ (t.lineOpeners source).head? = some m := by
  have isLeading : (m :: after).filter (fun c => !decide c.IsExtra && c.opensLine source) =
      m :: after.filter fun c => !decide c.IsExtra && c.opensLine source :=
    List.filter_cons_of_pos (leads_iff.mpr leads)
  rw [lineOpeners, split, List.filter_append, isLeading]
  cases h : before.filter fun c => !decide c.IsExtra && c.opensLine source with
  | nil =>
    refine .inr ⟨fun c mem leads => ?_, rfl⟩
    exact List.filter_eq_nil_iff.mp h c mem (leads_iff.mpr leads)
  | cons c cs =>
    have mem : c ∈ before.filter fun c => !decide c.IsExtra && c.opensLine source := by
      rw [h]
      exact List.mem_cons_self
    obtain ⟨inBefore, leads⟩ := List.mem_filter.mp mem
    exact .inl ⟨c, inBefore, leads_iff.mp leads, rfl⟩

theorem aligned_of_forall {column : Nat}
    (same : ∀ c ∈ ts, c.LeadsLine source → decide (some c.start.column ≠ some column) = false) :
    Aligned source column ts :=
  fun c mem leads => by simpa using same c mem leads

theorem misindented?_module (kind : t.kind = .module) :
    (t.misindented? source = none ↔ Aligned source 0 t.children) ∧
      ∀ m, t.misindented? source = some m ↔ ∃ before after, t.children = before ++ m :: after ∧
        Aligned source 0 before ∧ m.LeadsLine source ∧ m.start.column ≠ 0 := by
  rw [misindented?]
  simp only [kind, if_true]
  refine ⟨?_, fun m => ?_⟩
  · rw [List.find?_eq_none]
    constructor
    · intro none c mem leads
      simpa using none c (mem_lineOpeners.mpr ⟨mem, leads⟩)
    · intro aligned c mem
      simpa using aligned c (mem_lineOpeners.mp mem).1 (mem_lineOpeners.mp mem).2
  · rw [find?_lineOpeners]
    constructor
    · rintro ⟨before, after, split, leads, other, same⟩
      exact ⟨before, after, split, aligned_of_forall same, leads, by simpa using other⟩
    · rintro ⟨before, after, split, aligned, leads, other⟩
      exact ⟨before, after, split, leads, by simpa using other, fun c mem leads => by simpa using aligned c mem leads⟩

theorem misindented?_block (kind : t.kind = .block) :
    (t.misindented? source = none ↔ ∃ column, Aligned source column t.children) ∧
      ∀ m, t.misindented? source = some m ↔ ∃ before after c, t.children = before ++ m :: after ∧ c ∈ before ∧
        c.LeadsLine source ∧ Aligned source c.start.column before ∧ m.LeadsLine source ∧
        m.start.column ≠ c.start.column := by
  have noModule : t.kind ≠ .module := by
    rw [kind]
    decide
  rw [misindented?]
  simp only [if_neg noModule]
  refine ⟨?_, fun m => ?_⟩
  · rw [List.find?_eq_none]
    cases first : (t.lineOpeners source).head? with
    | none =>
      rw [List.head?_eq_none_iff] at first
      rw [first]
      refine iff_of_true nofun ⟨0, fun c mem leads => ?_⟩
      have none := mem_lineOpeners.mpr ⟨mem, leads⟩
      rw [first] at none
      cases none
    | some c =>
      obtain ⟨inChildren, leads⟩ := mem_lineOpeners.mp (List.mem_of_head? first)
      constructor
      · intro none
        exact ⟨c.start.column, fun d mem leads => by simpa using none d (mem_lineOpeners.mpr ⟨mem, leads⟩)⟩
      · rintro ⟨column, aligned⟩ d mem
        have same := aligned d (mem_lineOpeners.mp mem).1 (mem_lineOpeners.mp mem).2
        rw [← aligned c inChildren leads] at same
        simp [same]
  · rw [find?_lineOpeners]
    constructor
    · rintro ⟨before, after, split, leads, other, same⟩
      rcases head?_lineOpeners split leads with ⟨c, mem, first, head⟩ | head
      · rw [head] at other same
        exact ⟨before, after, c, split, mem, first, aligned_of_forall same, leads, by simpa using other⟩
      · rw [head.2] at other
        simp at other
    · rintro ⟨before, after, c, split, mem, first, aligned, leads, other⟩
      have head : (t.lineOpeners source).head?.map (·.start.column) = some c.start.column := by
        rcases head?_lineOpeners split leads with ⟨d, inBefore, leadsD, head⟩ | head
        · rw [head, Option.map_some, aligned d inBefore leadsD]
        · exact absurd first (head.1 c mem)
      rw [head]
      exact ⟨before, after, split, leads, by simpa using other, fun c mem leads => by simpa using aligned c mem leads⟩

theorem ownFault?_eq_none_iff : t.ownFault? source = none ↔ t.Conforms source := by
  rw [ownFault?]
  split <;> rename_i kind <;> (rw [Conforms]; simp only [kind])
  · rw [Option.map_eq_none_iff, (misindented?_module kind).1]
  · rw [Option.map_eq_none_iff, (misindented?_block kind).1]
  · simp
  · exact (misplaced?_spec List.Pairwise.nil).1
  · rw [ite_eq_right_iff, mixesBytes_iff]
    simp
  · rw [ite_eq_right_iff, isBacktick_iff]
    simp
  · simp
  · simp

/-- What is found wrong with a node is how it breaks its rule. -/
theorem ownFault?_eq_some_iff {what : String} :
    (∃ f, t.ownFault? source = some (f, m) ∧ f.message = what) ↔ t.Offends source what m := by
  constructor
  · rintro ⟨f, found, rfl⟩
    rw [ownFault?] at found
    split at found
    case h_1 kind =>
      obtain ⟨n, misindented, same⟩ := Option.map_eq_some_iff.mp found
      obtain ⟨rfl, rfl⟩ := Prod.mk.inj same
      obtain ⟨before, after, split, aligned, leads, other⟩ := ((misindented?_module kind).2 n).mp misindented
      exact .module kind split aligned leads other
    case h_2 kind =>
      obtain ⟨n, misindented, same⟩ := Option.map_eq_some_iff.mp found
      obtain ⟨rfl, rfl⟩ := Prod.mk.inj same
      obtain ⟨before, after, c, split, mem, first, aligned, leads, other⟩ := ((misindented?_block kind).2 n).mp misindented
      exact .block kind split mem first aligned leads other
    case h_3 kind =>
      obtain ⟨n, walrus, same⟩ := Option.map_eq_some_iff.mp found
      obtain ⟨rfl, rfl⟩ := Prod.mk.inj same
      obtain ⟨isWalrus, before, after, split, others⟩ := List.find?_eq_some_iff_append.mp walrus
      exact .walrus kind split (fun c mem => by simpa using others c mem) (by simpa using isWalrus)
    case h_4 kind =>
      obtain ⟨before, after, split, ordered, misplaced⟩ := ((misplaced?_spec List.Pairwise.nil).2 f m).mp found
      rw [List.nil_append] at ordered misplaced
      cases f with
      | splatAfterKeywords =>
        obtain ⟨splat, a, mem, double⟩ := misplaced
        exact .splat kind split ordered splat mem double
      | positionalAfterKeywords =>
        obtain ⟨plain, a, mem, either⟩ := misplaced
        exact .positional kind split ordered plain mem either
      | _ => cases misplaced
    case h_5 kind =>
      rw [Option.ite_none_right_eq_some] at found
      obtain ⟨mixes, same⟩ := found
      obtain ⟨rfl, rfl⟩ := Prod.mk.inj (Option.some.inj same)
      obtain ⟨a, inA, b, inB, bytes, noBytes⟩ := mixesBytes_iff.mp mixes
      exact .bytes kind inA inB bytes noBytes
    case h_6 kind =>
      rw [Option.ite_none_right_eq_some] at found
      obtain ⟨backtick, same⟩ := found
      obtain ⟨rfl, rfl⟩ := Prod.mk.inj (Option.some.inj same)
      exact .backtick kind (isBacktick_iff.mp backtick)
    case h_7 kind =>
      obtain ⟨rfl, rfl⟩ := Prod.mk.inj (Option.some.inj found)
      exact .print kind
    case h_8 kind =>
      obtain ⟨rfl, rfl⟩ := Prod.mk.inj (Option.some.inj found)
      exact .exec kind
    case h_9 => cases found
  · intro offends
    rw [ownFault?]
    cases offends with
    | module kind split aligned leads other =>
      have misindented := ((misindented?_module kind).2 m).mpr ⟨_, _, split, aligned, leads, other⟩
      simp only [kind, misindented]
      exact ⟨_, rfl, rfl⟩
    | block kind split mem first aligned leads other =>
      have misindented := ((misindented?_block kind).2 m).mpr ⟨_, _, _, split, mem, first, aligned, leads, other⟩
      simp only [kind, misindented]
      exact ⟨_, rfl, rfl⟩
    | @walrus before after m kind split others isWalrus =>
      have found : t.children.find? (fun c => decide (c.kind = .namedExpression)) = some m :=
        List.find?_eq_some_iff_append.mpr
          ⟨by simpa using isWalrus, before, after, split, fun c mem => by simpa using others c mem⟩
      simp only [kind, found]
      exact ⟨_, rfl, rfl⟩
    | splat kind split ordered splat mem double =>
      have misplaced := ((misplaced?_spec List.Pairwise.nil).2 .splatAfterKeywords m).mpr
        ⟨_, _, split, ordered, splat, _, mem, double⟩
      simp only [kind]
      exact ⟨_, misplaced, rfl⟩
    | positional kind split ordered plain mem either =>
      have misplaced := ((misplaced?_spec List.Pairwise.nil).2 .positionalAfterKeywords m).mpr
        ⟨_, _, split, ordered, plain, _, mem, either⟩
      simp only [kind]
      exact ⟨_, misplaced, rfl⟩
    | bytes kind inA inB bytes noBytes =>
      simp only [kind, mixesBytes_iff.mpr ⟨_, inA, _, inB, bytes, noBytes⟩, if_true]
      exact ⟨_, rfl, rfl⟩
    | backtick kind backtick =>
      simp only [kind, isBacktick_iff.mpr backtick, if_true]
      exact ⟨_, rfl, rfl⟩
    | print kind =>
      simp only [kind]
      exact ⟨_, rfl, rfl⟩
    | exec kind =>
      simp only [kind]
      exact ⟨_, rfl, rfl⟩

/-! ### Whole trees -/

theorem fault?_eq_none_iff : t.fault? source = none ↔ ∀ n ∈ t.preorder, n.Conforms source := by
  rw [fault?, Option.map_eq_none_iff, List.findSome?_eq_none_iff]
  simp only [ownFault?_eq_none_iff]

/-- The first node in pre-order that breaks its rule is the one reported, where that shows. -/
theorem fault?_eq_some_iff {p : Position} {what : String} :
    (∃ f, t.fault? source = some (f, p) ∧ f.message = what) ↔
      ∃ before n after m, t.preorder = before ++ n :: after ∧ (∀ k ∈ before, k.Conforms source) ∧
        n.Offends source what m ∧ m.start = p := by
  simp only [fault?, Option.map_eq_some_iff, List.findSome?_eq_some_iff, ← ownFault?_eq_none_iff,
    ← ownFault?_eq_some_iff]
  constructor
  · rintro ⟨f, ⟨⟨g, m⟩, ⟨before, n, after, split, found, none⟩, same⟩, message⟩
    obtain ⟨rfl, rfl⟩ := Prod.mk.inj same
    exact ⟨before, n, after, m, split, none, ⟨g, found, message⟩, rfl⟩
  · rintro ⟨before, n, after, m, split, none, ⟨f, found, message⟩, rfl⟩
    exact ⟨f, ⟨(f, m), ⟨before, n, after, split, found, none⟩, rfl⟩, message⟩

end Footprint.Syntax.Tree
