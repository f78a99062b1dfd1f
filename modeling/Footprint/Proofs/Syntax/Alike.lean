import Footprint.Proofs.Syntax.Mirror

/-!
# What like trees tell

Trees whose nodes agree in kind, role and spelling give the same constructs, as far as their literals have the
same values; and if one keeps to the rules, so does the other.
-/

namespace Footprint.Syntax.Tree

/-- Nodes that agree, but for how literals are spelled, and that show as many line joins. Nothing is named by a
literal. -/
structure Agree (t u : Tree) : Prop where
  kind : u.kind = t.kind
  role : u.role = t.role
  spelling : t.kind ≠ .string → u.spelling = t.spelling
  naming : t.role.any Role.isNaming = true → t.kind ≠ .string
  shown : u.shownJoins = t.shownJoins

variable {R : Tree → Tree → Prop} {joins : Prop} {ts us : List Tree} {t u : Tree}

section Lists

variable {α β γ : Type} {Q : α → β → Prop} {l : List α} {l' : List β}

theorem map_eq_of_forall₂ {f : α → γ} {g : β → γ} (h : List.Forall₂ Q l l') (same : ∀ a ∈ l, ∀ b, Q a b → g b = f a) :
    l'.map g = l.map f := by
  induction h with
  | nil => rfl
  | cons first _ ih =>
    rw [List.forall_mem_cons] at same
    rw [List.map_cons, List.map_cons, same.1 _ first, ih same.2]

theorem filterMap_eq_of_forall₂ {f : α → Option γ} {g : β → Option γ} (h : List.Forall₂ Q l l')
    (same : ∀ a ∈ l, ∀ b, Q a b → g b = f a) : l'.filterMap g = l.filterMap f := by
  induction h with
  | nil => rfl
  | cons first _ ih =>
    rw [List.forall_mem_cons] at same
    rw [List.filterMap_cons, List.filterMap_cons, same.1 _ first, ih same.2]

theorem map_eq_iff_of_forall₂ {f : α → γ} {g : β → γ} {P : α → Prop} (h : List.Forall₂ Q l l')
    (each : ∀ a b, Q a b → (g b = f a ↔ P a)) : l'.map g = l.map f ↔ ∀ a ∈ l, P a := by
  induction h with
  | nil => simp
  | cons first _ ih => rw [List.map_cons, List.map_cons, List.cons.injEq, each _ _ first, ih, List.forall_mem_cons]

theorem filterMap_eq_iff_of_forall₂ {f : α → Option γ} {g : β → Option γ} {P : α → Prop} (h : List.Forall₂ Q l l')
    (kept : ∀ a b, Q a b → (g b).isSome = (f a).isSome) (each : ∀ a b, Q a b → (g b = f a ↔ P a)) :
    l'.filterMap g = l.filterMap f ↔ ∀ a ∈ l, P a := by
  induction h with
  | nil => simp
  | @cons a b l l' first _ ih =>
    have keeps := kept a b first
    rw [List.filterMap_cons, List.filterMap_cons, List.forall_mem_cons, ← ih, ← each a b first]
    cases left : f a <;> cases right : g b <;> rw [left, right] at keeps
    · simp
    · cases keeps
    · cases keeps
    · simp

theorem map_eq_of_rel {x : Option α} {y : Option β} {f : α → γ} {g : β → γ} (h : Option.Rel Q x y)
    (same : ∀ a ∈ x, ∀ b, Q a b → g b = f a) : y.map g = x.map f := by
  cases h with
  | some first => exact congrArg some (same _ rfl _ first)
  | none => rfl

end Lists

section Parts

variable (agree : ∀ t u, R t u → Agree t u)
include agree

theorem child?_rel (h : Matches R joins t u) (r : Role) : Option.Rel (Matches R joins) (t.child? r) (u.child? r) :=
  h.2.find? (fun t u related => by rw [(agree t u related).role]) (fun _ => by simp [role])

theorem dotted_eq (h : Matches R joins t u) (noString : t.kind ≠ .string) : u.dotted = t.dotted := by
  rw [dotted, dotted, (agree t u h.1).kind, (agree t u h.1).spelling noString]
  have identifiers := h.2.filter (p := fun c => decide (c.kind = .identifier))
    (fun t u related => by rw [(agree t u related).kind]) (fun _ => by simp [kind])
  rw [map_eq_of_forall₂ identifiers fun a mem b related => ?_]
  have isIdentifier : a.kind = .identifier := by simpa using (List.mem_filter.mp mem).2
  rw [(agree a b related.1).spelling (by rw [isIdentifier]; decide)]

theorem kind_ne_string_of_naming {r : Role} (h : Matches R joins t u) (role : t.role = some r)
    (naming : r.isNaming = true) : t.kind ≠ .string :=
  (agree t u h.1).naming (by rw [role]; exact naming)

theorem importedNames_eq (h : Matches R joins t u) : u.importedNames = t.importedNames := by
  have named := h.2.filter (p := fun c => decide (c.role = some .name))
    (fun t u related => by rw [(agree t u related).role]) (fun _ => by simp [role])
  rw [importedNames, importedNames, childrenIn, childrenIn]
  refine filterMap_eq_of_forall₂ named fun a mem b related => ?_
  have isName : a.role = some .name := by simpa using (List.mem_filter.mp mem).2
  rw [(agree a b related.1).kind]
  split
  · rw [dotted_eq agree related (kind_ne_string_of_naming agree related isName rfl)]
  · refine map_eq_of_rel (child?_rel agree related .name) fun c found d related => ?_
    have isName : c.role = some .name := by simpa using List.find?_some found
    exact dotted_eq agree related (kind_ne_string_of_naming agree related isName rfl)
  · rfl

theorem fromModule?_eq (h : Matches R joins t u) : u.fromModule? = t.fromModule? := by
  rw [fromModule?, fromModule?]
  have modules := child?_rel agree h .moduleName
  generalize t.child? .moduleName = x, u.child? .moduleName = y at modules
  cases modules with
  | none => rfl
  | @some a b related =>
    rw [Option.bind_some, Option.bind_some, (agree a b related.1).kind]
    split
    · rename_i kind
      rw [dotted_eq agree related (by rw [kind]; decide)]
    · have names := related.2.find? (p := fun c => decide (c.kind = .dottedName))
        (fun t u related => by rw [(agree t u related).kind]) (fun _ => by simp [kind])
      refine map_eq_of_rel names fun c found d related => ?_
      have isName : c.kind = .dottedName := by simpa using List.find?_some found
      exact dotted_eq agree related (by rw [isName]; decide)
    · rfl

/-! ### Parentheses -/

omit agree in
theorem unparenthesized_eq (t : Tree) :
    t.unparenthesized = if t.kind = .parenthesized then (innermost? t.children).getD t else t := by
  cases t
  rw [unparenthesized]
  rfl

omit agree in
theorem innermost?_cons (t : Tree) (ts : List Tree) :
    innermost? (t :: ts) = if t.kind = .comment then innermost? ts else some t.unparenthesized := by
  rw [innermost?]

theorem unparenthesized_of_innermost (h : Matches R joins t u)
    (inner : joinsIn (leadingExtras u.children) = joinsIn (leadingExtras t.children) →
      Option.Rel (Matches R joins) (innermost? t.children) (innermost? u.children)) :
    Matches R joins t.unparenthesized u.unparenthesized := by
  have related := agree t u h.1
  rw [unparenthesized_eq, unparenthesized_eq, related.kind]
  split
  · rename_i kind
    have shown := related.shown
    rw [shownJoins, shownJoins, related.kind, kind] at shown
    have operands := inner shown
    generalize innermost? t.children = x, innermost? u.children = y at operands
    cases operands with
    | some same => exact same
    | none => exact h
  · exact h

/-- The operand of parentheses has its counterpart, as long as no join is taken for it. -/
theorem innermost?_rel (h : Paired R joins ts us) :
    joinsIn (leadingExtras us) = joinsIn (leadingExtras ts) →
      Option.Rel (Matches R joins) (innermost? ts) (innermost? us) := by
  have kinds (t u : Tree) (related : R t u) : u.kind = t.kind := (agree t u related).kind
  induction h with
  | nil => exact fun _ => .none
  | @cons t u ts us related children rest ih ih' =>
    intro same
    rw [innermost?_cons, innermost?_cons, kinds t u related]
    by_cases comment : t.kind = .comment
    · rw [if_pos comment, if_pos comment]
      have extra : t.IsExtra := .inl comment
      rw [leadingExtras_cons, leadingExtras_cons, if_pos extra, if_pos ((isExtra_iff (kinds t u related)).mpr extra),
        joinsIn_cons, joinsIn_cons, kinds t u related] at same
      exact ih' (Nat.add_right_cancel same)
    · rw [if_neg comment, if_neg comment]
      exact .some (unparenthesized_of_innermost agree ⟨related, children⟩ ih)
  | join _ rest _ =>
    intro same
    have fewer := rest.joinsIn_leadingExtras_le kinds
    rw [leadingExtras_cons, if_pos (.inr rfl), joinsIn_cons, kind, if_pos rfl] at same
    omega

theorem unparenthesized_matches (h : Matches R joins t u) : Matches R joins t.unparenthesized u.unparenthesized :=
  unparenthesized_of_innermost agree h (innermost?_rel agree h.2)

/-! ### Calls -/

theorem callee_eq (h : Matches R joins t u) : u.callee = t.callee := by
  have callees : Option.Rel (Matches R joins) ((t.child? .callee).map unparenthesized)
      ((u.child? .callee).map unparenthesized) := by
    have direct := child?_rel agree h .callee
    generalize t.child? .callee = x, u.child? .callee = y at direct
    cases direct with
    | some same => exact .some (unparenthesized_matches agree same)
    | none => exact .none
  rw [callee, callee]
  generalize (t.child? .callee).map unparenthesized = x, (u.child? .callee).map unparenthesized = y at callees
  cases callees with
  | none => rfl
  | @some a b same =>
    dsimp only
    rw [(agree a b same.1).kind]
    split
    · rw [map_eq_of_rel (child?_rel agree same .member) fun c found d related => ?_]
      have isMember : c.role = some .member := by simpa using List.find?_some found
      rw [(agree c d related.1).spelling (kind_ne_string_of_naming agree related isMember rfl)]
    · rename_i kind
      rw [(agree a b same.1).spelling (by rw [kind]; decide)]
    · rfl

def given (t : Tree) : List Tree :=
  match t.child? .arguments with
  | some a =>
    if a.kind = .argumentList then
      a.children.filter fun c => c.kind ≠ .comment ∧ c.kind ≠ .keywordArgument ∧ c.kind ≠ .dictionarySplat
    else []
  | none => []

def literals (t : Tree) : List Tree :=
  match t.kind with
  | .string => [t]
  | .concatenatedString => t.children.filter (·.kind = .string)
  | _ => []

omit agree in
theorem positional_eq (t : Tree) :
    t.positional = if (t.child? .arguments).any (·.kind ≠ .argumentList) then [.other] else t.given.map argument := by
  rw [positional, given]
  cases t.child? .arguments with
  | none => rfl
  | some a =>
    by_cases kind : a.kind = .argumentList <;> simp [kind]

theorem comprehends_eq (h : Matches R joins t u) :
    (u.child? .arguments).any (·.kind ≠ .argumentList) = (t.child? .arguments).any (·.kind ≠ .argumentList) := by
  have arguments := child?_rel agree h .arguments
  generalize t.child? .arguments = x, u.child? .arguments = y at arguments
  cases arguments with
  | none => rfl
  | some related => rw [Option.any_some, Option.any_some, (agree _ _ related.1).kind]

theorem given_forall₂ (h : Matches R joins t u) : List.Forall₂ (Matches R joins) t.given u.given := by
  rw [given, given]
  have arguments := child?_rel agree h .arguments
  generalize t.child? .arguments = x, u.child? .arguments = y at arguments
  cases arguments with
  | none => exact .nil
  | @some a b same =>
    dsimp only
    rw [(agree a b same.1).kind]
    split
    · rename_i kind
      have shown := (agree a b same.1).shown
      rw [shownJoins, shownJoins, (agree a b same.1).kind, kind] at shown
      have all := same.2.forall₂ (fun t u related => (agree t u related).kind) shown
      refine List.rel_filter (fun c d related => ?_) all
      simp only [(agree c d related.1).kind]
    · exact .nil

theorem parts_eq (h : Matches R joins t u)
    (values : ∀ a ∈ t.children.filter (·.kind = .string), ∀ b, R a b →
      StringLiteral.ofToken? b.spelling = StringLiteral.ofToken? a.spelling) : u.parts = t.parts := by
  have strings := h.2.filter (p := fun c => decide (c.kind = .string))
    (fun t u related => by rw [(agree t u related).kind]) (fun _ => by simp [kind])
  exact map_eq_of_forall₂ strings fun a mem b related => values a mem b related.1

theorem bareArgument_eq (h : Matches R joins t u)
    (values : ∀ a ∈ t.literals, ∀ b, R a b → StringLiteral.ofToken? b.spelling = StringLiteral.ofToken? a.spelling) :
    u.bareArgument = t.bareArgument := by
  rw [bareArgument, bareArgument, (agree t u h.1).kind]
  rw [literals] at values
  split
  · rename_i kind
    rw [values t (by simp [kind]) u h.1]
  · rename_i kind
    rw [parts_eq agree h fun a mem => values a (by simpa [kind] using mem)]
  · rfl
  · rename_i kind
    rw [(agree t u h.1).spelling (by rw [kind]; decide)]
  · rfl

theorem construct?_eq (h : Matches R joins t u) (arguments : t.kind = .call → u.positional = t.positional) :
    u.construct? = t.construct? := by
  rw [construct?, construct?, (agree t u h.1).kind]
  split
  · rw [importedNames_eq agree h]
  · have wildcards := h.2.any (p := fun c => decide (c.kind = .wildcard))
      (fun t u related => by rw [(agree t u related).kind]) (fun _ => by simp [kind])
    rw [fromModule?_eq agree h, importedNames_eq agree h, wildcards]
  · rw [importedNames_eq agree h]
  · rename_i kind
    rw [callee_eq agree h, arguments kind]
  · rfl

/-! ### Rules -/

omit agree in
/-- Which arguments may stand where is told from their kinds. -/
theorem pairwise_mayFollow_iff : ts.Pairwise MayFollow ↔ (ts.map Tree.kind).Pairwise fun k l =>
    (l = .listSplat → k ≠ .dictionarySplat) ∧
      (l ∉ [.comment, .keywordArgument, .dictionarySplat, .listSplat] → k ≠ .keywordArgument ∧ k ≠ .dictionarySplat) := by
  rw [List.pairwise_map]
  exact Iff.rfl

/-- If one forest keeps to the rules, so does the other, as far as statements come first on their lines and in their
columns alike, and literals are alike in being bytes and in their first quotes. -/
theorem Paired.conforms {source source' : List Char} (h : Paired R joins ts us)
    (lines : ∀ t ∈ preorders ts, t.kind = .module ∨ t.kind = .block → ∀ a ∈ t.children, ∀ b, R a b →
      b.LeadsLine source' → a.LeadsLine source ∧ b.start.column = a.start.column)
    (bytes : ∀ a b, R a b → a.kind = .string →
      (StringLiteral.ofToken? b.spelling = some .bytes ↔ StringLiteral.ofToken? a.spelling = some .bytes))
    (backticks : ∀ a b, R a b → a.kind = .string → b.OpensWithBacktick → a.OpensWithBacktick)
    (fine : ∀ t ∈ preorders ts, t.Conforms source) : ∀ u ∈ preorders us, u.Conforms source' := by
  have kinds (t u : Tree) (related : R t u) : u.kind = t.kind := (agree t u related).kind
  intro u mem
  rcases h.exists_left u mem with kind | ⟨t, mem, related, children⟩
  · rw [Conforms, kind]
    trivial
  have aligned {column : Nat} (suite : t.kind = .module ∨ t.kind = .block) (left : Aligned source column t.children) :
      Aligned source' column u.children := by
    intro c' mem' leads
    rcases children.mem_left c' mem' with join | ⟨c, memC, same, -⟩
    · exact absurd (.inr join) leads.1
    · obtain ⟨leads', column⟩ := lines t mem suite c memC c' same leads
      rw [column]
      exact left c memC leads'
  have isBytes {a b : Tree} (same : R a b) (kind : a.kind = .string) : b.IsBytes ↔ a.IsBytes := by
    rw [IsBytes, IsBytes, kinds a b same, bytes a b same kind]
  have fine := fine t mem
  rw [Conforms] at fine ⊢
  rw [kinds t u related]
  cases kind : t.kind <;> simp only [kind] at fine ⊢
  case module => exact aligned (.inl kind) fine
  case block =>
    obtain ⟨column, fine⟩ := fine
    exact ⟨column, aligned (.inr kind) fine⟩
  case expressionStatement =>
    intro c' mem'
    rcases children.mem_left c' mem' with join | ⟨c, memC, same, -⟩
    · rw [join]
      decide
    · rw [kinds c c' same]
      exact fine c memC
  case argumentList =>
    have shown := (agree t u related).shown
    rw [shownJoins, shownJoins, kinds t u related, kind] at shown
    have same := map_eq_of_forall₂ (f := Tree.kind) (g := Tree.kind) (children.forall₂ kinds shown)
      fun a _ b related => kinds a b related.1
    rw [pairwise_mayFollow_iff] at fine ⊢
    rwa [same]
  case concatenatedString =>
    rintro ⟨a', memA', b', memB', bytesA, noBytes⟩
    rcases children.mem_left a' memA' with join | ⟨a, memA, sameA, -⟩
    · exact absurd (join.symm.trans bytesA.1) (by decide)
    rcases children.mem_left b' memB' with join | ⟨b, memB, sameB, -⟩
    · exact absurd (join.symm.trans noBytes.1) (by decide)
    have kindA : a.kind = .string := (kinds a a' sameA).symm.trans bytesA.1
    have kindB : b.kind = .string := (kinds b b' sameB).symm.trans noBytes.1
    exact fine ⟨a, memA, b, memB, (isBytes sameA kindA).mp bytesA, kindB,
      fun is => noBytes.2 ((bytes b b' sameB kindB).mpr is)⟩
  case string => exact fun opens => fine (backticks t u related kind opens)

end Parts

/-- Nodes of a text and its image agree where the same joins show. -/
theorem Agree.of_nodes {m : Mirror} (h : m.Nodes t u) (shown : u.shownJoins = t.shownJoins) : Agree t u :=
  ⟨h.kind, h.role, h.spelling, h.naming, shown⟩

end Footprint.Syntax.Tree
