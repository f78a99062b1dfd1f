import Footprint.Proofs.Calls.Reading

/-!
# Calls in the tree of an expression

The constructs of the tree of an expression are its calls, and nothing in the tree is at fault.
-/

namespace Footprint.Calls

open Syntax

variable {gap : List Char → Prop} {e : Expr} {as : Arguments} {slot : Slot} {cs ds : List Char} {l : Literal} {t : Tree}
  {r : Role}

theorem unparenthesized_of_kind (h : t.kind ≠ .parenthesized) : t.unparenthesized = t := by
  obtain ⟨k, ro, p, s, ts⟩ := t
  have other : k ≠ .parenthesized := h
  rw [Tree.unparenthesized, if_neg other]

theorem unparenthesized_group (e : Expr) (ro : Option Role) :
    (Syntax.Tree.node .parenthesized ro {} [] [e.tree]).unparenthesized = e.tree.unparenthesized := by
  have noComment : e.tree.kind ≠ .comment := fun comment => e.tree_not_extra (.inl comment)
  rw [Tree.unparenthesized, if_pos rfl, Tree.innermost?, if_neg noComment]
  rfl

theorem unparenthesized_tree (e : Expr) : e.tree.unparenthesized = e.innermost.tree := by
  cases e with
  | group e => exact (unparenthesized_group e none).trans (unparenthesized_tree e)
  | _ => exact unparenthesized_of_kind Kind.noConfusion

/-- The role of an expression shows at most on what has no parentheses. -/
theorem unparenthesized_withRole (e : Expr) (r : Role) :
    (e.tree.withRole r).unparenthesized = e.innermost.tree ∨
      (e.tree.withRole r).unparenthesized = e.innermost.tree.withRole r := by
  cases e with
  | group e => exact .inl ((unparenthesized_group e (some r)).trans (unparenthesized_tree e))
  | _ => exact .inr (unparenthesized_of_kind (by rw [Tree.kind_withRole]; nofun))

theorem role_tree (e : Expr) : e.tree.role = none := by cases e <;> rfl

theorem member_tree (e : Expr) (n : List Char) :
    (Expr.member e n).tree.child? .member = some ((identifier n).withRole .member) := by
  have other : (decide (e.tree.role = some .member)) = false := by rw [role_tree]; rfl
  rw [Expr.tree, Tree.child?, Tree.children, List.find?_cons, other]
  rfl

theorem callee_eq_of {f : Tree} (child : (t.child? .callee).map Tree.unparenthesized = some f)
    (same : f = e.innermost.tree ∨ f = e.innermost.tree.withRole .callee) : t.callee = e.callee := by
  have kind : f.kind = e.innermost.tree.kind := by rcases same with rfl | rfl <;> simp
  have member : f.child? .member = e.innermost.tree.child? .member := by
    rcases same with rfl | rfl <;> simp [Tree.child?]
  have spelling : f.spelling = e.innermost.tree.spelling := by
    rcases same with rfl | rfl
    · rfl
    · cases e.innermost.tree
      rfl
  rw [Tree.callee, child]
  simp only [kind, member, spelling, Expr.callee]
  cases e.innermost with
  | member e n =>
    rw [member_tree]
    rfl
  | _ => rfl

theorem callee_call (e : Expr) (as : Arguments) : (Expr.call e as).tree.callee = e.callee := by
  have child : (Expr.call e as).tree.child? .callee = some (e.tree.withRole .callee) := by
    simp [Expr.tree, Tree.child?, Tree.children]
  exact callee_eq_of (by rw [child, Option.map_some]) (unparenthesized_withRole e .callee)

/-! ### Arguments -/

theorem innermost_ne_group : ∀ (e inside : Expr), e.innermost ≠ .group inside
  | .name _, _ | .text _, _ | .integer _, _ | .member _ _, _ | .call _ _, _ => nofun
  | .group e, inside => innermost_ne_group e inside

mutual

def Expr.IsProper : Expr → Prop
  | .name _ | .integer _ => True
  | .text l => l.IsProper
  | .member e _ => e.IsProper
  | .call e as => e.IsProper ∧ as.IsProper ∧ as.IsOrdered false false
  | .group e => e.IsProper

def Arguments.IsProper : Arguments → Prop
  | .nil => True
  | .cons _ e as => e.IsProper ∧ as.IsProper

end

theorem SpellsOne.spelled (one : SpellsOne slot e cs) : ∃ cs, Spells IsFiller e cs := by
  cases one with
  | plain spelled => exact ⟨_, spelled⟩
  | splat _ _ spelled => exact ⟨_, spelled⟩
  | keyword _ _ _ spelled => exact ⟨_, spelled⟩
  | doubleSplat _ _ spelled => exact ⟨_, spelled⟩

theorem SpellsAll.more (all : SpellsAll as ds) : ∃ ds, SpellsMore as ds := by
  cases all with
  | nil => exact ⟨[], .nil⟩
  | cons hw one more => exact ⟨_, .cons .nil hw one more⟩

mutual

theorem Spells.isProper : ∀ (e : Expr) {gap : List Char → Prop} {cs : List Char}, Spells gap e cs → e.IsProper
  | .name _, _, _, _ | .integer _, _, _, _ => trivial
  | .text _, _, _, spelled => by
    cases spelled with
    | text proper => exact proper
  | .member e _, _, _, spelled => by
    cases spelled with
    | member _ _ base _ _ => exact Spells.isProper e base
  | .call e as, _, _, spelled => by
    cases spelled with
    | call _ ordered base _ all _ =>
      obtain ⟨_, more⟩ := all.more
      exact ⟨Spells.isProper e base, SpellsMore.isProper as more, ordered⟩
  | .group e, _, _, spelled => by
    cases spelled with
    | group _ inner _ => exact Spells.isProper e inner

theorem SpellsMore.isProper : ∀ (as : Arguments) {ds : List Char}, SpellsMore as ds → as.IsProper
  | .nil, _, _ => trivial
  | .cons _ e as, _, more => by
    cases more with
    | cons _ _ one more =>
      obtain ⟨_, spelled⟩ := one.spelled
      exact ⟨Spells.isProper e spelled, SpellsMore.isProper as more⟩

end

theorem Expr.IsProper.innermost : ∀ {e : Expr}, e.IsProper → e.innermost.IsProper
  | .name _, proper | .text _, proper | .integer _, proper | .member _ _, proper | .call _ _, proper => proper
  | .group e, proper => IsProper.innermost (e := e) proper

theorem Expr.IsProper.argument (proper : e.IsProper) : e.tree.argument = e.argument := by
  have inner := proper.innermost
  rw [Tree.argument, unparenthesized_tree, Expr.argument]
  cases h : e.innermost with
  | text l =>
    rw [h] at inner
    have value := Literal.IsProper.ofToken?_eq inner
    simp only [Expr.tree, Tree.bareArgument, Tree.kind, Tree.spelling, value]
  | group inside => exact absurd h (innermost_ne_group e inside)
  | _ => rfl

theorem positional_trees : ∀ as : Arguments, as.IsProper →
    (as.trees.filter fun c => c.kind ≠ .comment ∧ c.kind ≠ .keywordArgument ∧ c.kind ≠ .dictionarySplat).map
      Tree.argument = as.positional
  | .nil, _ => rfl
  | .cons slot e as, proper => by
    have rest := positional_trees as proper.2
    have isPositional : e.tree.kind ≠ .comment ∧ e.tree.kind ≠ .keywordArgument ∧ e.tree.kind ≠ .dictionarySplat := by
      cases e <;> exact ⟨nofun, nofun, nofun⟩
    cases slot with
    | plain =>
      rw [Arguments.trees, Slot.tree, List.filter_cons_of_pos (by simpa using isPositional), List.map_cons, rest,
        proper.1.argument]
      rfl
    | splat =>
      have other : (Slot.splat.tree e.tree).argument = .other := by
        have kind : (Slot.splat.tree e.tree).kind ≠ .parenthesized := by rintro ⟨⟩
        rw [Tree.argument, unparenthesized_of_kind kind]
        rfl
      rw [Arguments.trees, List.filter_cons_of_pos rfl, List.map_cons, rest, other]
      rfl
    | keyword n => exact rest
    | doubleSplat => exact rest

theorem positional_call (proper : as.IsProper) : (Expr.call e as).tree.positional = as.positional := by
  have child : (Expr.call e as).tree.child? .arguments = some (.node .argumentList (some .arguments) {} [] as.trees) := by
    have other : (decide ((e.tree.withRole .callee).role = some .arguments)) = false := by
      rw [Tree.role_withRole]
      rfl
    rw [Expr.tree, Tree.child?, Tree.children, List.find?_cons, other]
    rfl
  rw [Tree.positional, child]
  exact positional_trees as proper

/-! ### Constructs -/

theorem constructs_identifier (n : List Char) : (identifier n).constructs = [] := rfl

theorem constructs_slot (slot : Slot) (t : Tree) : (slot.tree t).constructs = t.constructs := by
  cases slot with
  | plain => rfl
  | splat =>
    rw [Slot.tree, Tree.constructs_node]
    simp [Tree.construct?, Tree.kind]
  | keyword n =>
    rw [Slot.tree, Tree.constructs_node]
    simp [Tree.construct?, Tree.kind, constructs_identifier]
  | doubleSplat =>
    rw [Slot.tree, Tree.constructs_node]
    simp [Tree.construct?, Tree.kind]

mutual

/-- The constructs of the tree of an expression are its calls. -/
theorem Expr.constructs_tree : ∀ e : Expr, e.IsProper → e.tree.constructs = e.calls
  | .name _, _ | .text _, _ | .integer _, _ => rfl
  | .member e n, proper => by
    have base := Expr.constructs_tree e proper
    rw [Expr.tree, Tree.constructs_node]
    simp [Tree.construct?, Tree.kind, base, Tree.constructs_withRole, constructs_identifier, Expr.calls]
  | .group e, proper => by
    have inner := Expr.constructs_tree e proper
    rw [Expr.tree, Tree.constructs_node]
    simp [Tree.construct?, Tree.kind, inner, Expr.calls]
  | .call e as, proper => by
    have base := Expr.constructs_tree e proper.1
    have arguments := Arguments.constructs_trees as proper.2.1
    have call : (Expr.call e as).tree.construct? = some (.call e.callee as.positional) := by
      rw [← callee_call e as, ← positional_call (e := e) proper.2.1]
      rfl
    have list : (Syntax.Tree.node .argumentList (some .arguments) {} [] as.trees).constructs = as.calls := by
      rw [Tree.constructs_node, arguments]
      rfl
    rw [Expr.tree] at call ⊢
    rw [Tree.constructs_node, call]
    simp [base, Tree.constructs_withRole, list, Expr.calls]

theorem Arguments.constructs_trees : ∀ as : Arguments, as.IsProper → as.trees.flatMap Tree.constructs = as.calls
  | .nil, _ => rfl
  | .cons slot e as, proper => by
    rw [Arguments.trees, List.flatMap_cons, constructs_slot, Expr.constructs_tree e proper.1,
      Arguments.constructs_trees as proper.2, Arguments.calls]

end

/-! ### Faults -/

theorem isSound_identifier (n : List Char) : (identifier n).IsSound :=
  Tree.isSound_node (by decide) rfl nofun

theorem isSound_slot (slot : Slot) (sound : t.IsSound) : (slot.tree t).IsSound := by
  cases slot with
  | plain => exact sound
  | splat | doubleSplat => exact Tree.isSound_node (by decide) rfl (by simpa using sound)
  | keyword n => exact Tree.isSound_node (by decide) rfl (by simpa using ⟨isSound_identifier n, sound⟩)

/-- Arguments in order are at no fault for what stands before them. -/
theorem misplaced?_trees : ∀ (as : Arguments) (keyword doubleSplat : Bool), as.IsOrdered keyword doubleSplat →
    Tree.misplaced? keyword doubleSplat as.trees = none
  | .nil, _, _, _ => rfl
  | .cons .plain e as, k, d, ordered => by
    obtain ⟨⟨rfl, rfl⟩, rest⟩ := ordered
    have later := misplaced?_trees as _ _ rest
    cases e <;> exact later
  | .cons .splat e as, k, d, ordered => by
    obtain ⟨rfl, rest⟩ := ordered
    exact misplaced?_trees as k false rest
  | .cons (.keyword n) e as, k, d, ordered => misplaced?_trees as true d ordered
  | .cons .doubleSplat e as, k, d, ordered => misplaced?_trees as k true ordered

mutual

/-- Nothing in the tree of an expression is at fault. -/
theorem Expr.isSound_tree : ∀ e : Expr, e.IsProper → e.tree.IsSound
  | .name n, _ => isSound_identifier n
  | .integer _, _ => Tree.isSound_node (by decide) rfl nofun
  | .text l, proper => by
    have noBacktick : (Expr.text l).tree.isBacktick = false := by
      rw [Tree.isBacktick, Expr.tree, Tree.spelling, Literal.IsProper.find_quote proper]
      rcases proper.mark with mark | mark <;> rw [mark] <;> rfl
    refine Tree.isSound_node (by decide) ?_ nofun
    rw [Tree.ownFault?]
    exact if_neg (Bool.eq_false_iff.mp noBacktick)
  | .member e n, proper => by
    have base := Expr.isSound_tree e proper
    have member := Tree.isSound_withRole .member (isSound_identifier n)
    exact Tree.isSound_node (by decide) rfl (by simpa using ⟨base, member⟩)
  | .group e, proper => by
    have inner := Expr.isSound_tree e proper
    exact Tree.isSound_node (by decide) rfl (by simpa using inner)
  | .call e as, proper => by
    have base := Tree.isSound_withRole .callee (Expr.isSound_tree e proper.1)
    have list : (Syntax.Tree.node .argumentList (some .arguments) {} [] as.trees).IsSound :=
      Tree.isSound_node (by decide) (misplaced?_trees as false false proper.2.2) (Arguments.isSound_trees as proper.2.1)
    exact Tree.isSound_node (by decide) rfl (by simpa using ⟨base, list⟩)

theorem Arguments.isSound_trees : ∀ as : Arguments, as.IsProper → ∀ t ∈ as.trees, t.IsSound
  | .nil, _ => nofun
  | .cons slot e as, proper =>
    List.forall_mem_cons.mpr ⟨isSound_slot slot (Expr.isSound_tree e proper.1), Arguments.isSound_trees as proper.2⟩

end

end Footprint.Calls
