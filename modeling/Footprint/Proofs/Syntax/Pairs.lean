import Footprint.Proofs.Syntax.Conformance
import Footprint.Proofs.Syntax.Parallel
import Mathlib.Algebra.GroupWithZero.Nat
import Mathlib.Data.List.Forall2

/-!
# Trees alike

Two trees may have the same nodes in the same places, but for line joins that only one of them has. What an
analysis takes from them is the same, unless a join stands where it is taken for something else: as an argument,
or for the operand of parentheses.
-/

namespace Footprint.Syntax.Tree

/-- Forests with the same nodes, each related to its counterpart, but for line joins on the right. -/
inductive Paired (R : Tree → Tree → Prop) (joins : Prop) : List Tree → List Tree → Prop
  | nil : Paired R joins [] []
  | cons {t u : Tree} {ts us : List Tree} : R t u → Paired R joins t.children u.children → Paired R joins ts us →
    Paired R joins (t :: ts) (u :: us)
  | join {p : Position} {ts us : List Tree} : joins → Paired R joins ts us →
    Paired R joins ts (.node .lineJoin none p [] [] :: us)

section Paired

variable {R S : Tree → Tree → Prop} {joins further : Prop} {ts us vs ws : List Tree} {t u : Tree}

theorem isExtra_iff (kind : u.kind = t.kind) : u.IsExtra ↔ t.IsExtra := by rw [IsExtra, IsExtra, kind]

def Matches (R : Tree → Tree → Prop) (joins : Prop) (t u : Tree) : Prop := R t u ∧ Paired R joins t.children u.children

namespace Paired

theorem append (h : Paired R joins ts us) (h' : Paired R joins vs ws) : Paired R joins (ts ++ vs) (us ++ ws) := by
  induction h with
  | nil => exact h'
  | cons related children _ _ ih => exact .cons related children ih
  | join may _ ih => exact .join may ih

theorem symm (h : Paired R False ts us) : Paired (fun u t => R t u) False us ts := by
  induction h with
  | nil => exact .nil
  | cons related _ _ ih ih' => exact .cons related ih ih'
  | join may => exact may.elim

theorem singleton (h : R t u) (children : Paired R joins t.children u.children) : Paired R joins [t] [u] :=
  .cons h children .nil

theorem exists_left (h : Paired R joins ts us) :
    ∀ u ∈ preorders us, u.kind = .lineJoin ∨ ∃ t ∈ preorders ts, Matches R joins t u := by
  induction h with
  | nil => exact fun u mem => absurd mem List.not_mem_nil
  | @cons t u ts us related children _ ih ih' =>
    simp only [preorders, preorder_eq, ← preorders_eq_flatMap, List.mem_append, List.mem_cons]
    rintro v ((rfl | below) | later)
    · exact .inr ⟨t, .inl (.inl rfl), related, children⟩
    · exact (ih v below).imp_right fun ⟨w, mem, same⟩ => ⟨w, .inl (.inr mem), same⟩
    · exact (ih' v later).imp_right fun ⟨w, mem, same⟩ => ⟨w, .inr mem, same⟩
  | join _ _ ih =>
    simp only [preorders, preorder_eq, children, List.flatMap_nil, List.mem_append, List.mem_cons, List.not_mem_nil,
      or_false]
    rintro v (rfl | mem)
    · exact .inl rfl
    · exact ih v mem

theorem mem_left (h : Paired R joins ts us) : ∀ u ∈ us, u.kind = .lineJoin ∨ ∃ t ∈ ts, Matches R joins t u := by
  induction h with
  | nil => exact fun u mem => absurd mem List.not_mem_nil
  | @cons t u ts us related children _ _ ih =>
    rw [List.forall_mem_cons]
    exact ⟨.inr ⟨t, List.mem_cons_self, related, children⟩,
      fun v mem => (ih v mem).imp_right fun ⟨w, mem, same⟩ => ⟨w, List.mem_cons_of_mem t mem, same⟩⟩
  | join _ _ ih =>
    rw [List.forall_mem_cons]
    exact ⟨.inl rfl, ih⟩

theorem exists_right (h : Paired R joins ts us) : ∀ t ∈ preorders ts, ∃ u ∈ preorders us, Matches R joins t u := by
  induction h with
  | nil => exact fun t mem => absurd mem List.not_mem_nil
  | @cons t u ts us related children _ ih ih' =>
    simp only [preorders, preorder_eq, ← preorders_eq_flatMap, List.mem_append, List.mem_cons]
    rintro v ((rfl | below) | later)
    · exact ⟨u, .inl (.inl rfl), related, children⟩
    · obtain ⟨w, mem, same⟩ := ih v below
      exact ⟨w, .inl (.inr mem), same⟩
    · obtain ⟨w, mem, same⟩ := ih' v later
      exact ⟨w, .inr mem, same⟩
  | join _ _ ih =>
    intro v mem
    obtain ⟨w, mem, same⟩ := ih v mem
    exact ⟨w, by simp [preorders, mem], same⟩

/-- What is collected from the nodes is the same if it is so for counterparts, and joins have no part in it. -/
theorem filterMap_eq {α : Type} {f g : Tree → Option α} (h : Paired R joins ts us)
    (same : ∀ t ∈ preorders ts, ∀ u, Matches R joins t u → g u = f t)
    (none : ∀ p, g (.node .lineJoin none p [] []) = none) :
    (preorders us).filterMap g = (preorders ts).filterMap f := by
  induction h with
  | nil => rfl
  | @cons t u ts us related children _ ih ih' =>
    simp only [preorders, List.forall_mem_append, preorder_eq, List.forall_mem_cons, ← preorders_eq_flatMap] at same
    simp only [preorders, preorder_eq, ← preorders_eq_flatMap, List.filterMap_append, List.filterMap_cons,
      same.1.1 u ⟨related, children⟩, ih same.1.2, ih' same.2]
  | join _ _ ih =>
    simp only [preorders, preorder_eq, children, List.flatMap_nil, List.filterMap_append, List.filterMap_cons, none,
      List.filterMap_nil, List.nil_append, ih same]

theorem forall₂_preorders (h : Paired R False ts us) :
    List.Forall₂ (Matches R False) (preorders ts) (preorders us) := by
  induction h with
  | nil => exact .nil
  | @cons t u ts us related children _ ih ih' =>
    simp only [preorders, preorder_eq, ← preorders_eq_flatMap, List.cons_append]
    exact .cons ⟨related, children⟩ (List.rel_append ih ih')
  | join may => exact may.elim

variable {p : Tree → Bool}

theorem filter (h : Paired R joins ts us) (respects : ∀ t u, R t u → p u = p t)
    (none : ∀ q, p (.node .lineJoin none q [] []) = false) :
    List.Forall₂ (Matches R joins) (ts.filter p) (us.filter p) := by
  induction h with
  | nil => exact .nil
  | @cons t u ts us related children _ _ ih =>
    cases holds : p t with
    | true =>
      rw [List.filter_cons_of_pos holds, List.filter_cons_of_pos ((respects t u related).trans holds)]
      exact .cons ⟨related, children⟩ ih
    | false =>
      rw [List.filter_cons_of_neg (by simp [holds]), List.filter_cons_of_neg (by simp [respects t u related, holds])]
      exact ih
  | @join q ts us _ _ ih =>
    rw [List.filter_cons_of_neg (by simp [none q])]
    exact ih

theorem find? (h : Paired R joins ts us) (respects : ∀ t u, R t u → p u = p t)
    (none : ∀ q, p (.node .lineJoin none q [] []) = false) :
    Option.Rel (Matches R joins) (ts.find? p) (us.find? p) := by
  have same := h.filter respects none
  rw [← List.head?_filter, ← List.head?_filter]
  generalize ts.filter p = vs, us.filter p = ws at same
  cases same with
  | nil => exact .none
  | cons first _ => exact .some first

theorem any (h : Paired R joins ts us) (respects : ∀ t u, R t u → p u = p t)
    (none : ∀ q, p (.node .lineJoin none q [] []) = false) : us.any p = ts.any p := by
  induction h with
  | nil => rfl
  | @cons t u ts us related _ _ _ ih => rw [List.any_cons, List.any_cons, respects t u related, ih]
  | @join q ts us _ _ ih => rw [List.any_cons, none q, Bool.false_or, ih]

theorem assign {ro : Role} (h : Paired R joins ts us) (kinds : ∀ t u, R t u → u.kind = t.kind)
    (stable : ∀ t ∈ ts, ∀ u, R t u → R (t.withRole ro) (u.withRole ro)) :
    Paired R joins (Tree.assign ro ts) (Tree.assign ro us) := by
  induction h with
  | nil => exact .nil
  | @cons t u ts us related children _ _ ih =>
    rw [List.forall_mem_cons] at stable
    rw [Tree.assign, Tree.assign, List.map_cons, List.map_cons]
    have extra := isExtra_iff (kinds t u related)
    by_cases h : t.IsExtra
    · rw [if_pos h, if_pos (extra.mpr h)]
      exact .cons related children (ih stable.2)
    · rw [if_neg h, if_neg (extra.not.mpr h)]
      refine .cons (stable.1 u related) ?_ (ih stable.2)
      rwa [children_withRole, children_withRole]
  | join may _ ih => exact .join may (ih stable)

theorem soleKind?_eq (h : Paired R joins ts us) (kinds : ∀ t u, R t u → u.kind = t.kind) :
    soleKind? ts = soleKind? us := by
  have same := h.filter (p := fun t => !decide t.IsExtra)
    (fun t u related => by rw [decide_eq_decide.mpr (isExtra_iff (kinds t u related))])
    (fun q => by simp [IsExtra, kind])
  rw [soleKind?, soleKind?]
  generalize ts.filter (fun t => !decide t.IsExtra) = vs, us.filter (fun t => !decide t.IsExtra) = ws at same
  cases same with
  | nil => rfl
  | cons first rest =>
    cases rest with
    | nil => exact congrArg some (kinds _ _ first.1).symm
    | cons => rfl

end Paired

end Paired

theorem preorders_singleton (t : Tree) : preorders [t] = t.preorder := by rw [preorders, preorders, List.append_nil]

/-! ### Line joins that show -/

def joinsIn (ts : List Tree) : Nat := ts.countP (·.kind = .lineJoin)

/-- The comments and line joins before the first node that is neither. -/
def leadingExtras (ts : List Tree) : List Tree := ts.takeWhile fun c => decide c.IsExtra

/-- How many line joins stand among the arguments of a list, or before the operand of parentheses. -/
def shownJoins (t : Tree) : Nat :=
  match t.kind with
  | .argumentList => joinsIn t.children
  | .parenthesized => joinsIn (leadingExtras t.children)
  | _ => 0

/-- How many line joins show in a forest. -/
def joinsShown (ts : List Tree) : Nat := ((preorders ts).map shownJoins).sum

section Joins

variable {R : Tree → Tree → Prop} {joins : Prop} {ts us : List Tree} {t u : Tree}

theorem joinsIn_cons (t : Tree) (ts : List Tree) :
    joinsIn (t :: ts) = joinsIn ts + if t.kind = .lineJoin then 1 else 0 := by
  simp [joinsIn, List.countP_cons]

theorem leadingExtras_cons (t : Tree) (ts : List Tree) :
    leadingExtras (t :: ts) = if t.IsExtra then t :: leadingExtras ts else [] := by
  simp [leadingExtras, List.takeWhile_cons]

namespace Paired

theorem joinsIn_le (h : Paired R joins ts us) (kinds : ∀ t u, R t u → u.kind = t.kind) : joinsIn ts ≤ joinsIn us := by
  induction h with
  | nil => exact Nat.le_refl _
  | @cons t u ts us related _ _ _ ih =>
    rw [joinsIn_cons, joinsIn_cons, kinds t u related]
    exact Nat.add_le_add_right ih _
  | join _ _ ih =>
    rw [joinsIn_cons]
    exact Nat.le_trans ih (Nat.le_add_right _ _)

theorem forall₂ (h : Paired R joins ts us) (kinds : ∀ t u, R t u → u.kind = t.kind)
    (same : joinsIn us = joinsIn ts) : List.Forall₂ (Matches R joins) ts us := by
  induction h with
  | nil => exact .nil
  | @cons t u ts us related children _ _ ih =>
    rw [joinsIn_cons, joinsIn_cons, kinds t u related] at same
    exact .cons ⟨related, children⟩ (ih (Nat.add_right_cancel same))
  | @join p ts us _ rest _ =>
    have more := rest.joinsIn_le kinds
    rw [joinsIn_cons, kind, if_pos rfl] at same
    omega

theorem joinsIn_leadingExtras_le (h : Paired R joins ts us) (kinds : ∀ t u, R t u → u.kind = t.kind) :
    joinsIn (leadingExtras ts) ≤ joinsIn (leadingExtras us) := by
  induction h with
  | nil => exact Nat.le_refl _
  | @cons t u ts us related _ _ _ ih =>
    have extra := isExtra_iff (kinds t u related)
    rw [leadingExtras_cons, leadingExtras_cons]
    by_cases h : t.IsExtra
    · rw [if_pos h, if_pos (extra.mpr h), joinsIn_cons, joinsIn_cons, kinds t u related]
      exact Nat.add_le_add_right ih _
    · exact Nat.le_of_eq (by rw [if_neg h, if_neg (extra.not.mpr h)])
  | join _ _ ih =>
    rw [leadingExtras_cons, if_pos (.inr rfl), joinsIn_cons]
    exact Nat.le_trans ih (Nat.le_add_right _ _)

theorem shownJoins_le (related : R t u) (h : Paired R joins t.children u.children)
    (kinds : ∀ t u, R t u → u.kind = t.kind) : t.shownJoins ≤ u.shownJoins := by
  rw [shownJoins, shownJoins, kinds t u related]
  split
  · exact h.joinsIn_le kinds
  · exact h.joinsIn_leadingExtras_le kinds
  · exact Nat.le_refl _

theorem joinsShown_cons (t : Tree) (ts : List Tree) :
    joinsShown (t :: ts) = t.shownJoins + joinsShown t.children + joinsShown ts := by
  simp only [joinsShown, preorders, preorder_eq, ← preorders_eq_flatMap, List.map_append, List.map_cons,
    List.sum_append, List.sum_cons]

theorem joinsShown_le (h : Paired R joins ts us) (kinds : ∀ t u, R t u → u.kind = t.kind) :
    joinsShown ts ≤ joinsShown us := by
  induction h with
  | nil => exact Nat.le_refl _
  | cons related children _ ih ih' =>
    rw [joinsShown_cons, joinsShown_cons]
    have := shownJoins_le related children kinds
    omega
  | join _ _ ih =>
    rw [joinsShown_cons]
    exact Nat.le_trans ih (Nat.le_add_left _ _)

theorem shown (h : Paired R joins ts us) (kinds : ∀ t u, R t u → u.kind = t.kind)
    (same : joinsShown us = joinsShown ts) : Paired (fun t u => R t u ∧ u.shownJoins = t.shownJoins) joins ts us := by
  induction h with
  | nil => exact .nil
  | cons related children rest ih ih' =>
    have here := shownJoins_le related children kinds
    have below := children.joinsShown_le kinds
    have later := rest.joinsShown_le kinds
    rw [joinsShown_cons, joinsShown_cons] at same
    exact .cons ⟨related, by omega⟩ (ih (by omega)) (ih' (by omega))
  | join may rest ih =>
    have later := rest.joinsShown_le kinds
    rw [joinsShown_cons] at same
    exact .join may (ih (by omega))

/-- Without joins of its own, the right shows no more than the left. -/
theorem joinsShown_eq (h : Paired R False ts us) (kinds : ∀ t u, R t u → u.kind = t.kind) :
    joinsShown us = joinsShown ts :=
  Nat.le_antisymm (h.symm.joinsShown_le fun u t related => (kinds t u related).symm) (h.joinsShown_le kinds)

end Paired

end Joins

end Footprint.Syntax.Tree
