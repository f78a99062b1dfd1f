import Footprint.Proofs.Syntax.Gaps
import Footprint.Syntax.Conformance
import Footprint.Syntax.Rule

/-!
# Trees without their remarks

Comments may stand anywhere within brackets, so two readings of one program differ in them and in where
their nodes stand. A tree without either still has all its constructs and faults, apart from faults of
indentation.
-/

namespace Footprint.Syntax.Tree

variable {t : Tree} {ts us : List Tree} {p : Tree → Bool}

def isRemark : Tree → Bool
  | node .comment none _ [] [] => true
  | _ => false

mutual

def bare : Tree → Tree
  | node k r _ s ts => node k r {} s (bares ts)

def bares : List Tree → List Tree
  | [] => []
  | t :: ts => if t.isRemark then bares ts else t.bare :: bares ts

end

theorem isRemark_of_isRemark (h : t.IsRemark) : t.isRemark = true := by
  obtain ⟨p, rfl⟩ := h
  rfl

theorem eq_of_isRemark (h : t.isRemark = true) : ∃ p, t = node .comment none p [] [] := by
  unfold isRemark at h
  split at h
  · exact ⟨_, rfl⟩
  · cases h

@[simp] theorem kind_bare (t : Tree) : t.bare.kind = t.kind := by cases t; rfl

@[simp] theorem role_bare (t : Tree) : t.bare.role = t.role := by cases t; rfl

@[simp] theorem spelling_bare (t : Tree) : t.bare.spelling = t.spelling := by cases t; rfl

@[simp] theorem children_bare (t : Tree) : t.bare.children = bares t.children := by cases t; rfl

@[simp] theorem bare_withRole (r : Role) (t : Tree) : (t.withRole r).bare = t.bare.withRole r := by cases t; rfl

theorem bares_eq (ts : List Tree) : bares ts = (ts.filter fun t => !t.isRemark).map bare := by
  induction ts with
  | nil => rfl
  | cons t ts ih =>
    rw [bares]
    cases h : t.isRemark <;> simp [h, ih]

@[simp] theorem bares_append (ts us : List Tree) : bares (ts ++ us) = bares ts ++ bares us := by
  simp [bares_eq]

theorem bares_of_remarks (remarks : ∀ t ∈ ts, t.IsRemark) : bares ts = [] := by
  rw [bares_eq, List.map_eq_nil_iff, List.filter_eq_nil_iff]
  intro t mem
  simp [isRemark_of_isRemark (remarks t mem)]

theorem bares_cons (h : t.kind ≠ .comment) : bares (t :: ts) = t.bare :: bares ts := by
  have no : t.isRemark = false := by
    apply Bool.eq_false_iff.mpr
    intro remark
    obtain ⟨p, rfl⟩ := eq_of_isRemark remark
    exact h rfl
  rw [bares, no]
  rfl

theorem bares_node {k : Kind} (h : k ≠ .comment) (r : Option Role) (p : Position) (s : List Char) (ts : List Tree) :
    bares [node k r p s ts] = [node k r {} s (bares ts)] := bares_cons h

theorem filter_bares (same : ∀ t, p t.bare = p t) (remark : ∀ t, t.isRemark = true → p t = false) :
    (bares ts).filter p = (ts.filter p).map bare := by
  induction ts with
  | nil => rfl
  | cons t ts ih =>
    rw [bares]
    cases h : t.isRemark with
    | true => simp [remark t h, ih]
    | false => cases hp : p t <;> simp [same, hp, ih]

theorem find_bares (same : ∀ t, p t.bare = p t) (remark : ∀ t, t.isRemark = true → p t = false) :
    (bares ts).find? p = (ts.find? p).map bare := by
  rw [← List.head?_filter, filter_bares same remark, List.head?_map, List.head?_filter]

theorem any_bares (same : ∀ t, p t.bare = p t) (remark : ∀ t, t.isRemark = true → p t = false) :
    (bares ts).any p = ts.any p := by
  rw [Bool.eq_iff_iff, List.any_eq_true, List.any_eq_true]
  have filtered : (bares ts).filter p = (ts.filter p).map bare := filter_bares same remark
  constructor
  · rintro ⟨t, mem, holds⟩
    have : t ∈ (ts.filter p).map bare := filtered ▸ List.mem_filter.mpr ⟨mem, holds⟩
    obtain ⟨u, found, rfl⟩ := List.mem_map.mp this
    exact ⟨u, (List.mem_filter.mp found).1, (same u) ▸ holds⟩
  · rintro ⟨t, mem, holds⟩
    have : t.bare ∈ (bares ts).filter p :=
      filtered ▸ List.mem_map.mpr ⟨t, List.mem_filter.mpr ⟨mem, holds⟩, rfl⟩
    exact ⟨t.bare, (List.mem_filter.mp this).1, (List.mem_filter.mp this).2⟩

theorem kind_ne_of_isRemark {k : Kind} (ne : k ≠ .comment) (h : t.isRemark = true) : decide (t.kind = k) = false := by
  obtain ⟨p, rfl⟩ := eq_of_isRemark h
  exact decide_eq_false ne.symm

theorem role_ne_of_isRemark {r : Role} (h : t.isRemark = true) : decide (t.role = some r) = false := by
  obtain ⟨p, rfl⟩ := eq_of_isRemark h
  rfl

@[simp] theorem child?_bare (r : Role) (t : Tree) : t.bare.child? r = (t.child? r).map bare := by
  rw [child?, children_bare]
  exact find_bares (by simp) fun _ => role_ne_of_isRemark

@[simp] theorem childrenIn_bare (r : Role) (t : Tree) : t.bare.childrenIn r = (t.childrenIn r).map bare := by
  rw [childrenIn, children_bare]
  exact filter_bares (by simp) fun _ => role_ne_of_isRemark

/-! ### Constructs -/

@[simp] theorem dotted_bare (t : Tree) : t.bare.dotted = t.dotted := by
  rw [dotted, dotted, kind_bare, children_bare, spelling_bare,
    filter_bares (by simp) fun _ => kind_ne_of_isRemark (by decide)]
  simp [Function.comp_def]

@[simp] theorem importedNames_bare (t : Tree) : t.bare.importedNames = t.importedNames := by
  rw [importedNames, importedNames, childrenIn_bare, List.filterMap_map]
  simp only [Function.comp_def, kind_bare, dotted_bare, child?_bare, Option.map_map]

@[simp] theorem fromModule?_bare (t : Tree) : t.bare.fromModule? = t.fromModule? := by
  rw [fromModule?, fromModule?, child?_bare]
  cases t.child? .moduleName with
  | none => rfl
  | some m =>
    simp only [Option.map_some, Option.bind_some, kind_bare, dotted_bare, children_bare]
    rw [find_bares (by simp) fun _ => kind_ne_of_isRemark (by decide)]
    simp [Function.comp_def]

mutual

theorem unparenthesized_bare : ∀ t : Tree, t.bare.unparenthesized = t.unparenthesized.bare
  | node k r p s ts => by
    rw [bare, unparenthesized, unparenthesized, innermost?_bares ts]
    split
    · cases innermost? ts <;> rfl
    · rfl

theorem innermost?_bares : ∀ ts : List Tree, innermost? (bares ts) = (innermost? ts).map bare
  | [] => rfl
  | t :: ts => by
    rw [bares, innermost?]
    cases remark : t.isRemark with
    | true =>
      obtain ⟨p, rfl⟩ := eq_of_isRemark remark
      exact innermost?_bares ts
    | false =>
      simp only [Bool.false_eq_true, if_false, innermost?, kind_bare, unparenthesized_bare t,
        innermost?_bares ts]
      split <;> rfl

end

@[simp] theorem callee_bare (t : Tree) : t.bare.callee = t.callee := by
  rw [callee, callee, child?_bare]
  cases t.child? .callee with
  | none => rfl
  | some f =>
    simp only [Option.map_some, unparenthesized_bare, kind_bare, spelling_bare, child?_bare, Option.map_map,
      Function.comp_def]

@[simp] theorem parts_bare (t : Tree) : t.bare.parts = t.parts := by
  rw [parts, parts, children_bare, filter_bares (by simp) fun _ => kind_ne_of_isRemark (by decide)]
  simp [Function.comp_def]

@[simp] theorem argument_bare (t : Tree) : t.bare.argument = t.argument := by
  rw [argument, argument, unparenthesized_bare]
  simp only [bareArgument, kind_bare, spelling_bare, parts_bare]

@[simp] theorem positional_bare (t : Tree) : t.bare.positional = t.positional := by
  rw [positional, positional, child?_bare]
  cases t.child? .arguments with
  | none => rfl
  | some a =>
    simp only [Option.map_some, kind_bare, children_bare]
    rw [filter_bares (by simp)]
    · simp [Function.comp_def]
    · intro t remark
      obtain ⟨p, rfl⟩ := eq_of_isRemark remark
      rfl

@[simp] theorem construct?_bare (t : Tree) : t.bare.construct? = t.construct? := by
  rw [construct?, construct?]
  simp only [kind_bare, importedNames_bare, fromModule?_bare, children_bare, callee_bare, positional_bare]
  rw [any_bares (by simp) fun _ => kind_ne_of_isRemark (by decide)]

mutual

/-- A tree has the constructs of its bare tree. -/
theorem constructs_bare : ∀ t : Tree, t.bare.constructs = t.constructs
  | node k r p s ts => by
    have head := construct?_bare (node k r p s ts)
    rw [bare] at head
    rw [bare, constructs, constructs, preorder, preorder, List.filterMap_cons, List.filterMap_cons, head,
      filterMap_preorders_bares ts]

theorem filterMap_preorders_bares :
    ∀ ts : List Tree, (preorders (bares ts)).filterMap construct? = (preorders ts).filterMap construct?
  | [] => rfl
  | t :: ts => by
    have head := constructs_bare t
    rw [constructs, constructs] at head
    rw [bares, preorders, List.filterMap_append, ← filterMap_preorders_bares ts, ← head]
    cases remark : t.isRemark with
    | true =>
      obtain ⟨p, rfl⟩ := eq_of_isRemark remark
      rfl
    | false => simp [preorders]

end

theorem constructs_node (k : Kind) (ro : Option Role) (p : Position) (s : List Char) (ts : List Tree) :
    (node k ro p s ts).constructs = (node k ro p s ts).construct?.toList ++ ts.flatMap constructs := by
  have below : (preorders ts).filterMap construct? = ts.flatMap constructs := by
    rw [preorders_eq_flatMap, List.filterMap_flatMap]
    rfl
  rw [constructs, preorder, List.filterMap_cons, below]
  cases (node k ro p s ts).construct? <;> rfl

theorem constructs_withRole (r : Role) (t : Tree) : (t.withRole r).constructs = t.constructs := by
  obtain ⟨k, ro, p, s, ts⟩ := t
  rw [withRole, constructs_node, constructs_node]
  rfl

/-! ### Faults -/

def bareFault (f : Fault × Tree) : Fault × Tree := (f.1, f.2.bare)

theorem misplaced?_bares (keyword doubleSplat : Bool) (ts : List Tree) :
    misplaced? keyword doubleSplat (bares ts) = (misplaced? keyword doubleSplat ts).map bareFault := by
  induction ts generalizing keyword doubleSplat with
  | nil => rfl
  | cons t ts ih =>
    cases remark : t.isRemark with
    | true =>
      obtain ⟨p, rfl⟩ := eq_of_isRemark remark
      exact ih keyword doubleSplat
    | false =>
      rw [bares, remark]
      simp only [Bool.false_eq_true, if_false, misplaced?, kind_bare, ih]
      split
      · rfl
      · rfl
      · rfl
      · split <;> rfl
      · split <;> rfl

def IsLayout (t : Tree) : Prop := t.kind = .module ∨ t.kind = .block

/-- Whether a node that has no layout of its own is at fault can be seen from the bare node. -/
theorem ownFault?_bare (source source' : List Char) (free : ¬t.IsLayout) :
    t.bare.ownFault? source' = (t.ownFault? source).map bareFault := by
  rw [IsLayout, not_or] at free
  have walrus : (bares t.children).find? (·.kind = .namedExpression) =
      (t.children.find? (·.kind = .namedExpression)).map bare :=
    find_bares (by simp) fun _ => kind_ne_of_isRemark (by decide)
  rw [ownFault?, ownFault?, kind_bare]
  split
  · rename_i kind
    exact absurd kind free.1
  · rename_i kind
    exact absurd kind free.2
  · simp only [children_bare, walrus, Option.map_map]
    rfl
  · rw [children_bare, misplaced?_bares]
  · rw [mixesBytes, parts_bare, ← mixesBytes, apply_ite (Option.map bareFault)]
    rfl
  · rw [isBacktick, spelling_bare, ← isBacktick, apply_ite (Option.map bareFault)]
    rfl
  · rfl
  · rfl
  · rfl

/-- A tree without layout that has no fault. -/
def IsSound (t : Tree) : Prop := ∀ n ∈ t.preorder, ¬n.IsLayout ∧ n.ownFault? [] = none

theorem isSound_node {k : Kind} {ro : Option Role} {p : Position} {s : List Char} {ts : List Tree}
    (free : k ≠ .module ∧ k ≠ .block) (own : (node k ro p s ts).ownFault? [] = none) (below : ∀ t ∈ ts, t.IsSound) :
    (node k ro p s ts).IsSound := by
  intro n mem
  rw [preorder, preorders_eq_flatMap, List.mem_cons, List.mem_flatMap] at mem
  rcases mem with rfl | ⟨t, inChildren, inTree⟩
  · exact ⟨not_or.mpr free, own⟩
  · exact below t inChildren n inTree

theorem isSound_leaf {k : Kind} {ro : Option Role} {p : Position} {s : List Char}
    (free : k ≠ .module ∧ k ≠ .block) (own : (node k ro p s []).ownFault? [] = none) : (node k ro p s []).IsSound :=
  isSound_node free own fun _ mem => absurd mem List.not_mem_nil

theorem ownFault?_withRole (r : Role) (sound : t.ownFault? [] = none) : (t.withRole r).ownFault? [] = none := by
  obtain ⟨k, ro, p, s, ts⟩ := t
  cases k with
  | string | concatenatedString =>
    simpa [withRole, ownFault?, kind, isBacktick, spelling, mixesBytes, parts, children] using sound
  | printStatement | execStatement => cases sound
  | _ => exact sound

theorem isSound_withRole (r : Role) (sound : t.IsSound) : (t.withRole r).IsSound := by
  rw [IsSound, preorder_eq, List.forall_mem_cons] at sound
  obtain ⟨own, below⟩ := sound
  rw [IsSound, preorder_eq, children_withRole]
  refine List.forall_mem_cons.mpr ⟨⟨?_, ownFault?_withRole r own.2⟩, below⟩
  rw [IsLayout, kind_withRole]
  exact own.1

mutual

/-- A node of a tree is there without remarks too, unless it is one. -/
theorem mem_preorder_bare : ∀ (t : Tree) (n : Tree), n ∈ t.preorder → n.isRemark = true ∨ n.bare ∈ t.bare.preorder
  | node k r p s ts, n, mem => by
    rw [preorder] at mem
    rcases List.mem_cons.mp mem with rfl | below
    · exact .inr (mem_preorder_self _)
    · rw [bare, preorder]
      exact (mem_preorders_bares ts n below).imp_right (List.mem_cons_of_mem _)

theorem mem_preorders_bares :
    ∀ (ts : List Tree) (n : Tree), n ∈ preorders ts → n.isRemark = true ∨ n.bare ∈ preorders (bares ts)
  | t :: ts, n, mem => by
    rw [preorders] at mem
    rw [bares]
    cases remark : t.isRemark with
    | true =>
      obtain ⟨p, rfl⟩ := eq_of_isRemark remark
      rcases List.mem_append.mp mem with here | later
      · obtain rfl := List.mem_singleton.mp here
        exact .inl remark
      · exact mem_preorders_bares ts n later
    | false =>
      rw [if_neg Bool.false_ne_true, preorders]
      rcases List.mem_append.mp mem with here | later
      · exact (mem_preorder_bare t n here).imp_right (List.mem_append_left _)
      · exact (mem_preorders_bares ts n later).imp_right (List.mem_append_right _)

end

/-- A tree whose bare tree is sound has no fault wherever it stands. -/
theorem ownFault?_of_isSound_bare (sound : t.bare.IsSound) (source : List Char) {n : Tree} (mem : n ∈ t.preorder) :
    n.ownFault? source = none := by
  rcases mem_preorder_bare t n mem with remark | inBare
  · obtain ⟨p, rfl⟩ := eq_of_isRemark remark
    rfl
  · obtain ⟨free, none⟩ := sound _ inBare
    have free : ¬n.IsLayout := by simpa [IsLayout] using free
    rw [ownFault?_bare source [] free, Option.map_eq_none_iff] at none
    exact none

/-! ### Forests -/

@[simp] theorem isExtra_bare (t : Tree) : t.bare.IsExtra ↔ t.IsExtra := by rw [IsExtra, IsExtra, kind_bare]

theorem isExtra_of_isRemark (h : t.isRemark = true) : t.IsExtra := by
  obtain ⟨p, rfl⟩ := eq_of_isRemark h
  exact .inl rfl

theorem assign_singleton {r : Role} (h : ¬t.IsExtra) : assign r [t] = [t.withRole r] := by simp [assign, h]

theorem bares_assign (r : Role) (ts : List Tree) : bares (assign r ts) = assign r (bares ts) := by
  induction ts with
  | nil => rfl
  | cons t ts ih =>
    cases remark : t.isRemark with
    | true =>
      have kept : assign r (t :: ts) = t :: assign r ts := by simp [assign, isExtra_of_isRemark remark]
      rw [kept, bares, bares, remark, if_pos rfl, if_pos rfl, ih]
    | false =>
      have bared : bares (t :: ts) = t.bare :: bares ts := by rw [bares, remark, if_neg Bool.false_ne_true]
      have assigned (u : Tree) (us : List Tree) :
          assign r (u :: us) = (if u.IsExtra then u else u.withRole r) :: assign r us := rfl
      rw [bared, assigned, assigned]
      by_cases extra : t.IsExtra
      · rw [if_pos extra, if_pos ((isExtra_bare t).mpr extra), bares, remark, if_neg Bool.false_ne_true, ih]
      · have noComment : (t.withRole r).kind ≠ .comment := fun comment => extra (.inl (by simpa using comment))
        rw [if_neg extra, if_neg (mt (isExtra_bare t).mp extra), bares_cons noComment, ih, bare_withRole]

theorem soleKind?_bares (ts : List Tree) : soleKind? (bares ts) = soleKind? ts := by
  rw [soleKind?, soleKind?, filter_bares]
  · cases h : ts.filter fun t => !decide t.IsExtra with
    | nil => rfl
    | cons t rest => cases rest <;> simp
  · simp
  · intro t remark
    simp [isExtra_of_isRemark remark]

end Footprint.Syntax.Tree
