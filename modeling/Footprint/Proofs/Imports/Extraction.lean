import Footprint.Analysis
import Footprint.Proofs.Calls.Extraction
import Footprint.Proofs.Imports.Reading

/-!
# Imports in the tree of a statement

The tree of an import has one construct and no fault, and the construct says of the program what is imported.
-/

namespace Footprint.Imports

open Syntax
open Calls (identifier isSound_identifier)

variable {cs : List Char} {i : Item} {is : List Item} {o : Origin} {m : Import}

def Import.construct : Import → Construct
  | .modules i is => .importModules ((i :: is).map Item.name)
  | .names o i is => .importFrom o.module? ((i :: is).map Item.name)
  | .all o => .importFrom o.module? ["*"]
  | .future i is => .importFrom (some "__future__") ((i :: is).map Item.name)

/-! ### Names -/

theorem dotted_dottedTree (n : List Char) (ns : List (List Char)) : (dottedTree n ns).dotted = pointed n ns := by
  have all : ∀ t ∈ (n :: ns).map identifier, decide (t.kind = .identifier) = true := by
    simp [identifier, Tree.kind]
  rw [Tree.dotted, dottedTree, Tree.kind, if_pos rfl, Tree.children, List.filter_eq_self.mpr all, List.map_map]
  rfl

theorem Item.role_tree (i : Item) : i.tree.role = some .name := by
  obtain ⟨n, ns, a | _⟩ := i <;> rfl

theorem importedNames_items (k : Kind) (ts : List Tree) (is : List Item) (others : ∀ t ∈ ts, t.role ≠ some .name) :
    (Syntax.Tree.node k none {} [] (ts ++ is.map Item.tree)).importedNames = is.map Item.name := by
  have noOther : ts.filter (fun t => decide (t.role = some .name)) = [] :=
    List.filter_eq_nil_iff.mpr fun t mem => by simpa using others t mem
  have all : ∀ t ∈ is.map Item.tree, decide (t.role = some .name) = true := by simp [Item.role_tree]
  rw [Tree.importedNames, Tree.childrenIn, Tree.children, List.filter_append, noOther, List.nil_append,
    List.filter_eq_self.mpr all, List.filterMap_map, ← List.filterMap_eq_map]
  congr 1
  funext i
  obtain ⟨n, ns, a | a⟩ := i
  · exact congrArg some (dotted_dottedTree n ns)
  · exact congrArg some (dotted_dottedTree n ns)

theorem fromModule?_node (o : Origin) (k : Kind) (ts : List Tree) :
    (Syntax.Tree.node k none {} [] (o.tree :: ts)).fromModule? = o.module? := by
  cases o with
  | absolute n ns => exact congrArg some (dotted_dottedTree n ns)
  | package _ => rfl
  | relative _ n ns => exact congrArg some (dotted_dottedTree n ns)

/-! ### Trees -/

theorem plain_identifier (n : List Char) : (identifier n).IsSound ∧ (identifier n).constructs = [] :=
  ⟨isSound_identifier n, rfl⟩

theorem plain_dottedTree (n : List Char) (ns : List (List Char)) :
    (dottedTree n ns).IsSound ∧ (dottedTree n ns).constructs = [] := by
  have parts : ∀ t ∈ (n :: ns).map identifier, t.IsSound ∧ t.constructs = [] := by
    intro t mem
    obtain ⟨n, -, rfl⟩ := List.mem_map.mp mem
    exact plain_identifier n
  refine ⟨Tree.isSound_node (by decide) rfl fun t mem => (parts t mem).1, ?_⟩
  rw [dottedTree, Tree.constructs_node, List.flatMap_eq_nil_iff.mpr fun t mem => (parts t mem).2]
  rfl

theorem plain_withRole {t : Tree} (r : Role) (plain : t.IsSound ∧ t.constructs = []) :
    (t.withRole r).IsSound ∧ (t.withRole r).constructs = [] :=
  ⟨Tree.isSound_withRole r plain.1, (Tree.constructs_withRole r t).trans plain.2⟩

theorem Item.plain_tree (i : Item) : i.tree.IsSound ∧ i.tree.constructs = [] := by
  obtain ⟨n, ns, a | a⟩ := i
  · exact plain_withRole _ (plain_dottedTree n ns)
  · have name := plain_withRole .name (plain_dottedTree n ns)
    have other := plain_identifier a
    refine ⟨Tree.isSound_node (by decide) rfl (by simpa using ⟨name.1, other.1⟩), ?_⟩
    rw [Item.tree, Tree.constructs_node]
    simp [name.2, other.2, Tree.construct?, Tree.kind]

theorem Origin.plain_tree (o : Origin) : o.tree.IsSound ∧ o.tree.constructs = [] := by
  cases o with
  | absolute n ns => exact plain_withRole _ (plain_dottedTree n ns)
  | package _ => exact ⟨Tree.isSound_leaf (by decide) rfl, rfl⟩
  | relative _ n ns =>
    have name := plain_dottedTree n ns
    refine ⟨Tree.isSound_node (by decide) rfl (by simpa using name.1), ?_⟩
    rw [Origin.tree, Tree.constructs_node]
    simp [name.2, Tree.construct?, Tree.kind]

theorem import_node {k : Kind} {ts : List Tree} {c : Construct} (free : k ≠ .module ∧ k ≠ .block)
    (own : (Syntax.Tree.node k none {} [] ts).ownFault? [] = none)
    (is : (Syntax.Tree.node k none {} [] ts).construct? = some c)
    (plain : ∀ t ∈ ts, t.IsSound ∧ t.constructs = []) :
    (Syntax.Tree.node k none {} [] ts).IsSound ∧ (Syntax.Tree.node k none {} [] ts).constructs = [c] := by
  refine ⟨Tree.isSound_node free own fun t mem => (plain t mem).1, ?_⟩
  rw [Tree.constructs_node, is, List.flatMap_eq_nil_iff.mpr fun t mem => (plain t mem).2]
  rfl

theorem plain_items (is : List Item) : ∀ t ∈ is.map Item.tree, t.IsSound ∧ t.constructs = [] := by
  intro t mem
  obtain ⟨i, -, rfl⟩ := List.mem_map.mp mem
  exact i.plain_tree

theorem Origin.role_tree (o : Origin) : o.tree.role = some .moduleName := by cases o <;> rfl

theorem any_wildcard_eq_false (o : Origin) (is : List Item) :
    ((o.tree :: is.map Item.tree).any fun t => decide (t.kind = .wildcard)) = false := by
  have module_ : o.tree.kind ≠ .wildcard := by cases o <;> nofun
  have item (i : Item) : i.tree.kind ≠ .wildcard := by
    obtain ⟨n, ns, a | a⟩ := i <;> nofun
  simp [module_, item]

/-- The tree of an import has no fault and says what the import does. -/
theorem Import.construct_tree (m : Import) : m.tree.IsSound ∧ m.tree.constructs = [m.construct] := by
  cases m with
  | modules i is =>
    have names := importedNames_items .importStatement [] (i :: is) (by simp)
    refine import_node (by decide) rfl ?_ (plain_items (i :: is))
    exact congrArg (some ∘ Construct.importModules) names
  | names o i is =>
    have names := importedNames_items .fromImport [o.tree] (i :: is) (by simp [Origin.role_tree])
    have module_ := fromModule?_node o .fromImport ((i :: is).map Item.tree)
    refine import_node (by decide) rfl ?_ (List.forall_mem_cons.mpr ⟨o.plain_tree, plain_items (i :: is)⟩)
    rw [List.singleton_append] at names
    rw [Tree.construct?, Tree.kind]
    simp only [module_, names, Tree.children, any_wildcard_eq_false, Bool.false_eq_true, if_false, List.append_nil]
    rfl
  | all o =>
    have names := importedNames_items .fromImport [o.tree, .node .wildcard none {} [] []] []
      (by rw [List.forall_mem_cons, o.role_tree]; simp [Tree.role])
    have module_ := fromModule?_node o .fromImport [.node .wildcard none {} [] []]
    have wildcard : ([o.tree, .node .wildcard none {} [] []].any fun t => decide (t.kind = .wildcard)) = true := by
      simp [Tree.kind]
    have star : (Syntax.Tree.node .wildcard none {} [] []).IsSound := Tree.isSound_leaf (by decide) rfl
    refine import_node (by decide) rfl ?_ (by simpa using ⟨o.plain_tree, star, rfl⟩)
    rw [List.map_nil, List.append_nil] at names
    rw [Tree.construct?, Tree.kind]
    simp only [module_, names, Tree.children, wildcard, if_true]
    rfl
  | future i is =>
    have names := importedNames_items .futureImport [] (i :: is) (by simp)
    refine import_node (by decide) rfl ?_ (plain_items (i :: is))
    exact congrArg (some ∘ Construct.importFrom (some "__future__")) names

/-! ### What is imported -/

theorem pointed_ne_empty {n : List Char} (name : IsName n) (ns : List (List Char)) : pointed n ns ≠ "" := by
  obtain ⟨c, ds, rfl, -⟩ := name.start
  intro empty
  have text := congrArg String.toList empty
  rw [pointed, String.toList_intercalate] at text
  cases ns <;> simp at text

theorem SpellsOrigin.qualified (spelled : SpellsOrigin o cs) (name : String) :
    qualified o.module? name = o.qualify name := by
  cases spelled with
  | absolute _ _ n _ _ => exact if_neg (pointed_ne_empty n _)
  | package _ _ => rfl
  | relative _ _ n _ _ => exact if_neg (pointed_ne_empty n _)

theorem SpellsImport.imports (spelled : SpellsImport m cs) : m.construct.imports = m.imports := by
  cases spelled with
  | modules _ _ _ => rfl
  | names origin _ =>
    rw [Import.construct, Construct.imports, List.map_map, Import.imports]
    exact List.map_congr_left fun i _ => origin.qualified i.name
  | all origin => exact congrArg ([·]) (origin.qualified "*")
  | future _ _ _ =>
    rw [Import.construct, Construct.imports, List.map_map, Import.imports]
    exact List.map_congr_left fun i _ => rfl

/-- Imports make up all findings of imports. -/
theorem ofConstructs_imports (patterns : AccessPatterns) (ms : List Import)
    (same : ∀ m ∈ ms, m.construct.imports = m.imports) :
    Findings.ofConstructs patterns (ms.map Import.construct) = ⟨ms.flatMap Import.imports, [], []⟩ := by
  induction ms with
  | nil => rfl
  | cons m ms ih =>
    have own : m.construct.findings patterns = ⟨m.imports, [], []⟩ := by
      rw [Construct.findings, same m List.mem_cons_self]
      cases m <;> rfl
    rw [List.map_cons, Findings.ofConstructs_cons, own, ih fun m mem => same m (List.mem_cons_of_mem _ mem),
      List.flatMap_cons]
    rfl

end Footprint.Imports
