import Footprint.Proofs.FileTree.Entries
import Mathlib.Data.List.Basic

/-!
# What lies below a directory

Names that are followed from a directory lead where they lead in the directory taken as a tree of its own, as long as
no link stands in it. So what is found below a directory does not depend on where it lies, nor on how that place is
spelled.
-/

namespace Footprint

def Entry.IsLinkless (e : Entry) : Prop := ∀ names target, e.at? names ≠ some (.link target)

namespace FileTree

variable {t : FileTree} {root : Path} {names ms ps ns : List String} {es : List (String × Entry)} {ss vs : List Step}
  {onLink onLink' : List String → Path → List Step → Except FileError Place} {r : Except FileError Place}

/-! ### From a root on -/

/-- A walk that comes to a directory goes on from there. -/
theorem walkFrom_append (more : vs ≠ []) (behind : walkFrom t true onLink' ms vs = r)
    (links : ∀ names target ss, onLink names target ss = .ok (.found ms (.directory es)) →
      onLink' names target (ss ++ vs) = r)
    (found : walkFrom t false onLink names ss = .ok (.found ms (.directory es))) :
    walkFrom t true onLink' names (ss ++ vs) = r := by
  induction ss generalizing names with
  | nil =>
    rw [walkFrom] at found
    split at found
    · cases found
      exact behind
    · cases found
  | cons step ss ih =>
    cases step with
    | here => exact ih found
    | up => exact ih found
    | child n =>
      have further : (ss ++ vs).isEmpty = false := by simp [more]
      rw [walkFrom] at found
      rw [List.cons_append, walkFrom, further]
      by_cases long : 255 < n.utf8ByteSize
      · rw [if_pos long] at found
        cases found
      rw [if_neg long] at found ⊢
      generalize (t.at? names).bind (·.child? n) = child at found
      cases child with
      | none =>
        dsimp only at found
        split at found <;> cases found
      | some e =>
        cases e with
        | directory es' => exact ih found
        | file c =>
          dsimp only at found
          split at found <;> cases found
        | link target =>
          dsimp only at found
          split at found
          · cases found
          · exact links _ _ _ found

/-- The fuel for links that is left where a directory is found does not count if none is met behind it. -/
theorem locateFrom_append {links : Nat} (more : vs ≠ []) (behind : ∀ onLink, walkFrom t true onLink ms vs = r)
    (found : locateFrom t false links names ss = .ok (.found ms (.directory es))) :
    locateFrom t true links names (ss ++ vs) = r := by
  induction links generalizing names ss with
  | zero => exact walkFrom_append more (behind _) (fun _ _ _ none => by cases none) found
  | succ links ih =>
    refine walkFrom_append more (behind _) (fun names target ss found => ?_) found
    split at found
    · cases found
    · rename_i goesOn
      rw [if_neg goesOn, ← List.append_assoc]
      exact ih found

theorem walkFrom_here (more : vs ≠ [])
    (links : ∀ names target ss, onLink names target (ss ++ .here :: vs) = onLink names target (ss ++ vs)) :
    walkFrom t true onLink names (ss ++ .here :: vs) = walkFrom t true onLink names (ss ++ vs) := by
  induction ss generalizing names with
  | nil => rfl
  | cons step ss ih =>
    cases step with
    | here => exact ih
    | up => exact ih
    | child n =>
      have before : (ss ++ Step.here :: vs).isEmpty = false := by simp
      have after : (ss ++ vs).isEmpty = false := by simp [more]
      simp only [List.cons_append, walkFrom, before, after, ih, links]

theorem locateFrom_here {links : Nat} (more : vs ≠ []) :
    locateFrom t true links names (ss ++ .here :: vs) = locateFrom t true links names (ss ++ vs) := by
  induction links generalizing names ss with
  | zero => exact walkFrom_here more fun _ _ _ => rfl
  | succ links ih =>
    refine walkFrom_here more fun names target ss => ?_
    rw [← List.append_assoc, ← List.append_assoc, ih]

theorem steps_below (root : Path) (hns : ∀ n ∈ ns, Path.IsName n) (ne : ns ≠ []) :
    ∃ ss, steps (root.below ns) = ss ++ ns.map .child ∧ (steps root = ss ∨ steps root = ss ++ [.here]) := by
  have last : (root.parentParts ++ ns.map String.toList).getLast? ≠ some [] := by
    rw [List.getLast?_append_of_ne_nil _ (by simpa using ne), List.getLast?_map]
    intro same
    obtain ⟨n, mem, empty⟩ := Option.map_eq_some_iff.mp same
    exact (hns n (List.mem_of_getLast? mem)).1 empty
  have names : (root.below ns).parts.getLast? ≠ some [] := Path.parts_below hns ne ▸ last
  unfold steps
  rw [if_neg fun slash => names slash.1, List.append_nil, Path.parts_below hns ne, List.filterMap_append,
    Path.filterMap_parentParts rfl, List.filterMap_map]
  refine ⟨_, congrArg _ ?_, ?_⟩
  · rw [← List.filterMap_eq_map]
    refine List.filterMap_congr fun n mem => ?_
    simp [(hns n mem).1, (hns n mem).2.1, (hns n mem).2.2.1]
  · split
    · exact .inr rfl
    · exact .inl (List.append_nil _)

theorem locate_eq_locateFrom (follow : Bool) (p : Path) (noNull : p.text.toList.contains '\x00' = false)
    (notEmpty : p.text ≠ "") (relative : p.isAbsolute = false) :
    t.locate follow p = locateFrom t follow linkLimit [] (steps p) := by
  rw [locate, noNull, relative]
  simp [notEmpty]

/-- A path below a directory leads where its names lead from there, if these meet no link. -/
theorem locate_below (found : t.locate false root = .ok (.found ms (.directory es))) (hns : ∀ n ∈ ns, Path.IsName n)
    (ne : ns ≠ []) (noNull : ("/".intercalate ns).toList.contains '\x00' = false)
    (behind : ∀ onLink, walkFrom t true onLink ms (ns.map .child) = r) : t.locate true (root.below ns) = r := by
  have more : ns.map Step.child ≠ [] := by simpa using ne
  rw [locate] at found
  split at found
  · cases found
  rename_i clean
  split at found
  · cases found
  rename_i relative
  rw [Bool.or_eq_true, not_or, decide_eq_true_eq, Bool.not_eq_true] at relative
  have text : (root.below ns).text = root.text ++ root.separator ++ "/".intercalate ns := Path.text_below hns ne
  have cleanBelow : (root.below ns).text.toList.contains '\x00' = false := by
    have slash : root.separator.toList.contains '\x00' = false := by
      rcases root.separator_eq with same | ⟨same, -⟩ <;> rw [same] <;> rfl
    rw [text, String.toList_append, String.toList_append, List.contains_append, List.contains_append, slash, noNull]
    simpa using clean
  have notEmptyBelow : (root.below ns).text ≠ "" := by
    rw [text]
    simp [relative.1]
  rw [locate_eq_locateFrom true _ cleanBelow notEmptyBelow (by rw [Path.isAbsolute_below hns, relative.2])]
  obtain ⟨ss, below, same | same⟩ := steps_below root hns ne
  · rw [below]
    exact locateFrom_append more behind (same ▸ found)
  · -- A slash behind the root is a step that keeps one where one is.
    rw [below, ← locateFrom_here more, ← List.singleton_append, ← List.append_assoc]
    exact locateFrom_append more behind (same ▸ found)

/-! ### From a directory on -/

/-- A place in a directory that lies at the end of names. -/
def Place.under (above : List String) : Place → Place
  | found names e => found (above ++ names) e
  | vacant directory n => vacant (above ++ directory) n

/-- From a directory without links, names lead where they lead in a tree that is this directory. -/
theorem walkFrom_under (there : t.at? ms = some (.directory es)) (linkless : (Entry.directory es).IsLinkless) (ns : List String) :
    walkFrom t true onLink (ms ++ ps) (ns.map .child) =
      (walkFrom ⟨es⟩ true onLink' ps (ns.map .child)).map (Place.under ms) := by
  have same (ps : List String) : t.at? (ms ++ ps) = (⟨es⟩ : FileTree).at? ps := by
    rw [at?_append, there, Option.bind_some, at?_eq]
    rfl
  induction ns generalizing ps with
  | nil =>
    rw [List.map_nil, walkFrom, walkFrom, same]
    cases (⟨es⟩ : FileTree).at? ps <;> rfl
  | cons n ns ih =>
    rw [List.map_cons, walkFrom, walkFrom]
    split
    · rfl
    rw [← at?_concat, ← at?_concat, List.append_assoc, same]
    cases child : (⟨es⟩ : FileTree).at? (ps ++ [n]) with
    | none => cases (ns.map Step.child).isEmpty <;> rfl
    | some e =>
      cases e with
      | directory es' => exact ih
      | file c => cases (ns.map Step.child).isEmpty <;> simp [Except.map, Place.under]
      | link target => exact absurd (at?_eq _ _ ▸ child) (linkless (ps ++ [n]) target)

theorem locate_intercalate (hns : ∀ n ∈ ns, Path.IsName n) (ne : ns ≠ [])
    (noNull : ("/".intercalate ns).toList.contains '\x00' = false) :
    ∃ onLink, t.locate true ⟨"/".intercalate ns⟩ = walkFrom t true onLink [] (ns.map .child) := by
  have same : (⟨"/".intercalate ns⟩ : Path) = (⟨""⟩ : Path).below ns := by
    rw [← Path.join_intercalate hns ne, Path.join, if_neg (by simp [Path.isAbsolute_intercalate hns ne]),
      if_pos (.inl rfl), String.empty_append]
  have notEmpty : "/".intercalate ns ≠ "" := by
    obtain ⟨c, cs, text, -⟩ := Path.head_intercalate hns ne
    exact fun empty => by simp [empty] at text
  have steps : steps ⟨"/".intercalate ns⟩ = ns.map .child := by
    obtain ⟨ss, below, none | none⟩ := steps_below ⟨""⟩ hns ne
    · obtain rfl : [] = ss := none
      rw [same, below, List.nil_append]
    · cases ss <;> cases none
  rw [locate_eq_locateFrom true ⟨"/".intercalate ns⟩ noNull notEmpty (Path.isAbsolute_intercalate hns ne), steps]
  exact ⟨_, rfl⟩

/-- What lies at a path below a directory without links is what the directory holds as a tree of its own. -/
theorem entry_below (at_root : t.entry false root = .ok (.directory es)) (linkless : (Entry.directory es).IsLinkless)
    (hns : ∀ n ∈ ns, Path.IsName n) (ne : ns ≠ []) :
    t.entry true (root.below ns) = (⟨es⟩ : FileTree).entry true ⟨"/".intercalate ns⟩ := by
  obtain ⟨ms, found, there⟩ := locate_of_entry at_root
  cases noNull : ("/".intercalate ns).toList.contains '\x00' with
  | true =>
    have below : (root.below ns).text.toList.contains '\x00' = true := by
      rw [Path.text_below hns ne, String.toList_append, List.contains_append, noNull, Bool.or_true]
    rw [FileTree.entry, FileTree.entry, locate, locate, if_pos below, if_pos noNull]
  | false =>
    obtain ⟨onLink, alone⟩ := locate_intercalate (t := ⟨es⟩) hns ne noNull
    have under (onLink' : List String → Path → List Step → Except FileError Place) :
        walkFrom t true onLink' (ms ++ []) (ns.map .child) =
          (walkFrom ⟨es⟩ true onLink [] (ns.map .child)).map (Place.under ms) := walkFrom_under there linkless ns
    have below := locate_below found hns ne noNull (List.append_nil ms ▸ under)
    rw [FileTree.entry, FileTree.entry, below, alone]
    rcases walkFrom ⟨es⟩ true onLink [] (ns.map .child) with e | ⟨names, e⟩ | ⟨names, n⟩ <;> rfl

end FileTree

end Footprint
