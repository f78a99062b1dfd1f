import Footprint.Proofs.Text.Split
import Footprint.Path

/-!
# Paths below a root

What the names below a root add to it: the components of the root come first, then the names. The
path of a report is therefore made of the names alone, however the root is spelled.
-/

namespace Footprint

namespace Path

/-- A text by which a directory can hold an entry. -/
def IsName (n : String) : Prop :=
  n.toList ≠ [] ∧ n.toList ≠ ['.'] ∧ n.toList ≠ ['.', '.'] ∧ '/' ∉ n.toList

instance (n : String) : Decidable (IsName n) := inferInstanceAs (Decidable (_ ∧ _))

/-- The parts of a directory's path that come before a name in it. -/
def parentParts (p : Path) : List (List Char) :=
  if p.parts.getLast? = some [] then p.parts.dropLast else p.parts

variable {root : Path} {n : String} {ns : List String}

theorem IsName.parts (hn : IsName n) : (⟨n⟩ : Path).parts = [n.toList] :=
  Text.split_of_not_mem hn.2.2.2

theorem IsName.not_isAbsolute (hn : IsName n) : (⟨n⟩ : Path).isAbsolute = false := by
  rw [isAbsolute, decide_eq_false_iff_not]
  intro h
  exact hn.2.2.2 (List.mem_of_mem_head? h)

theorem IsName.component? (hn : IsName n) : component? n.toList = some (.name n) := by
  simp [Path.component?, hn.1, hn.2.1, hn.2.2.1]

/-- What parts a directory's path from a name in it. -/
def separator (p : Path) : String := if p.parts.getLast? = some [] then "" else "/"

theorem getLast?_parts_eq_nil_iff :
    root.parts.getLast? = some [] ↔ root.text = "" ∨ root.text.toList.getLast? = some '/' := by
  rw [Path.parts, Text.getLast?_split_eq_nil_iff, String.toList_eq_nil_iff]

theorem separator_eq :
    root.separator = "/" ∨ root.separator = "" ∧ (root.text = "" ∨ root.text.toList.getLast? = some '/') := by
  rw [separator, ← getLast?_parts_eq_nil_iff]
  split
  · rename_i last
    exact .inr ⟨rfl, last⟩
  · exact .inl rfl

theorem text_join (hn : IsName n) :
    (root.join ⟨n⟩).text = root.text ++ root.separator ++ n := by
  simp only [separator, join, hn.not_isAbsolute, ← getLast?_parts_eq_nil_iff, Bool.false_eq_true, if_false]
  split <;> simp

theorem parts_join (hn : IsName n) : (root.join ⟨n⟩).parts = root.parentParts ++ [n.toList] := by
  rw [Path.parts, text_join hn, separator, parentParts]
  split
  · rename_i h
    rcases Text.getLast?_split_eq_nil_iff.mp h with empty | slash
    · simp [Path.parts, empty, Text.split, Text.split_of_not_mem hn.2.2.2]
    · obtain ⟨cs, hcs⟩ := List.getLast?_eq_some_iff.mp slash
      have split_cs : root.parts = Text.split '/' cs ++ [[]] := by
        rw [Path.parts, hcs, Text.split_append_cons]; rfl
      simp [split_cs, hcs, Text.split_append_cons, Text.split_of_not_mem hn.2.2.2]
  · simp [Path.parts, Text.split_append_cons, Text.split_of_not_mem hn.2.2.2]

theorem parentParts_join (hn : IsName n) : (root.join ⟨n⟩).parentParts = (root.join ⟨n⟩).parts := by
  rw [parentParts, if_neg]
  simp [parts_join hn, hn.1]

theorem filterMap_parentParts {β : Type} {f : List Char → Option β} (none : f [] = none) :
    root.parentParts.filterMap f = root.parts.filterMap f := by
  unfold parentParts
  split
  · rename_i h
    obtain ⟨ps, hps⟩ := List.getLast?_eq_some_iff.mp h
    simp [hps, none]
  · rfl

theorem head?_parentParts_append (hn : IsName n) :
    ((root.parentParts ++ [n.toList]).head? = some ['.']) ↔ root.parts.head? = some ['.'] := by
  unfold parentParts
  split
  · rename_i h
    obtain ⟨ps, hps⟩ := List.getLast?_eq_some_iff.mp h
    rw [hps, List.dropLast_concat]
    cases ps <;> simp [hn.2.1]
  · cases hp : root.parts with
    | nil => exact (Text.split_ne_nil _ _ hp).elim
    | cons p ps => simp

theorem isAbsolute_join (hn : IsName n) : (root.join ⟨n⟩).isAbsolute = root.isAbsolute := by
  have h := hn.not_isAbsolute
  rw [isAbsolute, text_join hn, separator]
  cases hr : root.text.toList with
  | nil =>
    have empty : root.parts.getLast? = some [] := by
      rw [Path.parts, Text.getLast?_split_eq_nil_iff]; exact .inl hr
    simp_all [isAbsolute]
  | cons c cs => simp [isAbsolute, hr]

theorem components_join (hn : IsName n) :
    (root.join ⟨n⟩).components = root.components ++ [.name n] := by
  have named : (root.join ⟨n⟩).parts.filterMap component? =
      root.parts.filterMap component? ++ [.name n] := by
    rw [parts_join hn, List.filterMap_append, filterMap_parentParts rfl]
    simp [hn.component?]
  have here : (root.join ⟨n⟩).parts.head? = some ['.'] ↔ root.parts.head? = some ['.'] := by
    rw [parts_join hn, head?_parentParts_append hn]
  simp only [components, isAbsolute_join hn, here, named]
  split
  · simp
  · split <;> simp

@[simp] theorem below_nil : root.below [] = root := rfl

@[simp] theorem below_cons : root.below (n :: ns) = (root.join ⟨n⟩).below ns := rfl

theorem components_below (hns : ∀ n ∈ ns, IsName n) :
    (root.below ns).components = root.components ++ ns.map .name := by
  induction ns generalizing root with
  | nil => simp
  | cons n ns ih =>
    rw [below_cons, ih fun m hm => hns m (List.mem_cons_of_mem _ hm),
      components_join (hns n List.mem_cons_self)]
    simp

theorem parts_below (hns : ∀ n ∈ ns, IsName n) (ne : ns ≠ []) :
    (root.below ns).parts = root.parentParts ++ ns.map String.toList := by
  induction ns generalizing root with
  | nil => exact absurd rfl ne
  | cons n ns ih =>
    have hn := hns n List.mem_cons_self
    cases ns with
    | nil => simp [parts_join hn]
    | cons m ms =>
      rw [below_cons, ih (fun k hk => hns k (List.mem_cons_of_mem _ hk)) (by simp),
        parentParts_join hn, parts_join hn]
      simp

theorem isAbsolute_below (hns : ∀ n ∈ ns, IsName n) : (root.below ns).isAbsolute = root.isAbsolute := by
  induction ns generalizing root with
  | nil => rfl
  | cons n ns ih =>
    rw [below_cons, ih fun m mem => hns m (List.mem_cons_of_mem _ mem), isAbsolute_join (hns n List.mem_cons_self)]

theorem startsWith_below (hns : ∀ n ∈ ns, IsName n) : (root.below ns).startsWith root = true := by
  simp [startsWith, components_below hns]

/-- What a report calls an entry below its root. -/
theorem relativeTo?_below (hns : ∀ n ∈ ns, IsName n) :
    (root.below ns).relativeTo? root = some ⟨"/".intercalate ns⟩ := by
  rw [relativeTo?, if_pos (startsWith_below hns), components_below hns]
  simp [Function.comp_def, Component.text]

theorem separator_join (hn : IsName n) : (root.join ⟨n⟩).separator = "/" := by
  rw [separator, parts_join hn, if_neg]
  simp [hn.1]

/-- The text of a path below a root: that of the root and the names, with a slash between any two. -/
theorem text_below (hns : ∀ n ∈ ns, IsName n) (ne : ns ≠ []) :
    (root.below ns).text = root.text ++ root.separator ++ "/".intercalate ns := by
  induction ns generalizing root with
  | nil => exact absurd rfl ne
  | cons n ns ih =>
    have hn := hns n List.mem_cons_self
    cases ns with
    | nil => rw [below_cons, below_nil, text_join hn, String.intercalate_singleton]
    | cons m ms =>
      rw [below_cons, ih (fun k mem => hns k (List.mem_cons_of_mem _ mem)) (List.cons_ne_nil m ms),
        separator_join hn, text_join hn, String.intercalate_cons_cons]
      simp only [String.append_assoc]

theorem head_intercalate (hns : ∀ n ∈ ns, IsName n) (ne : ns ≠ []) :
    ∃ c cs, ("/".intercalate ns).toList = c :: cs ∧ c ≠ '/' := by
  obtain ⟨n, ms, rfl⟩ := List.exists_cons_of_ne_nil ne
  have hn := hns n List.mem_cons_self
  obtain ⟨c, cs, same⟩ := List.exists_cons_of_ne_nil hn.1
  have first : c ≠ '/' := fun slash => hn.2.2.2 (by rw [same, slash]; exact List.mem_cons_self)
  cases ms with
  | nil => exact ⟨c, cs, by rw [String.intercalate_singleton, same], first⟩
  | cons m ms =>
    refine ⟨c, cs ++ ("/" ++ "/".intercalate (m :: ms)).toList, ?_, first⟩
    rw [String.intercalate_cons_cons, String.append_assoc, String.toList_append, same, List.cons_append]

theorem isAbsolute_intercalate (hns : ∀ n ∈ ns, IsName n) (ne : ns ≠ []) :
    (⟨"/".intercalate ns⟩ : Path).isAbsolute = false := by
  obtain ⟨c, cs, same, first⟩ := head_intercalate hns ne
  simp [isAbsolute, same, first]

theorem join_intercalate (hns : ∀ n ∈ ns, IsName n) (ne : ns ≠ []) :
    root.join ⟨"/".intercalate ns⟩ = root.below ns := by
  have text : (root.below ns).text = _ := text_below hns ne
  have path : root.below ns = ⟨(root.below ns).text⟩ := rfl
  rw [separator] at text
  rw [path, text]
  simp only [join, isAbsolute_intercalate hns ne, ← getLast?_parts_eq_nil_iff, Bool.false_eq_true, if_false]
  split <;> simp

theorem parts_intercalate (hns : ∀ n ∈ ns, IsName n) (ne : ns ≠ []) :
    (⟨"/".intercalate ns⟩ : Path).parts = ns.map String.toList := by
  rw [Path.parts, String.toList_intercalate, Text.split_eq_splitOn]
  refine List.splitOn_intercalate _ ?_ (by simpa using ne)
  intro l hl
  obtain ⟨n, hn, rfl⟩ := List.mem_map.mp hl
  exact (hns n hn).2.2.2

/-- Names can be read back from what a report calls their entry. -/
theorem intercalate_injective {ms : List String} (hns : ∀ n ∈ ns, IsName n) (hms : ∀ n ∈ ms, IsName n)
    (ne : ns ≠ []) (me : ms ≠ []) (h : (⟨"/".intercalate ns⟩ : Path) = ⟨"/".intercalate ms⟩) :
    ns = ms := by
  have parts := congrArg Path.parts h
  rw [parts_intercalate hns ne, parts_intercalate hms me] at parts
  exact (List.map_inj_right fun _ _ => String.toList_inj.mp).mp parts

theorem fileName?_join (hn : IsName n) : (root.join ⟨n⟩).fileName? = some n := by
  simp [fileName?, components_join hn]

theorem fileName?_name (hn : IsName n) : (⟨n⟩ : Path).fileName? = some n := by
  simp [fileName?, components, hn.not_isAbsolute, hn.parts, hn.component?, hn.2.1]

theorem extension?_join (hn : IsName n) : (root.join ⟨n⟩).extension? = (⟨n⟩ : Path).extension? := by
  simp only [extension?, fileName?_join hn, fileName?_name hn]

end Path

end Footprint
