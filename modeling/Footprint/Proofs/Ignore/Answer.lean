import Footprint.Proofs.Path.Below
import Footprint.Search

/-!
# Rules have an answer below their root

Rules take the text of their root off a path before they look at it, and have no answer if an absolute path
is left. Below the root that never comes to pass: what is left begins with a name, or is the path as a whole.
-/

namespace Footprint

variable {root : Path} {ns : List String} {rules : List IgnoreRule}

namespace Path

theorem not_isPrefixOf_intercalate (hns : ∀ n ∈ ns, IsName n) (ne : ns ≠ []) :
    (['.', '/'].isPrefixOf ("/".intercalate ns).toList) = false := by
  rw [Bool.eq_false_iff, ne_eq, List.isPrefixOf_iff_prefix]
  rintro ⟨rest, same⟩
  have parts := parts_intercalate hns ne
  rw [Path.parts, ← same] at parts
  obtain ⟨n, ms, rfl⟩ := List.exists_cons_of_ne_nil ne
  have first : Text.split '/' (['.'] ++ '/' :: rest) = [['.']] ++ Text.split '/' rest := Text.split_append_cons ..
  rw [List.map_cons] at parts
  exact (hns n List.mem_cons_self).2.1 (List.cons.inj (first.symm.trans parts)).1.symm

theorem component?_ne_here (part : List Char) : component? part ≠ some .here := by
  unfold component?
  split
  · exact nofun
  · split <;> exact nofun

def isDotted (p : Path) : Bool := ['.', '/'].isPrefixOf p.text.toList

theorem text_of_components_eq_here {p : Path} (here : p.components = [.here]) :
    p.text.toList = ['.'] ∨ p.isDotted = true := by
  rw [components] at here
  split at here
  · cases here
  split at here
  · rename_i first
    have whole := Text.joinBy_split '/' p.text.toList
    obtain ⟨ps, same⟩ := List.head?_eq_some_iff.mp first
    rw [Path.parts] at same
    rw [isDotted, ← whole, same]
    cases ps with
    | nil => exact .inl rfl
    | cons part ps => exact .inr (by simp [Text.joinBy, List.isPrefixOf])
  · have mem : Component.here ∈ p.parts.filterMap component? := here ▸ List.mem_cons_self
    obtain ⟨part, -, isHere⟩ := List.mem_filterMap.mp mem
    exact absurd isHere (component?_ne_here part)

theorem exists_of_components_eq_here {cs : List Char} (here : (⟨String.ofList cs⟩ : Path).components = [.here]) :
    ∃ ds, cs = '.' :: ds := by
  rcases text_of_components_eq_here here with dot | dotted
  · rw [String.toList_ofList] at dot
    exact ⟨[], dot⟩
  · rw [isDotted, String.toList_ofList, List.isPrefixOf_iff_prefix] at dotted
    obtain ⟨rest, rfl⟩ := dotted
    exact ⟨_, rfl⟩

end Path

namespace IgnoreRules

theorem dropHead_of_isPrefixOf {head cs : List Char} (h : head.isPrefixOf cs = true) :
    cs = head ++ dropHead head cs := by
  obtain ⟨rest, rfl⟩ := List.isPrefixOf_iff_prefix.mp h
  simp [dropHead]

theorem dropHead_of_not_isPrefixOf {head cs : List Char} (h : head.isPrefixOf cs = false) : dropHead head cs = cs := by
  simp [dropHead, h]

/-- The text of a path without a dot and slash before it: the root's text comes first, unless the root is a
dot. -/
theorem dropHead_below (hns : ∀ n ∈ ns, Path.IsName n) (ne : ns ≠ []) :
    dropHead ['.', '/'] (root.below ns).text.toList =
        dropHead ['.', '/'] root.text.toList ++ (root.separator.toList ++ ("/".intercalate ns).toList) ∨
      dropHead ['.', '/'] root.text.toList = ['.'] ∧
        dropHead ['.', '/'] (root.below ns).text.toList = ("/".intercalate ns).toList := by
  have noHead := Path.not_isPrefixOf_intercalate hns ne
  rw [Path.text_below hns ne, String.toList_append, String.toList_append, List.append_assoc]
  cases dotted : ['.', '/'].isPrefixOf root.text.toList with
  | true =>
    left
    have whole := dropHead_of_isPrefixOf dotted
    conv => lhs; rw [whole]
    simp [dropHead]
  | false =>
    rw [dropHead_of_not_isPrefixOf dotted]
    cases h : ['.', '/'].isPrefixOf (root.text.toList ++ (root.separator.toList ++ ("/".intercalate ns).toList)) with
    | false => exact .inl (dropHead_of_not_isPrefixOf h)
    | true =>
      right
      -- The dot and the slash are the root and the separator, for neither the root nor the names have both.
      cases text : root.text.toList with
      | nil =>
        have none : root.separator = "" := by
          simp [Path.separator, Path.getLast?_parts_eq_nil_iff, String.toList_eq_nil_iff.mp text]
        rw [text, none] at h
        exact absurd (h.symm.trans noHead) (by decide)
      | cons x xs =>
        cases xs with
        | nil =>
          rw [text] at h
          rcases root.separator_eq with slash | ⟨none, empty | last⟩
          · have single : "/".toList = ['/'] := rfl
            rw [slash, single] at h ⊢
            obtain rfl : '.' = x := by simpa [List.isPrefixOf] using h
            exact ⟨rfl, by simp [dropHead]⟩
          · rw [empty] at text
            cases text
          · rw [text] at last
            obtain rfl := Option.some.inj last
            simp [List.isPrefixOf] at h
        | cons y ys =>
          rw [text] at h dotted
          simp [List.isPrefixOf] at h dotted
          exact absurd h.2 (dotted h.1)

theorem slash_mem_dropHead {cs : List Char} (last : cs.getLast? = some '/') :
    dropHead ['.', '/'] cs = [] ∨ '/' ∈ dropHead ['.', '/'] cs := by
  cases dotted : ['.', '/'].isPrefixOf cs with
  | false =>
    rw [dropHead_of_not_isPrefixOf dotted]
    exact .inr (List.mem_of_getLast? last)
  | true =>
    rw [dropHead_of_isPrefixOf dotted] at last
    cases left : dropHead ['.', '/'] cs with
    | nil => exact .inl rfl
    | cons d ds =>
      rw [left, List.getLast?_append, List.getLast?_cons, Option.some_or] at last
      exact .inr (List.mem_of_getLast? (List.getLast?_cons.trans last))

theorem strip_below_dot (hns : ∀ n ∈ ns, Path.IsName n) (ne : ns ≠ []) :
    ((IgnoreRules.below ⟨"."⟩ rules).strip ((⟨"."⟩ : Path).below ns)).text.toList = ("/".intercalate ns).toList := by
  have slash : (⟨"."⟩ : Path).separator = "/" := by decide
  have here : (⟨String.ofList (dropHead ['.', '/'] ".".toList)⟩ : Path).components = [.here] := by decide
  rw [strip, IgnoreRules.below, if_pos (.inl here), String.toList_ofList, Path.text_below hns ne, slash]
  simp [dropHead]

/-- Of a path below a root the names are left, or a text that begins with a dot, if one is spelled before the root and
the root is one. -/
theorem strip_below_cases (hns : ∀ n ∈ ns, Path.IsName n) (ne : ns ≠ []) :
    ((IgnoreRules.below root rules).strip (root.below ns)).text.toList = ("/".intercalate ns).toList ∨
      root.isDotted = true ∧
        ∃ cs, ((IgnoreRules.below root rules).strip (root.below ns)).text.toList = '.' :: cs := by
  by_cases dot : root.text.toList = ['.']
  · obtain rfl : root = ⟨"."⟩ := congrArg Path.mk (String.toList_inj.mp dot)
    exact .inl (strip_below_dot hns ne)
  have single : "/".toList = ['/'] := rfl
  have undotted (no : root.isDotted = false) : dropHead ['.', '/'] root.text.toList = root.text.toList :=
    dropHead_of_not_isPrefixOf no
  have slashed : root.text.toList.getLast? = some '/' → _ := slash_mem_dropHead
  have nothing (empty : root.text = "") : dropHead ['.', '/'] root.text.toList = [] := by
    rw [empty]
    rfl
  have whole : _ ∨ _ := @dropHead_below root ns hns ne
  simp only [strip, IgnoreRules.below, String.toList_ofList]
  generalize dropHead ['.', '/'] (root.below ns).text.toList = path at whole
  generalize dropHead ['.', '/'] root.text.toList = above at whole undotted slashed nothing
  rcases whole with rfl | ⟨rfl, rfl⟩
  · split
    · rename_i kept
      rw [String.toList_ofList]
      rcases kept with here | noSlash | notBefore
      · have dotted : root.isDotted = true := by
          cases no : root.isDotted with
          | true => rfl
          | false =>
            rw [undotted no, String.ofList_toList] at here
            rcases Path.text_of_components_eq_here here with isDot | dotted
            · exact absurd isDot dot
            · exact no.symm.trans dotted
        obtain ⟨cs, rfl⟩ := Path.exists_of_components_eq_here here
        exact .inr ⟨dotted, _, List.cons_append⟩
      · left
        rw [Bool.not_eq_true', ← Bool.not_eq_true, List.contains_iff_mem] at noSlash
        rcases root.separator_eq with slash | ⟨none, empty | last⟩
        · exact absurd (by simp [slash, single]) noSlash
        · simp [none, nothing empty]
        · rcases slashed last with rfl | mem
          · simp [none]
          · exact absurd (List.mem_append_left _ mem) noSlash
      · exact absurd (List.isPrefixOf_iff_prefix.mpr (List.prefix_append ..)) (by simpa using notBefore)
    · obtain ⟨c, cs, names, first⟩ := Path.head_intercalate hns ne
      left
      rw [String.toList_ofList, List.drop_left, names]
      rcases root.separator_eq with slash | ⟨none, -⟩
      · simp [slash, single, dropHead]
      · simp [none, dropHead, List.isPrefixOf, first.symm]
  · have here : (⟨String.ofList ['.']⟩ : Path).components = [.here] := by decide
    rw [if_pos (.inl here), String.toList_ofList]
    exact .inl rfl

/-- A path without its root does not begin with a slash. -/
theorem not_isAbsolute_strip (hns : ∀ n ∈ ns, Path.IsName n) (ne : ns ≠ []) :
    ((IgnoreRules.below root rules).strip (root.below ns)).isAbsolute = false := by
  rcases strip_below_cases hns ne with names | ⟨-, cs, text⟩
  · have relative := Path.isAbsolute_intercalate hns ne
    rwa [Path.isAbsolute, ← names] at relative
  · rw [Path.isAbsolute, text]
    rfl

/-- About an entry below their root, rules have an answer. -/
theorem isSome_ignores?_below (hns : ∀ n ∈ ns, Path.IsName n) (ne : ns ≠ []) (isDirectory : Bool) :
    ((IgnoreRules.below root rules).ignores? (root.below ns) isDirectory).isSome = true := by
  rw [ignores?, not_isAbsolute_strip hns ne]
  simp only [Bool.false_eq_true, if_false]
  split
  · rfl
  · split <;> rfl

theorem root_below (undotted : root.isDotted = false) : (IgnoreRules.below root rules).root = root := by
  rw [below, dropHead_of_not_isPrefixOf undotted, String.ofList_toList]

/-- Rules for a root that is spelled without a dot and slash see only the names below it. -/
theorem strip_below (undotted : root.isDotted = false) (hns : ∀ n ∈ ns, Path.IsName n) (ne : ns ≠ []) :
    (IgnoreRules.below root rules).strip (root.below ns) = ⟨"/".intercalate ns⟩ := by
  rcases strip_below_cases hns ne with names | ⟨dotted, -⟩
  · exact congrArg Path.mk (String.toList_inj.mp names)
  · exact absurd (undotted.symm.trans dotted) Bool.false_ne_true

/-- So it makes no difference to rules where the directory lies that they are for. -/
theorem ignores?_below_eq {r₁ r₂ : Path} (undotted₁ : r₁.isDotted = false) (undotted₂ : r₂.isDotted = false)
    (hns : ∀ n ∈ ns, Path.IsName n) (ne : ns ≠ []) (isDirectory : Bool) :
    (IgnoreRules.below r₁ rules).ignores? (r₁.below ns) isDirectory =
      (IgnoreRules.below r₂ rules).ignores? (r₂.below ns) isDirectory := by
  rw [ignores?, ignores?, strip_below undotted₁ hns ne, strip_below undotted₂ hns ne, root_below undotted₁,
    root_below undotted₂, Path.startsWith_below hns, Path.startsWith_below hns]
  rfl

end IgnoreRules

namespace IgnoreFilter

variable {t : FileTree} {s : Settings} {f : IgnoreFilter}

theorem exists_of_bind_eq_ok {ε α β : Type} {r : Except ε α} {k : α → Except ε β} {y : β}
    (h : r >>= k = .ok y) : ∃ x, r = .ok x ∧ k x = .ok y := by
  cases r with
  | error e => cases h
  | ok x => exact ⟨x, rfl, h⟩

/-- A filter is made of the rules for its root and of the globs of its settings. -/
theorem ofSettings_eq_ok (made : IgnoreFilter.ofSettings t s = .ok f) :
    readRules t s = .ok f.rules ∧ readGlobs s.ignorePatterns = .ok f.globs := by
  obtain ⟨rules, readRules, made⟩ := exists_of_bind_eq_ok made
  obtain ⟨globs, readGlobs, made⟩ := exists_of_bind_eq_ok made
  obtain rfl : (⟨globs, rules⟩ : IgnoreFilter) = f := Except.ok.inj made
  exact ⟨readRules, readGlobs⟩

theorem eq_below_of_readRules {rules : Option IgnoreRules} (read : readRules t s = .ok rules) :
    ∀ rs ∈ rules, ∃ lines, rs = .below s.root lines := by
  unfold readRules at read
  split at read
  · split at read
    · obtain rfl := Except.ok.inj read
      rintro rs ⟨⟩
      exact ⟨_, rfl⟩
    · cases read
  · dsimp only at read
    split at read
    · obtain rfl := Except.ok.inj read
      rintro rs ⟨⟩
      exact ⟨_, rfl⟩
    · obtain rfl := Except.ok.inj read
      rintro rs ⟨⟩

/-- A filter that settings make has an answer about each entry below their root. -/
theorem ignores?_below (made : IgnoreFilter.ofSettings t s = .ok f) {ns : List String}
    (hns : ∀ n ∈ ns, Path.IsName n) (ne : ns ≠ []) (isDirectory : Bool) :
    f.ignores? (s.root.below ns) isDirectory = some (f.ignores (s.root.below ns) isDirectory) := by
  suffices answered : (f.ignores? (s.root.below ns) isDirectory).isSome = true by
    obtain ⟨b, answer⟩ := Option.isSome_iff_exists.mp answered
    rw [ignores, answer, Option.getD_some]
  rw [ignores?]
  split
  · rfl
  · split
    · rename_i rs known
      obtain ⟨lines, rfl⟩ := eq_below_of_readRules (ofSettings_eq_ok made).1 rs known
      exact IgnoreRules.isSome_ignores?_below hns ne isDirectory
    · rfl

end IgnoreFilter

end Footprint
