import Footprint.Proofs.Ignore.Lines

/-!
# Where rules have no answer

Rules tell by its components whether a path lies below their root, and then take the text of the root off that of
the path. The two agree but for some spellings: where two slashes follow the root's text, or where an absolute path
begins with another spelling of the root, an absolute path is left, and the rules have no answer. A relative path
without doubled slashes is never spelled so, and a path that a search asks about is not either.
-/

namespace Footprint

namespace Path

def withoutDot (p : Path) : Path := ⟨String.ofList (IgnoreRules.dropHead ['.', '/'] p.text.toList)⟩

/-- A path below a root by its components, but not by its text. -/
def GoesAstray (p root : Path) : Prop :=
  p.startsWith root.withoutDot = true ∧
    (root.withoutDot.components ≠ [.here] ∧ (∃ rest, p.withoutDot.text = root.withoutDot.text ++ "//" ++ rest) ∨
      p.withoutDot.isAbsolute = true ∧ ¬root.withoutDot.text.toList <+: p.withoutDot.text.toList)

variable {root p : Path}

theorem head_of_components_eq_here (here : p.components = [.here]) : p.text.toList.head? = some '.' := by
  rcases text_of_components_eq_here here with dot | dotted
  · rw [dot]
    rfl
  · obtain ⟨rest, same⟩ := List.isPrefixOf_iff_prefix.mp dotted
    rw [← same]
    rfl

theorem nil_mem_parts_of_withoutDot (h : [] ∈ p.withoutDot.parts.dropLast) : [] ∈ p.parts.dropLast := by
  rw [Path.parts, Text.mem_dropLast_split_iff List.not_mem_nil] at h ⊢
  rw [withoutDot, String.toList_ofList] at h
  cases dotted : ['.', '/'].isPrefixOf p.text.toList with
  | true =>
    have whole := IgnoreRules.dropHead_of_isPrefixOf dotted
    right
    rcases h with ⟨rest, absolute⟩ | ⟨before, rest, doubled⟩
    · exact ⟨['.'], rest, by rw [whole, absolute]; rfl⟩
    · exact ⟨['.', '/'] ++ before, rest, by rw [whole, doubled]; simp⟩
  | false => rwa [IgnoreRules.dropHead_of_not_isPrefixOf dotted] at h

/-- A path without empty parts but a last one does not go astray. -/
theorem not_goesAstray (tidy : [] ∉ p.parts.dropLast) : ¬p.GoesAstray root := by
  rintro ⟨-, goes⟩
  refine tidy (nil_mem_parts_of_withoutDot ?_)
  rw [Path.parts, Text.mem_dropLast_split_iff List.not_mem_nil]
  rcases goes with ⟨-, rest, doubled⟩ | ⟨absolute, -⟩
  · exact .inr ⟨root.withoutDot.text.toList, rest.toList, by rw [doubled]; simp⟩
  · rw [isAbsolute, decide_eq_true_iff, List.head?_eq_some_iff] at absolute
    exact .inl absolute

end Path

namespace IgnoreRules

variable {root p : Path} {rules : List IgnoreRule}

theorem head?_dropHead_slash_iff {cs : List Char} :
    (dropHead ['/'] cs).head? = some '/' ↔ ∃ rest, cs = '/' :: '/' :: rest := by
  rw [List.head?_eq_some_iff]
  cases slash : ['/'].isPrefixOf cs with
  | true =>
    have whole := dropHead_of_isPrefixOf slash
    generalize dropHead ['/'] cs = left at whole
    subst whole
    simp
  | false =>
    rw [dropHead_of_not_isPrefixOf slash]
    constructor <;>
    · rintro ⟨rest, rfl⟩
      simp [List.isPrefixOf] at slash

/-- What is left of a path is absolute if two slashes follow the root, or if the path is absolute and the root does
not come off. -/
theorem isAbsolute_strip_iff (rules : List IgnoreRule) :
    ((IgnoreRules.below root rules).strip p).isAbsolute = true ↔
      root.withoutDot.components ≠ [.here] ∧ (∃ rest, p.withoutDot.text = root.withoutDot.text ++ "//" ++ rest) ∨
        p.withoutDot.isAbsolute = true ∧ ¬root.withoutDot.text.toList <+: p.withoutDot.text.toList := by
  have own : (IgnoreRules.below root rules).root = root.withoutDot := rfl
  have path : p.withoutDot.text.toList = dropHead ['.', '/'] p.text.toList := String.toList_ofList
  have doubled : (∃ rest, p.withoutDot.text = root.withoutDot.text ++ "//" ++ rest) ↔
      ∃ rest, p.withoutDot.text.toList = root.withoutDot.text.toList ++ '/' :: '/' :: rest := by
    constructor
    · rintro ⟨rest, same⟩
      exact ⟨rest.toList, by simp [same]⟩
    · rintro ⟨rest, same⟩
      exact ⟨String.ofList rest, by rw [← String.toList_inj, same]; simp⟩
  rw [strip, own, ← path, doubled, Path.isAbsolute, Path.isAbsolute, decide_eq_true_iff, decide_eq_true_iff]
  generalize p.withoutDot.text.toList = cs
  have here : root.withoutDot.components = [.here] → root.withoutDot.text.toList.head? = some '.' :=
    Path.head_of_components_eq_here
  generalize root.withoutDot.text.toList = above at here
  split
  · rename_i kept
    rw [String.toList_ofList]
    rcases kept with dot | noSlash | notBefore
    · have apart : cs.head? = some '/' → ¬above <+: cs := by
        rintro slash ⟨rest, rfl⟩
        rw [List.head?_append, here dot] at slash
        cases slash
      simpa [dot] using apart
    · rw [Bool.not_eq_true', ← Bool.not_eq_true, List.contains_iff_mem] at noSlash
      refine iff_of_false (fun slash => noSlash (List.mem_of_mem_head? slash)) ?_
      rintro (⟨-, rest, rfl⟩ | ⟨slash, -⟩)
      · simp at noSlash
      · exact noSlash (List.mem_of_mem_head? slash)
    · rw [Bool.not_eq_true', ← Bool.not_eq_true, List.isPrefixOf_iff_prefix] at notBefore
      have none : ¬∃ rest, cs = above ++ '/' :: '/' :: rest := by
        rintro ⟨rest, same⟩
        exact notBefore ⟨_, same.symm⟩
      simp [notBefore, none]
  · rename_i comesOff
    simp only [not_or, Bool.not_eq_true', Bool.not_eq_false] at comesOff
    obtain ⟨notDot, -, before⟩ := comesOff
    obtain ⟨rest, rfl⟩ := List.isPrefixOf_iff_prefix.mp before
    rw [String.toList_ofList, List.drop_left, head?_dropHead_slash_iff]
    simp [notDot]

theorem ignores?_eq_none_iff {d : Bool} :
    (IgnoreRules.below root rules).ignores? p d = none ↔ rules ≠ [] ∧ p.GoesAstray root := by
  have own : (IgnoreRules.below root rules).root = root.withoutDot := rfl
  have given : (IgnoreRules.below root rules).rules = rules := rfl
  rw [ignores?, Path.GoesAstray, ← isAbsolute_strip_iff rules, own, given, Ne, ← List.isEmpty_iff]
  cases rules.isEmpty with
  | true => simp
  | false =>
    cases p.startsWith root.withoutDot with
    | false => simp
    | true => cases ((IgnoreRules.below root rules).strip p).isAbsolute <;> simp

end IgnoreRules

namespace IgnoreFilter

variable {t : FileTree} {s : Settings} {f : IgnoreFilter}

/-- A filter has no answer about a path exactly if no glob matches it, there are rules, and it goes astray. So there
is one about every relative path without doubled slashes, and about every entry below the root. -/
theorem answers_unless_astray (made : IgnoreFilter.ofSettings t s = .ok f) :
    (∀ p d, f.ignores? p d = none ↔ (∀ g ∈ hiddenGlobs ++ f.globs, g.isMatch p.text = false) ∧
      (∃ rs ∈ f.rules, rs.rules ≠ []) ∧ p.GoesAstray s.root) ∧
    (∀ p d, [] ∉ p.parts.dropLast → (f.ignores? p d).isSome = true) ∧
    ∀ ns d, ns ≠ [] → (∀ n ∈ ns, Path.IsName n) → (f.ignores? (s.root.below ns) d).isSome = true := by
  have unanswered (p : Path) (d : Bool) : f.ignores? p d = none ↔
      (∀ g ∈ hiddenGlobs ++ f.globs, g.isMatch p.text = false) ∧ (∃ rs ∈ f.rules, rs.rules ≠ []) ∧
        p.GoesAstray s.root := by
    have unmatched : (∀ g ∈ hiddenGlobs ++ f.globs, g.isMatch p.text = false) ↔
        (hiddenGlobs ++ f.globs).any (·.isMatch p.text) = false := by simp only [List.any_eq_false, Bool.not_eq_true]
    rw [ignores?, unmatched]
    cases (hiddenGlobs ++ f.globs).any (·.isMatch p.text) with
    | true => simp
    | false =>
      cases known : f.rules with
      | none => simp
      | some rs =>
        obtain ⟨rules, rfl⟩ := eq_below_of_readRules (ofSettings_eq_ok made).1 rs known
        have given : (IgnoreRules.below s.root rules).rules = rules := rfl
        simp [IgnoreRules.ignores?_eq_none_iff, given]
  refine ⟨unanswered, fun p d tidy => ?_, fun ns d ne names => ?_⟩
  · rw [Option.isSome_iff_ne_none]
    exact fun none => Path.not_goesAstray tidy ((unanswered p d).mp none).2.2
  · rw [ignores?_below made names ne]
    rfl

/-- Two slashes behind the root leave no answer; dots and a slash at the end do no harm. -/
theorem answers_unless_astray_doubled :
    let t : FileTree := ⟨[("a", .directory [(".gitignore", .file (.text "x\n"))])]⟩
    ∃ f, IgnoreFilter.ofSettings t { root := ⟨"a"⟩ } = .ok f ∧ f.ignores? ⟨"a//b"⟩ false = none ∧
      (f.ignores? ⟨"a/./c/../b/"⟩ false).isSome = true := by
  intro t
  have held : t.HoldsLines ⟨"a/.gitignore"⟩ ["x"] := ⟨_, rfl, by decide +kernel⟩
  have made : IgnoreFilter.ofSettings t { root := ⟨"a"⟩ } =
      .ok ⟨[], some (.below ⟨"a"⟩ ((IgnoreFile.unmarked ["x"]).filterMap IgnoreFile.rule?))⟩ :=
    ofSettings_of_gitignore (s := { root := ⟨"a"⟩ }) rfl held
  obtain ⟨unanswered, tidy, -⟩ := answers_unless_astray made
  refine ⟨_, made, (unanswered _ _).mpr ⟨by decide +kernel, ⟨_, rfl, ?_⟩, by decide, ?_⟩, tidy _ _ (by decide)⟩
  · exact List.ne_nil_of_length_pos (by decide +kernel)
  · exact .inl ⟨by decide, "b", by decide⟩

end IgnoreFilter

end Footprint
