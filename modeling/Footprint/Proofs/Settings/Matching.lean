import Footprint.Proofs.Settings.Extension

/-!
# Matching regardless of case

A method whose name contains a pattern is classified by it, whichever way the pattern has been supplied and whatever
cases both are written in. The two are brought to lower case apart from each other, so this is bound to capital sigmas:
one that ends a word in the name and not in the pattern, or the other way round, becomes another letter there.
-/

namespace Footprint

open Settings AccessPatterns

namespace CommandLine.Arguments

def extensions (as : Arguments) (t : FileTree) : List Extension :=
  [.read as.readPatterns, .write as.writePatterns] ++ as.config.toList.map (.file t)

/-- The settings of a command line are extended like others. -/
theorem exists_extend_of_settings {as : Arguments} {t : FileTree} {s : Settings} (ok : as.settings t = .ok s) :
    ∃ s₀ s₁ : Settings, s₀.extend (as.extensions t) = .ok s₁ ∧ s.patterns = s₁.patterns := by
  refine ⟨{ root := as.path, ignorePatterns := as.ignore, threads := as.threads }, ?_⟩
  rw [settings] at ok
  rw [extensions]
  cases given : as.config with
  | none =>
    rw [given] at ok
    cases ok
    exact ⟨_, rfl, rfl⟩
  | some p =>
    rw [given] at ok
    dsimp only at ok
    generalize taken : Settings.addFile _ t p = outcome at ok
    cases outcome with
    | error e => cases ok
    | ok s₁ =>
      cases ok
      refine ⟨s₁, extend_cons_eq_ok_iff.mpr ⟨_, rfl, extend_cons_eq_ok_iff.mpr ⟨_, rfl, ?_⟩⟩, rfl⟩
      exact extend_cons_eq_ok_iff.mpr ⟨s₁, taken, rfl⟩

end CommandLine.Arguments

/-- A supplied pattern that a name contains is found in it, as long as each capital sigma of the pattern takes the same
form in the name. -/
theorem classify_of_contains {p m : String} (some : p ≠ "") {a b : List Char} (contains : m.toList = a ++ p.toList ++ b)
    (keeps : Text.KeepsSigmas a p.toList b) :
    (∀ (s s' : Settings) (es : List Extension), s.extend es = .ok s' →
      (p ∈ suppliedRead es → (s'.patterns.classify m).read = true) ∧
        (p ∈ suppliedWrite es → (s'.patterns.classify m).write = true)) ∧
    ∀ (t : FileTree) (as : CommandLine.Arguments) (s : Settings), as.settings t = .ok s →
      (p ∈ as.readPatterns → (s.patterns.classify m).read = true) ∧
        (p ∈ as.writePatterns → (s.patterns.classify m).write = true) := by
  have inside : (Text.lower p).toList <:+: (Text.lower m).toList := by
    rw [Text.toList_lower, Text.toList_lower, contains]
    exact Text.lowerAfter_infix keeps
  have extended (s s' : Settings) (es : List Extension) (ok : s.extend es = .ok s') :
      (p ∈ suppliedRead es → (s'.patterns.classify m).read = true) ∧
        (p ∈ suppliedWrite es → (s'.patterns.classify m).write = true) := by
    constructor
    · intro supplied
      exact anyIn_eq_true_iff.mpr
        ⟨Text.lower p, (mem_read_extend ok).mpr (.inr (mem_forms_iff.mpr ⟨p, supplied, some, rfl⟩)), inside⟩
    · intro supplied
      exact anyIn_eq_true_iff.mpr
        ⟨Text.lower p, (mem_write_extend ok).mpr (.inr (mem_forms_iff.mpr ⟨p, supplied, some, rfl⟩)), inside⟩
  refine ⟨extended, fun t as s ok => ?_⟩
  obtain ⟨s₀, s₁, steps, same⟩ := CommandLine.Arguments.exists_extend_of_settings ok
  rw [same]
  obtain ⟨read, write⟩ := extended s₀ s₁ _ steps
  constructor
  · intro given
    exact read (List.mem_append_left _ given)
  · intro given
    exact write (List.mem_append_right _ (List.mem_append_left _ given))

/-- The sigma that ends the pattern ends the first name as well, but not the second one, which is missed. -/
theorem classify_of_contains_sigma :
    "ΑΣ" ≠ "" ∧ "ΒΑΣ".toList = ['Β'] ++ "ΑΣ".toList ++ [] ∧ Text.KeepsSigmas ['Β'] "ΑΣ".toList [] ∧
      ∃ s, ({} : Settings).extend [.read ["ΑΣ"]] = .ok s ∧ (s.patterns.classify "ΒΑΣ").read = true ∧
        (s.patterns.classify "ΑΣΑ").read = false := by
  have keeps : Text.KeepsSigmas ['Β'] "ΑΣ".toList [] := by
    have split : "ΑΣ".toList = ['Α', 'Σ'] := by decide +kernel
    rw [split]
    rintro (_ | ⟨c, _ | ⟨d, x⟩⟩) y same
    · cases same
    · cases same
      decide +kernel
    · simp at same
  refine ⟨by decide, by decide +kernel, keeps, _, rfl, ?_, by decide +kernel⟩
  exact ((classify_of_contains (by decide) (by decide +kernel) keeps).1 _ _ [.read ["ΑΣ"]] rfl).1 (by decide)

end Footprint
