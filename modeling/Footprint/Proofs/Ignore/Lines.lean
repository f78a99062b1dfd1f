import Footprint.Proofs.Text.Split
import Footprint.Proofs.Ignore.Answer

/-!
# Lines of ignore files

A line of an ignore file that is no rule takes nothing from the other lines. In the ignore file of the root it
counts as an empty line, or as none; in one that the settings name it is an error. A file in order yields the
same filter either way. Only the marks at the beginning of a file depend on a line's place: without the first
line they are those of the next one.
-/

namespace Footprint

namespace IgnoreFile

def IsValid (s : String) : Prop := ∃ rule, IgnoreRule.ofLine s = .ok rule

theorem isOk_ofLine_iff {s : String} : (IgnoreRule.ofLine s).isOk = true ↔ IsValid s := by
  rw [IsValid]
  cases IgnoreRule.ofLine s <;> simp [Except.isOk, Except.toBool]

instance (s : String) : Decidable (IsValid s) := decidable_of_iff _ isOk_ofLine_iff

/-- The lines of a file, of which the first one comes without marks. -/
def unmarked : List String → List String
  | [] => []
  | s :: ss => dropMarks s :: ss

def kept : List String → List String
  | [] => []
  | s :: ss => (if IsValid (dropMarks s) then [s] else []) ++ ss.filter (IsValid ·)

/-- The lines of a file, with an empty line in the place of each that is not valid. -/
def blanked : List String → List String
  | [] => []
  | s :: ss => (if IsValid (dropMarks s) then s else "") :: ss.map fun s => if IsValid s then s else ""

variable {s : String} {ss : List String}

def rule? (s : String) : Option IgnoreRule := (line s).toOption.join

theorem rules_map_line (ss : List String) : rules (ss.map line) = ss.filterMap rule? := by
  rw [rules, List.filterMap_map]
  rfl

theorem line_of_not_isValid (h : ¬IsValid s) : ∃ p, line s = .error p := by
  rw [line]
  cases read : IgnoreRule.ofLine s with
  | ok rule => exact absurd ⟨rule, read⟩ h
  | error e => exact ⟨_, rfl⟩

theorem rule?_of_not_isValid (h : ¬IsValid s) : rule? s = none := by
  obtain ⟨p, read⟩ := line_of_not_isValid h
  rw [rule?, read]
  rfl

@[simp] theorem rule?_empty : rule? "" = none := rfl

theorem rule?_ite : rule? (if IsValid s then s else "") = rule? s := by
  split
  · rfl
  · rename_i notValid
    rw [rule?_of_not_isValid notValid, rule?_empty]

theorem filterMap_rule?_filter (ss : List String) : (ss.filter (IsValid ·)).filterMap rule? = ss.filterMap rule? := by
  rw [List.filterMap_filter]
  congr 1
  funext s
  split
  · rfl
  · rename_i notValid
    rw [rule?_of_not_isValid (by simpa using notValid)]

theorem dropMarks_eq_self (h : s.toList.head? ≠ some '\ufeff') : dropMarks s = s := by
  rw [dropMarks, ← String.toList_inj, String.toList_ofList]
  cases same : s.toList with
  | nil => rfl
  | cons c cs =>
    rw [same] at h
    exact List.dropWhile_cons_of_neg (by simpa using h)

/-- The rules of a file do not change if lines that are not valid are made empty. -/
theorem rules_blanked (ss : List String) : (unmarked (blanked ss)).filterMap rule? = (unmarked ss).filterMap rule? := by
  cases ss with
  | nil => rfl
  | cons s ss =>
    have first : rule? (dropMarks (if IsValid (dropMarks s) then s else "")) = rule? (dropMarks s) := by
      rw [← rule?_ite (s := dropMarks s)]
      split <;> rfl
    simp only [blanked, unmarked, List.filterMap_cons, first, List.filterMap_map, Function.comp_def, rule?_ite]

/-- They do not change either if such lines are dropped, unless another line with marks comes to be the first. -/
theorem rules_kept
    (first : (∀ s ∈ ss.head?, IsValid (dropMarks s)) ∨ ∀ s ∈ (kept ss).head?, s.toList.head? ≠ some '\ufeff') :
    (unmarked (kept ss)).filterMap rule? = (unmarked ss).filterMap rule? := by
  cases ss with
  | nil => rfl
  | cons s ss =>
    rw [unmarked, List.filterMap_cons, ← filterMap_rule?_filter ss]
    by_cases valid : IsValid (dropMarks s)
    · rw [kept, if_pos valid, List.singleton_append, unmarked, List.filterMap_cons]
    · have plain := first.resolve_left fun all => valid (all s rfl)
      rw [rule?_of_not_isValid valid]
      rw [kept, if_neg valid, List.nil_append] at plain ⊢
      cases later : ss.filter (IsValid ·) with
      | nil => rfl
      | cons k ks =>
        rw [later] at plain
        rw [unmarked, dropMarks_eq_self (plain k rfl)]

theorem readLines_map_some (ss : List String) : readLines (ss.map some) = ss.map line := by
  induction ss with
  | nil => rfl
  | cons s ss ih => rw [List.map_cons, readLines, ih, List.map_cons]

theorem ofLines_map_some (ss : List String) : ofLines (ss.map some) = (unmarked ss).map line := by
  cases ss with
  | nil => rfl
  | cons s ss => exact readLines_map_some (dropMarks s :: ss)

theorem problems_eq_nil_iff : problems (ss.map line) = [] ↔ ∀ s ∈ ss, IsValid s := by
  rw [problems, List.filterMap_eq_nil_iff]
  constructor
  · intro inOrder s mem
    obtain ⟨i, at_i⟩ := List.mem_iff_getElem?.mp mem
    have there : (line s, i) ∈ (ss.map line).zipIdx := by
      rw [List.mem_zipIdx_iff_getElem?, List.getElem?_map, at_i]
      rfl
    refine Decidable.byContradiction fun notValid => ?_
    obtain ⟨p, read⟩ := line_of_not_isValid notValid
    have silent := inOrder _ there
    rw [read] at silent
    cases silent
  · rintro valid ⟨l, i⟩ mem
    obtain ⟨s, there, rfl⟩ := List.mem_map.mp (List.fst_mem_of_mem_zipIdx mem)
    obtain ⟨rule, read⟩ := valid s there
    rw [line, read]

end IgnoreFile

open IgnoreFile

namespace FileTree

variable {t : FileTree} {p : Path} {ss : List String}

/-- The file at a path has these lines, each of which is a text. -/
def HoldsLines (t : FileTree) (p : Path) (ss : List String) : Prop :=
  ∃ content, t.read p = .ok content ∧ content.lines = ss.map some

/-- Lines that end in line feeds are those of their text. -/
theorem holdsLines_of_read (feeds : ∀ s ∈ ss, '\n' ∉ s.toList) (returns : ∀ s ∈ ss, s.toList.getLast? ≠ some '\r')
    (read : t.read p = .ok (.text (String.join (ss.map (· ++ "\n"))))) : t.HoldsLines p ss := by
  refine ⟨_, read, ?_⟩
  rw [Content.lines, Text.lines, Text.split_join_lines feeds]
  simp only [List.dropLast_concat, List.getLast?_concat, Option.toList_some, List.filter_cons, List.isEmpty_nil,
    Bool.not_true, Bool.false_eq_true, if_false, List.filter_nil, List.append_nil, List.map_map]
  refine List.map_congr_left fun s mem => ?_
  simp [Text.dropLastIf, returns s mem]

theorem HoldsLines.exists? (held : t.HoldsLines p ss) : t.exists? p = true := by
  obtain ⟨content, read, -⟩ := held
  rw [FileTree.read] at read
  rw [FileTree.exists?]
  split at read
  · rename_i there
    rw [there]
    rfl
  · cases read
  · cases read

/-- What is read from such a file: its rules, and an error unless each line is valid. -/
theorem HoldsLines.read (held : t.HoldsLines p ss) :
    (IgnoreFile.read t p).1 = (unmarked ss).filterMap rule? ∧
      ((IgnoreFile.read t p).2 = none ↔ ∀ s ∈ unmarked ss, IsValid s) := by
  obtain ⟨content, read, lines⟩ := held
  simp only [IgnoreFile.read, read, lines, ofLines_map_some, rules_map_line, ← problems_eq_nil_iff, List.isEmpty_iff,
    ite_eq_left_iff, reduceCtorEq, imp_false, Classical.not_not, and_self]

end FileTree

namespace IgnoreFilter

variable {t u : FileTree} {s : Settings} {p : Path} {ss : List String}

/-- The filter of rules, if the globs of the settings can be read. -/
def withRules (s : Settings) (rules : List IgnoreRule) : Except Settings.Error IgnoreFilter :=
  (fun globs => ⟨globs, some (.below s.root rules)⟩) <$> readGlobs s.ignorePatterns

theorem map_eq_error_iff {ε α β : Type} {k : α → β} {r : Except ε α} {e : ε} : k <$> r = .error e ↔ r = .error e := by
  cases r <;> simp [Functor.map, Except.map]

theorem readGlobs_ne_ignoreFile {texts : List String} {e : IgnoreFile.Error} :
    readGlobs texts ≠ .error (.ignoreFile e) := by
  induction texts with
  | nil => exact nofun
  | cons text texts ih =>
    rw [readGlobs]
    split
    · exact fun refused => ih (map_eq_error_iff.mp refused)
    · exact nofun

theorem exists_withRules_iff {rules : List IgnoreRule} :
    (∃ f, withRules s rules = .ok f) ↔ ∃ globs, readGlobs s.ignorePatterns = .ok globs := by
  rw [withRules]
  cases readGlobs s.ignorePatterns <;> simp [Functor.map, Except.map]

theorem ofSettings_of_readRules {rules : List IgnoreRule} (read : readRules t s = .ok (some (.below s.root rules))) :
    ofSettings t s = withRules s rules := by
  rw [ofSettings, read, withRules]
  cases readGlobs s.ignorePatterns <;> rfl

theorem ofSettings_of_gitignore (noFile : s.ignoreFile = none) (held : t.HoldsLines (s.root.join ⟨".gitignore"⟩) ss) :
    ofSettings t s = withRules s ((unmarked ss).filterMap rule?) := by
  refine ofSettings_of_readRules ?_
  rw [readRules, noFile]
  simp only [held.exists?, if_true, held.read.1]

theorem ofSettings_of_ignoreFile (held : t.HoldsLines p ss) :
    ofSettings t { s with ignoreFile := some p } =
      match (IgnoreFile.read t p).2 with
      | none => withRules s ((unmarked ss).filterMap rule?)
      | some e => .error (.ignoreFile e) := by
  have rules := held.read.1
  rcases read : IgnoreFile.read t p with ⟨rs, _ | e⟩
  · rw [read] at rules
    have named : readRules t { s with ignoreFile := some p } = .ok (some (.below s.root rs)) := by
      simp only [readRules, read]
    exact (ofSettings_of_readRules named).trans (congrArg (withRules s) rules)
  · simp only [ofSettings, readRules, read]
    rfl

/-- The ignore file of the root never keeps settings from yielding a filter, whatever its lines are. The filter is
the one without the lines that are not valid, be they empty instead or dropped, as long as the marks that a file
may begin with stay at their line. An ignore file that the settings name is refused exactly if one of its lines is
not valid, and else yields the same filter. -/
theorem ofSettings_lines (noFile : s.ignoreFile = none) (held : t.HoldsLines (s.root.join ⟨".gitignore"⟩) ss) :
    ((∃ f, ofSettings t s = .ok f) ↔ ∃ globs, readGlobs s.ignorePatterns = .ok globs) ∧
    (∀ u : FileTree, u.HoldsLines (s.root.join ⟨".gitignore"⟩) (blanked ss) → ofSettings u s = ofSettings t s) ∧
    (∀ u : FileTree, u.HoldsLines (s.root.join ⟨".gitignore"⟩) (kept ss) →
      ((∀ x ∈ ss.head?, IsValid (dropMarks x)) ∨ ∀ x ∈ (kept ss).head?, x.toList.head? ≠ some '\ufeff') →
      ofSettings u s = ofSettings t s) ∧
    ∀ (u : FileTree) (p : Path), u.HoldsLines p ss →
      ((∃ e, ofSettings u { s with ignoreFile := some p } = .error (.ignoreFile e)) ↔
        ∃ x ∈ unmarked ss, ¬IsValid x) ∧
      ((∀ x ∈ unmarked ss, IsValid x) → ofSettings u { s with ignoreFile := some p } = ofSettings t s) := by
  have own := ofSettings_of_gitignore noFile held
  refine ⟨?_, fun u blank => ?_, fun u fewer first => ?_, fun u p named => ⟨?_, fun valid => ?_⟩⟩
  · rw [own, exists_withRules_iff]
  · rw [own, ofSettings_of_gitignore noFile blank, rules_blanked]
  · rw [own, ofSettings_of_gitignore noFile fewer, rules_kept first]
  · have inOrder := named.read.2
    rw [ofSettings_of_ignoreFile named]
    cases read : (IgnoreFile.read u p).2 with
    | none =>
      refine iff_of_false ?_ fun ⟨x, mem, notValid⟩ => notValid (inOrder.mp read x mem)
      rintro ⟨e, refused⟩
      exact readGlobs_ne_ignoreFile (map_eq_error_iff.mp refused)
    | some e =>
      refine iff_of_true ⟨e, rfl⟩ (Decidable.byContradiction fun all => ?_)
      have valid : ∀ x ∈ unmarked ss, IsValid x := fun x mem =>
        Decidable.byContradiction fun notValid => all ⟨x, mem, notValid⟩
      rw [inOrder.mpr valid] at read
      cases read
  · rw [own, ofSettings_of_ignoreFile named, named.read.2.mpr valid]

/-- A file whose first line is an open group: it is refused where the settings name it, and of no account in the
root. -/
theorem ofSettings_lines_open_group :
    let t : FileTree := ⟨[(".gitignore", .file (.text "\x7b\na\n!b\n"))]⟩
    let u : FileTree := ⟨[(".gitignore", .file (.text "a\n!b\n"))]⟩
    t.HoldsLines ⟨"./.gitignore"⟩ ["\x7b", "a", "!b"] ∧ ofSettings u {} = ofSettings t {} ∧
      (∃ f, ofSettings t {} = .ok f) ∧
      ∃ e, ofSettings t { ignoreFile := some ⟨".gitignore"⟩ } = .error (.ignoreFile e) := by
  intro t u
  have held : t.HoldsLines ⟨"./.gitignore"⟩ ["\x7b", "a", "!b"] := ⟨_, rfl, by decide +kernel⟩
  have named : t.HoldsLines ⟨".gitignore"⟩ ["\x7b", "a", "!b"] := ⟨_, rfl, by decide +kernel⟩
  have fewer : u.HoldsLines ⟨"./.gitignore"⟩ (kept ["\x7b", "a", "!b"]) := ⟨_, rfl, by decide +kernel⟩
  obtain ⟨made, -, dropped, refused⟩ := ofSettings_lines (s := {}) rfl held
  refine ⟨held, dropped u fewer (.inr (by decide +kernel)), made.mpr ⟨[], rfl⟩, ?_⟩
  exact (refused t ⟨".gitignore"⟩ named).1.mpr ⟨"\x7b", by decide, by decide⟩

/-- Without the first line, which is not valid, the next one loses its mark and is another rule. -/
theorem ignores?_marked_line :
    let t : FileTree := ⟨[(".gitignore", .file (.text "\x7b\n\ufeffa\n"))]⟩
    let u : FileTree := ⟨[(".gitignore", .file (.text "\ufeffa\n"))]⟩
    t.HoldsLines ⟨"./.gitignore"⟩ ["\x7b", "\ufeffa"] ∧ u.HoldsLines ⟨"./.gitignore"⟩ (kept ["\x7b", "\ufeffa"]) ∧
      ∃ f g, ofSettings t {} = .ok f ∧ ofSettings u {} = .ok g ∧
        f.ignores? ⟨"./a"⟩ false = some false ∧ g.ignores? ⟨"./a"⟩ false = some true := by
  intro t u
  have held : t.HoldsLines ⟨"./.gitignore"⟩ ["\x7b", "\ufeffa"] := ⟨_, rfl, by decide +kernel⟩
  have fewer : u.HoldsLines ⟨"./.gitignore"⟩ (kept ["\x7b", "\ufeffa"]) := ⟨_, rfl, by decide +kernel⟩
  exact ⟨held, fewer, _, _, ofSettings_of_gitignore rfl held, ofSettings_of_gitignore rfl fewer,
    by decide +kernel, by decide +kernel⟩

end IgnoreFilter

end Footprint
