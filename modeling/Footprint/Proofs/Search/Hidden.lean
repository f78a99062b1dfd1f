import Footprint.Proofs.Search.Exactness
import Footprint.Text.Infix
import Mathlib.Data.List.TakeDrop
import Mathlib.Data.List.TakeWhile

/-!
# Directories of hidden names

Without globs and an ignore file a search of the working directory leaves out what lies in directories of
hidden names, however deep, and nothing else. A hidden name counts as a whole and as that of a directory: one
that only contains it hides nothing, nor does a notebook that bears it.
-/

namespace Footprint

open Search IgnoreFilter

variable {t : FileTree} {s : Settings} {n : String} {ns : List String}

namespace Path

/-- A name made of a stem, a dot and the extension of notebooks in any case. -/
def IsNotebookName (n : String) : Prop :=
  ∃ stem extension : String, n = stem ++ "." ++ extension ∧ stem ≠ "" ∧
    extension.toList.map Char.toLower = "ipynb".toList

/-- The dot in question is the last one, for there is none in the extension. -/
theorem extension?_of_isName (hn : IsName n) {extension : String} :
    (⟨n⟩ : Path).extension? = some extension ↔
      ∃ stem : String, n = stem ++ "." ++ extension ∧ stem ≠ "" ∧ '.' ∉ extension.toList := by
  rw [extension?, fileName?_name hn, Option.bind_some, List.span_eq_takeWhile_dropWhile]
  constructor
  · intro h
    have whole := List.takeWhile_append_dropWhile (p := fun c => decide (c ≠ '.')) (l := n.toList.reverse)
    have first := List.head?_dropWhile_not (fun c => decide (c ≠ '.')) n.toList.reverse
    have noDot : ∀ c ∈ n.toList.reverse.takeWhile fun c => decide (c ≠ '.'), c ≠ '.' := fun c mem =>
      by simpa using List.mem_takeWhile_imp mem
    generalize n.toList.reverse.takeWhile _ = after at h whole noDot
    generalize n.toList.reverse.dropWhile _ = before at h whole first
    obtain _ | ⟨c, _ | ⟨d, ds⟩⟩ := before
    · cases h
    · cases h
    · obtain rfl : c = '.' := by simpa using first
      obtain rfl := Option.some.inj h
      refine ⟨String.ofList (d :: ds).reverse, ?_, ?_, ?_⟩
      · rw [← String.toList_inj, ← List.reverse_inj, ← whole]
        simp
      · simp [← String.toList_inj]
      · rw [String.toList_ofList, List.mem_reverse]
        exact fun mem => noDot '.' mem rfl
  · rintro ⟨stem, rfl, ne, noDot⟩
    have reversed : (stem ++ "." ++ extension).toList.reverse =
        extension.toList.reverse ++ '.' :: stem.toList.reverse := by simp
    have after : ∀ c ∈ extension.toList.reverse, decide (c ≠ '.') = true := fun c mem =>
      decide_eq_true fun dot => noDot (List.mem_reverse.mp (dot ▸ mem))
    obtain ⟨c, cs, stemEnd⟩ := List.exists_cons_of_ne_nil (l := stem.toList.reverse) (by simpa using ne)
    rw [reversed, List.takeWhile_append_of_pos after, List.dropWhile_append_of_pos after, stemEnd]
    simp

theorem isNotebook_name_iff (hn : IsName n) : (⟨n⟩ : Path).isNotebook = true ↔ IsNotebookName n := by
  rw [isNotebook, Option.any_eq_true]
  constructor
  · rintro ⟨extension, known, same⟩
    obtain ⟨stem, rfl, ne, -⟩ := (extension?_of_isName hn).mp known
    exact ⟨stem, extension, rfl, ne, eq_of_beq same⟩
  · rintro ⟨stem, extension, rfl, ne, same⟩
    have noDot : '.' ∉ extension.toList := by
      intro mem
      have lower : '.' ∈ extension.toList.map Char.toLower := List.mem_map.mpr ⟨'.', mem, by decide⟩
      rw [same] at lower
      exact absurd lower (by decide)
    exact ⟨extension, (extension?_of_isName hn).mpr ⟨stem, rfl, ne, noDot⟩, beq_iff_eq.mpr same⟩

end Path

namespace IgnoreFilter

theorem infix_hiddenNames {h k : String} (hh : h ∈ hiddenNames) (hk : k ∈ hiddenNames)
    (within : h.toList <:+: k.toList) : h = k ∨ h = "venv" ∧ k = ".venv" := by
  have all : ∀ h ∈ hiddenNames, ∀ k ∈ hiddenNames, Text.isInfixOf h.toList k.toList = true →
      h = k ∨ h = "venv" ∧ k = ".venv" := by decide
  exact all h hh k hk (Text.isInfixOf_iff.mpr within)

theorem not_mem_hiddenNames_around {before h after : String} (hh : h ∈ hiddenNames) (longer : before ++ after ≠ "")
    (other : before ++ h ++ after ≠ ".venv") : before ++ h ++ after ∉ hiddenNames := by
  intro mem
  have within : h.toList <:+: (before ++ h ++ after).toList := by simp
  rcases infix_hiddenNames hh mem within with same | ⟨-, same⟩
  · have length := congrArg (fun s => s.toList.length) same
    rw [String.toList_append, String.toList_append, List.length_append, List.length_append] at length
    have none : (before ++ after).toList.length = 0 := by
      rw [String.toList_append, List.length_append]
      omega
    exact longer (String.toList_eq_nil_iff.mp (List.length_eq_zero_iff.mp none))
  · exact other same

theorem ofSettings_empty (noGlobs : s.ignorePatterns = []) (noFile : s.ignoreFile = none)
    (noRules : t.exists? (s.root.join ⟨".gitignore"⟩) = false) : IgnoreFilter.ofSettings t s = .ok {} := by
  simp [ofSettings, readRules, readGlobs, noFile, noGlobs, noRules, pure, Except.pure, bind, Except.bind]

end IgnoreFilter

namespace FileTree

/-- Names of directories, and then that of a notebook which is no directory. -/
structure HoldsNotebook (t : FileTree) (directories : List String) (name : String) : Prop where
  entry : ∃ e, t.at? (directories ++ [name]) = some e ∧ e.kind ≠ .directory
  notebook : Path.IsNotebookName name

theorem entry_dot (t : FileTree) (follow : Bool) : t.entry follow ⟨"."⟩ = .ok (.directory t.entries) := rfl

theorem below_dot (hns : ∀ n ∈ ns, Path.IsName n) (ne : ns ≠ []) :
    (⟨"."⟩ : Path).below ns = ⟨"./" ++ "/".intercalate ns⟩ := by
  have text : ((⟨"."⟩ : Path).below ns).text = "." ++ "/" ++ "/".intercalate ns := Path.text_below hns ne
  exact congrArg Path.mk text

theorem leads_iff_holdsNotebook (proper : t.root.IsProper) :
    Leads t.root ns ↔ ∃ directories name, ns = directories ++ [name] ∧ t.HoldsNotebook directories name := by
  have name {directories : List String} {n : String} {e : Entry} (there : t.root.at? (directories ++ [n]) = some e) :
      Path.IsName n := (proper.below there).1 n (by simp)
  have last (directories : List String) (n : String) : endsInNotebook (directories ++ [n]) = (⟨n⟩ : Path).isNotebook := by
    simp [endsInNotebook]
  constructor
  · rintro ⟨e, there, leaf, notebook⟩
    rcases List.eq_nil_or_concat' ns with rfl | ⟨directories, n, rfl⟩
    · cases notebook
    · rw [last, Path.isNotebook_name_iff (name there)] at notebook
      exact ⟨directories, n, rfl, ⟨e, (t.at?_eq _).trans there, leaf⟩, notebook⟩
  · rintro ⟨directories, n, rfl, ⟨e, there, leaf⟩, notebook⟩
    rw [t.at?_eq] at there
    exact ⟨e, there, leaf, (last directories n).trans ((Path.isNotebook_name_iff (name there)).mpr notebook)⟩

theorem mem_findNotebooks_dot (proper : t.root.IsProper) {p : Path} :
    p ∈ t.findNotebooks {} ⟨"."⟩ ↔ ∃ directories name, t.HoldsNotebook directories name ∧
      (∀ d ∈ directories, d ∉ hiddenNames) ∧ p = ⟨"./" ++ "/".intercalate (directories ++ [name])⟩ := by
  have named := proper.named
  rw [root, Entry.IsNamed] at named
  have visible : ¬(⟨"."⟩ : Path).IsHidden := by decide
  have hides {ns : List String} (mem : ns ∈ notebookNames t.entries) :
      IgnoreFilter.hides {} ⟨"."⟩ ns = false ↔ ∀ d ∈ ns.dropLast, d ∉ hiddenNames := by
    have names := isName_of_mem_notebookNames named mem
    rw [← Bool.not_eq_true, hides_iff names.2 names.1]
    simp only [visible, not_excludes_of_empty, or_false]
    constructor
    · intro none d hd hidden
      exact none ⟨d, hidden, hd⟩
    · rintro none ⟨d, hidden, hd⟩
      exact none d hd hidden
  rw [findNotebooks_eq_visible (entry_dot t true) (.inl (entry_dot t false)) proper, List.mem_map]
  constructor
  · rintro ⟨ns, found, rfl⟩
    rw [List.mem_filter, Bool.not_eq_true'] at found
    have names := isName_of_mem_notebookNames named found.1
    have leads : Leads t.root ns := (mem_notebookNames_iff proper.distinct).mp found.1
    obtain ⟨directories, name, rfl, holds⟩ := (leads_iff_holdsNotebook proper).mp leads
    refine ⟨directories, name, holds, ?_, below_dot names.2 names.1⟩
    simpa using (hides found.1).mp found.2
  · rintro ⟨directories, name, holds, shown, rfl⟩
    have leads : Leads t.root (directories ++ [name]) :=
      (leads_iff_holdsNotebook proper).mpr ⟨directories, name, rfl, holds⟩
    have mem : directories ++ [name] ∈ notebookNames t.entries := (mem_notebookNames_iff proper.distinct).mpr leads
    have names := isName_of_mem_notebookNames named mem
    refine ⟨directories ++ [name], List.mem_filter.mpr ⟨mem, ?_⟩, below_dot names.2 names.1⟩
    rw [Bool.not_eq_true', hides mem]
    simpa using shown

/-- A search of the working directory, without globs and an ignore file, finds the notebooks that no directory
of a hidden name holds. A directory hides nothing if its name is a hidden one with more before or behind it, and
a notebook is found though its own name begins with a hidden one. -/
theorem findNotebooks_skips_hidden (proper : t.root.IsProper) (here : s.root = ⟨"."⟩)
    (noGlobs : s.ignorePatterns = []) (noFile : s.ignoreFile = none) (noRules : t.exists? ⟨"./.gitignore"⟩ = false) :
    ∃ f, IgnoreFilter.ofSettings t s = .ok f ∧
      (∀ p, p ∈ t.findNotebooks f s.root ↔ ∃ directories name, t.HoldsNotebook directories name ∧
        (∀ d ∈ directories, d ∉ hiddenNames) ∧ p = ⟨"./" ++ "/".intercalate (directories ++ [name])⟩) ∧
      (∀ before h after, h ∈ hiddenNames → before ++ after ≠ "" → before ++ h ++ after ≠ ".venv" →
        ∀ outer inner name, t.HoldsNotebook (outer ++ (before ++ h ++ after) :: inner) name →
          (∀ d ∈ outer ++ inner, d ∉ hiddenNames) →
          ⟨"./" ++ "/".intercalate (outer ++ (before ++ h ++ after) :: inner ++ [name])⟩ ∈
            t.findNotebooks f s.root) ∧
      ∀ h rest directories, h ∈ hiddenNames → t.HoldsNotebook directories (h ++ rest) →
        (∀ d ∈ directories, d ∉ hiddenNames) →
        ⟨"./" ++ "/".intercalate (directories ++ [h ++ rest])⟩ ∈ t.findNotebooks f s.root := by
  refine ⟨{}, ofSettings_empty noGlobs noFile (here ▸ noRules), ?_⟩
  rw [here]
  refine ⟨fun p => mem_findNotebooks_dot proper, ?_, ?_⟩
  · intro before h after hidden longer other outer inner name holds shown
    refine (mem_findNotebooks_dot proper).mpr ⟨_, name, holds, fun d mem => ?_, rfl⟩
    rcases List.mem_append.mp mem with mem | mem
    · exact shown d (List.mem_append_left _ mem)
    · rcases List.mem_cons.mp mem with rfl | mem
      · exact not_mem_hiddenNames_around hidden longer other
      · exact shown d (List.mem_append_right _ mem)
  · intro h rest directories hidden holds shown
    exact (mem_findNotebooks_dot proper).mpr ⟨directories, h ++ rest, holds, shown, rfl⟩

/-- A notebook in a directory whose name ends in a hidden one, one whose own name begins with a hidden one, and
one far below a directory of a hidden name. -/
theorem findNotebooks_skips_hidden_nested :
    let file : Entry := .file (.text "{}")
    let t : FileTree := ⟨[("src", .directory [("my-venv", .directory [("a.IPYNB", file)]), ("target.ipynb", file)]),
      ("data", .directory [(".git", .directory [("logs", .directory [("b.ipynb", file)])])])]⟩
    ∃ f, IgnoreFilter.ofSettings t {} = .ok f ∧
      ⟨"./src/my-venv/a.IPYNB"⟩ ∈ t.findNotebooks f ⟨"."⟩ ∧ ⟨"./src/target.ipynb"⟩ ∈ t.findNotebooks f ⟨"."⟩ ∧
      ⟨"./data/.git/logs/b.ipynb"⟩ ∉ t.findNotebooks f ⟨"."⟩ := by
  intro file t
  have proper : t.root.IsProper := by
    constructor
    · simp only [root, t, file, Entry.IsNamed, Entry.AreNamed]
      decide
    · simp [root, t, file, Entry.IsDistinct, Entry.AreDistinct]
  obtain ⟨f, made, found, around, beginning⟩ := findNotebooks_skips_hidden (s := {}) proper rfl rfl rfl (by decide)
  refine ⟨f, made, ?_, ?_, ?_⟩
  · have held : t.HoldsNotebook ["src", "my-" ++ "venv" ++ ""] "a.IPYNB" :=
      ⟨⟨file, rfl, by decide⟩, "a", "IPYNB", rfl, by decide, by decide⟩
    exact around "my-" "venv" "" (by decide) (by decide) (by decide) ["src"] [] _ held (by decide)
  · have held : t.HoldsNotebook ["src"] ("target" ++ ".ipynb") :=
      ⟨⟨file, rfl, by decide⟩, "target", "ipynb", rfl, by decide, by decide⟩
    exact beginning "target" ".ipynb" ["src"] (by decide) held (by decide)
  · intro mem
    obtain ⟨directories, name, holds, shown, path⟩ := (found _).mp mem
    obtain ⟨e, there, -⟩ := holds.entry
    have names := (proper.below (t.at?_eq _ ▸ there)).1
    have same : "./" ++ "/".intercalate ["data", ".git", "logs", "b.ipynb"] =
        "./" ++ "/".intercalate (directories ++ [name]) := congrArg Path.text path
    rw [String.append_right_inj] at same
    have equal := Path.intercalate_injective (by decide) names (by simp) (by simp) (congrArg Path.mk same)
    have outer : directories = ["data", ".git", "logs"] := by simpa using (congrArg List.dropLast equal).symm
    exact shown ".git" (by simp [outer]) (by decide)

end FileTree

end Footprint
