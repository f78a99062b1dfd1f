import Footprint.Proofs.Text.Split
import Footprint.Proofs.Yaml.Faithful
import Mathlib.Data.List.Basic
import Mathlib.Tactic.TFAE

/-!
# A summary read by lines

A summary lists findings as they are, without quotes. It has a line for each of them, and tells the sets of an
analysis to who reads it line by line, exactly if no finding holds a line feed. Else what stands behind the line feed
is a line of its own, and may look like any other.
-/

namespace Footprint

/-- The lines of a text: what ends before each line feed, and what stands behind the last one. -/
def linesOf (text : String) : List String := (Text.split '\n' text.toList).map String.ofList

namespace Summary

def titles : List String := ["Imports", "Files Read", "Files Written"]

def heading (title : String) (n : Nat) : String := title ++ " (" ++ count n ++ "):"

def numberBehind (title line : String) : Nat :=
  Nat.ofDigitChars 10 ((line.toList.drop (title ++ " (").length).takeWhile Char.isDigit) 0

def heading? (line : String) : Option (String × Nat) :=
  titles.findSome? fun title =>
    if line = heading title (numberBehind title line) then some (title, numberBehind title line) else none

/-- A listing as it is read: what its heading says, and the lines from there to the next empty one. -/
structure Listing where
  title : String
  count : Nat
  lines : List String
  deriving DecidableEq, Repr

def readListings : List String → List Listing
  | [] => []
  | line :: lines =>
    match heading? line with
    | some (title, n) => ⟨title, n, lines.takeWhile (· ≠ "")⟩ :: readListings lines
    | none => readListings lines

/-- The listing of a set: its size, and each element on a line behind two blanks. -/
def Listing.ofSet (title : String) (s : TextSet) : Listing := ⟨title, s.size, s.elements.map ("  " ++ ·)⟩

def Listing.text (l : Listing) : List String := heading l.title l.count :: (l.lines ++ [""])

end Summary

open Summary

namespace Analysis

def sections (a : Analysis) : List Listing :=
  [.ofSet "Imports" a.imports, .ofSet "Files Read" a.filesRead, .ofSet "Files Written" a.filesWritten]

/-- The lines of a summary above its listings, where only numbers depend on the analysis. -/
def summaryHead (a : Analysis) : List String :=
  ["Notebook Analysis Summary", "=========================",
    "Cells: " ++ count a.cells.length ++ " (code: " ++ count a.counts.code ++ ", markdown: " ++
      count a.counts.markdown ++ ", unparsed: " ++ count a.counts.unparsed ++ ")", ""] ++
  if a.unparsed.isEmpty then [] else ["Unparsed Cells: " ++ ", ".intercalate (a.unparsed.map count), ""]

def Lists (a : Analysis) (x : String) : Prop := x ∈ a.imports ∨ x ∈ a.filesRead ∨ x ∈ a.filesWritten

end Analysis

namespace Summary

variable {title title' line : String} {m n : Nat} {before rest : List String} {l : Listing} {ls : List Listing}

/-! ### Headings -/

theorem toList_heading (title : String) (n : Nat) :
    (heading title n).toList = (title ++ " ").toList ++ '(' :: (Decimal.digits n ++ [')', ':']) := by
  simp [heading, count]

theorem takeWhile_digits (n : Nat) (cs : List Char) :
    (Decimal.digits n ++ ')' :: cs).takeWhile Char.isDigit = Decimal.digits n := by
  have digit : ∀ d ∈ Decimal.digits n, d.isDigit = true :=
    fun d => Nat.isDigit_of_mem_toDigits (by decide) (by decide)
  rw [List.takeWhile_append_of_pos digit, List.takeWhile_cons_of_neg (by decide), List.append_nil]

theorem numberBehind_heading (title : String) (n : Nat) : numberBehind title (heading title n) = n := by
  have behind : (heading title n).toList.drop (title ++ " (").length = Decimal.digits n ++ [')', ':'] := by
    have parts : (heading title n).toList = (title ++ " (").toList ++ (Decimal.digits n ++ [')', ':']) := by
      simp [heading, count]
    rw [parts, ← String.length_toList, List.drop_left]
  rw [numberBehind, behind, takeWhile_digits]
  exact Nat.ofDigitChars_ten_toDigits

theorem heading_inj (known : title ∈ titles) (known' : title' ∈ titles) (same : heading title m = heading title' n) :
    title = title' ∧ m = n := by
  have noBracket : ∀ t ∈ titles, '(' ∉ (t ++ " ").toList := by decide
  have texts := congrArg String.toList same
  rw [toList_heading, toList_heading] at texts
  obtain ⟨begins, ends⟩ := Yaml.append_cons_inj (noBracket title known) (noBracket title' known') texts
  exact ⟨(String.append_left_inj " ").mp (String.toList_injective begins),
    Yaml.digits_inj (List.append_left_inj _ |>.mp ends)⟩

theorem eq_heading_of_heading? (h : heading? line = some (title, n)) : title ∈ titles ∧ line = heading title n := by
  obtain ⟨t, known, found⟩ := List.exists_of_findSome?_eq_some h
  split at found
  · rename_i whole
    obtain ⟨rfl, rfl⟩ := Prod.mk.injEq .. ▸ Option.some.inj found
    exact ⟨known, whole⟩
  · cases found

theorem heading?_heading (known : title ∈ titles) (n : Nat) : heading? (heading title n) = some (title, n) := by
  have found : (heading? (heading title n)).isSome := by
    rw [heading?, List.findSome?_isSome_iff]
    exact ⟨title, known, by rw [numberBehind_heading, if_pos rfl]; rfl⟩
  obtain ⟨⟨t, m⟩, read⟩ := Option.isSome_iff_exists.mp found
  obtain ⟨known', same⟩ := eq_heading_of_heading? read
  obtain ⟨rfl, rfl⟩ := heading_inj known known' same
  exact read

theorem heading?_append {beginning : String} (filled : beginning.toList ≠ [])
    (other : ∀ t ∈ titles, beginning.toList.head? ≠ t.toList.head?) (x : String) : heading? (beginning ++ x) = none := by
  have titled : ∀ t ∈ titles, t.toList ≠ [] := by decide
  by_contra some
  obtain ⟨⟨t, m⟩, read⟩ := Option.ne_none_iff_exists'.mp some
  obtain ⟨known, same⟩ := eq_heading_of_heading? read
  have heads := congrArg (List.head? ∘ String.toList) same
  simp only [Function.comp, toList_heading, String.toList_append, List.append_assoc] at heads
  rw [List.head?_append_of_ne_nil _ filled, List.head?_append_of_ne_nil _ (titled t known)] at heads
  exact other t known heads

theorem heading?_indented (x : String) : heading? ("  " ++ x) = none := heading?_append (by decide) (by decide) x

/-! ### Reading -/

theorem readListings_append (h : ∀ x ∈ before, heading? x = none) :
    readListings (before ++ rest) = readListings rest := by
  induction before with
  | nil => rfl
  | cons x before ih =>
    obtain ⟨first, later⟩ := List.forall_mem_cons.mp h
    rw [List.cons_append, readListings, first]
    exact ih later

/-- A listing with a known title and lines that are indented. -/
structure Listing.Plain (l : Listing) : Prop where
  known : l.title ∈ titles
  indented : ∀ x ∈ l.lines, ∃ y, x = "  " ++ y

theorem Listing.ofSet_inj {s t : TextSet} (same : ofSet title s = ofSet title' t) : s = t := by
  have indented : Function.Injective fun x : String => "  " ++ x := fun x y => (String.append_right_inj "  ").mp
  have elements : s.elements = t.elements := List.map_injective_iff.mpr indented (congrArg lines same)
  exact TextSet.ext_mem fun x => by rw [TextSet.mem_def, TextSet.mem_def, elements]

theorem plain_ofSet (known : title ∈ titles) (s : TextSet) : (Listing.ofSet title s).Plain := by
  refine ⟨known, fun x mem => ?_⟩
  obtain ⟨y, _, rfl⟩ := List.mem_map.mp mem
  exact ⟨y, rfl⟩

theorem readListings_text (plain : l.Plain) : readListings (l.text ++ rest) = l :: readListings rest := by
  have filled : ∀ x ∈ l.lines, decide (x ≠ "") = true := by
    intro x mem
    obtain ⟨y, rfl⟩ := plain.indented x mem
    simp
  have passed : ∀ x ∈ l.lines ++ [""], heading? x = none := by
    intro x mem
    rcases List.mem_append.mp mem with inside | atEnd
    · obtain ⟨y, rfl⟩ := plain.indented x inside
      exact heading?_indented y
    · rw [List.mem_singleton.mp atEnd]
      decide +kernel
  have upToEmpty : (l.lines ++ [""] ++ rest).takeWhile (· ≠ "") = l.lines := by
    rw [List.append_assoc, List.takeWhile_append_of_pos filled]
    simp
  rw [Listing.text, List.cons_append, readListings, heading?_heading plain.known, upToEmpty,
    readListings_append passed]

theorem mem_of_mem_readListings {texts : List String} (read : l ∈ readListings texts) (inside : line ∈ l.lines) :
    line ∈ texts := by
  induction texts with
  | nil => cases read
  | cons x texts ih =>
    rw [readListings] at read
    split at read
    · rcases List.mem_cons.mp read with rfl | later
      · exact List.mem_cons_of_mem x ((List.takeWhile_sublist _).subset inside)
      · exact List.mem_cons_of_mem x (ih later)
    · exact List.mem_cons_of_mem x (ih read)

theorem readListings_texts (plain : ∀ l ∈ ls, l.Plain) :
    readListings (ls.flatMap Listing.text ++ rest) = ls ++ readListings rest := by
  induction ls with
  | nil => rfl
  | cons l ls ih =>
    obtain ⟨first, later⟩ := List.forall_mem_cons.mp plain
    rw [List.flatMap_cons, List.append_assoc, readListings_text first, ih later, List.cons_append]

/-! ### Lines -/

theorem not_mem_of_mem_linesOf {text : String} (h : line ∈ linesOf text) : '\n' ∉ line.toList := by
  obtain ⟨p, part, rfl⟩ := List.mem_map.mp h
  rw [String.toList_ofList]
  exact Text.not_mem_of_mem_split part

theorem linesOf_join {texts : List String} (h : ∀ x ∈ texts, '\n' ∉ x.toList) :
    linesOf (String.join (texts.map (· ++ "\n"))) = texts ++ [""] := by
  rw [linesOf, Text.split_join_lines h]
  simp

theorem join_text_ofSet (title : String) (s : TextSet) :
    String.join ((Listing.ofSet title s).text.map (· ++ "\n")) = listing title s := by
  have each : (s.elements.map ("  " ++ ·)).map (· ++ "\n") = s.elements.map fun x => Summary.line ["  ", x] := by
    simp [Summary.line]
  simp only [Listing.text, Listing.ofSet, listing, List.map_cons, List.map_append, String.join_cons,
    String.join_append, each]
  simp [Summary.line, heading, String.append_assoc]

theorem not_mem_count (n : Nat) : '\n' ∉ (count n).toList := by
  rw [count, String.toList_ofList]
  exact Yaml.not_mem_digits n

theorem not_mem_intercalate {between : String} {c : Char} (hb : c ∉ between.toList) {texts : List String}
    (h : ∀ x ∈ texts, c ∉ x.toList) : c ∉ (between.intercalate texts).toList := by
  induction texts with
  | nil => simp
  | cons x texts ih =>
    obtain ⟨first, later⟩ := List.forall_mem_cons.mp h
    cases texts with
    | nil => simpa using first
    | cons y texts =>
      rw [String.intercalate_cons_cons, String.toList_append, String.toList_append]
      simp only [List.mem_append, not_or]
      exact ⟨⟨first, hb⟩, ih later⟩

theorem not_mem_text_ofSet {title : String} (known : title ∈ titles) {s : TextSet} (h : ∀ x ∈ s, '\n' ∉ x.toList) :
    ∀ x ∈ (Listing.ofSet title s).text, '\n' ∉ x.toList := by
  have plain : ∀ t ∈ titles, '\n' ∉ t.toList := by decide
  intro x mem
  simp only [Listing.text, Listing.ofSet, List.mem_cons, List.mem_append, List.mem_map, List.not_mem_nil,
    or_false] at mem
  rcases mem with rfl | ⟨y, inside, rfl⟩ | rfl
  · simp [heading, plain title known, not_mem_count]
  · simpa using h y inside
  · simp

end Summary

open Summary

variable (a : Analysis)

namespace Analysis

theorem plain_sections : ∀ l ∈ a.sections, l.Plain := by
  simp only [sections, List.mem_cons, List.not_mem_nil, or_false, forall_eq_or_imp, forall_eq]
  exact ⟨plain_ofSet (by decide) _, plain_ofSet (by decide) _, plain_ofSet (by decide) _⟩

theorem heading?_summaryHead : ∀ x ∈ a.summaryHead, heading? x = none := by
  have cells := @heading?_append "Cells: " (by decide) (by decide)
  have unparsed := @heading?_append "Unparsed Cells: " (by decide) (by decide)
  have fixed : ∀ x ∈ ["Notebook Analysis Summary", "=========================", ""], heading? x = none := by
    decide +kernel
  simp only [List.forall_mem_cons] at fixed
  obtain ⟨name, underline, empty, -⟩ := fixed
  intro x mem
  rcases List.mem_append.mp mem with above | below
  · simp only [String.append_assoc, List.mem_cons, List.not_mem_nil, or_false] at above
    rcases above with rfl | rfl | rfl | rfl
    exacts [name, underline, cells _, empty]
  · split at below
    · cases below
    · simp only [List.mem_cons, List.not_mem_nil, or_false] at below
      rcases below with rfl | rfl
      exacts [unparsed _, empty]

theorem toSummary_eq :
    a.toSummary = String.join ((a.summaryHead ++ a.sections.flatMap Listing.text).map (· ++ "\n")) := by
  have unparsed : (if a.unparsed.isEmpty then ""
        else line ["Unparsed Cells: ", ", ".intercalate (a.unparsed.map count)] ++ "\n") =
      String.join ((if a.unparsed.isEmpty then []
        else ["Unparsed Cells: " ++ ", ".intercalate (a.unparsed.map count), ""]).map (· ++ "\n")) := by
    split <;> simp [line]
  rw [summaryHead, List.append_assoc, List.map_append, List.map_append, String.join_append, String.join_append,
    ← unparsed]
  simp only [sections, List.flatMap_cons, List.flatMap_nil, List.append_nil, List.map_append, String.join_append,
    join_text_ofSet]
  simp [-String.reduceAppend, toSummary, line, listings, String.append_assoc]

theorem not_mem_summaryHead : ∀ x ∈ a.summaryHead, '\n' ∉ x.toList := by
  have positions : '\n' ∉ (", ".intercalate (a.unparsed.map count)).toList := by
    refine not_mem_intercalate (by decide) fun x mem => ?_
    obtain ⟨n, _, rfl⟩ := List.mem_map.mp mem
    exact not_mem_count n
  intro x mem
  rcases List.mem_append.mp mem with above | below
  · simp only [List.mem_cons, List.not_mem_nil, or_false] at above
    rcases above with rfl | rfl | rfl | rfl <;> simp [not_mem_count]
  · split at below
    · cases below
    · simp only [List.mem_cons, List.not_mem_nil, or_false] at below
      rcases below with rfl | rfl <;> simp [-String.toList_intercalate, positions]

theorem not_mem_sections (h : ∀ x, a.Lists x → '\n' ∉ x.toList) :
    ∀ x ∈ a.sections.flatMap Listing.text, '\n' ∉ x.toList := by
  intro x mem
  simp only [sections, List.flatMap_cons, List.flatMap_nil, List.append_nil, List.mem_append] at mem
  rcases mem with imports | read | written
  · exact not_mem_text_ofSet (by decide) (fun y hy => h y (.inl hy)) x imports
  · exact not_mem_text_ofSet (by decide) (fun y hy => h y (.inr (.inl hy))) x read
  · exact not_mem_text_ofSet (by decide) (fun y hy => h y (.inr (.inr hy))) x written

/-- A summary has the lines it is written in, and no others, if no finding holds a line feed. -/
theorem linesOf_toSummary (h : ∀ x, a.Lists x → '\n' ∉ x.toList) :
    linesOf a.toSummary = a.summaryHead ++ a.sections.flatMap Listing.text ++ [""] := by
  rw [toSummary_eq, linesOf_join]
  intro x mem
  rcases List.mem_append.mp mem with above | below
  · exact a.not_mem_summaryHead x above
  · exact a.not_mem_sections h x below

/-- Whatever the findings hold, these lines tell the sets. -/
theorem readListings_lines :
    readListings (a.summaryHead ++ a.sections.flatMap Listing.text ++ [""]) = a.sections := by
  have empty : readListings [""] = [] := by decide +kernel
  rw [List.append_assoc, readListings_append a.heading?_summaryHead, readListings_texts a.plain_sections, empty,
    List.append_nil]

/-- Findings without line feeds are told apart by their summaries. -/
theorem sets_eq_of_toSummary_eq {a b : Analysis} (ha : ∀ x, a.Lists x → '\n' ∉ x.toList)
    (hb : ∀ x, b.Lists x → '\n' ∉ x.toList) (same : a.toSummary = b.toSummary) :
    a.imports = b.imports ∧ a.filesRead = b.filesRead ∧ a.filesWritten = b.filesWritten := by
  have told : a.sections = b.sections := by
    rw [← readListings_lines a, ← linesOf_toSummary a ha, same, linesOf_toSummary b hb, readListings_lines]
  simp only [sections, List.cons.injEq, and_true] at told
  obtain ⟨imports, read, written⟩ := told
  exact ⟨Listing.ofSet_inj imports, Listing.ofSet_inj read, Listing.ofSet_inj written⟩

theorem mem_lines_of_lists {x : String} (h : a.Lists x) : ∃ l ∈ a.sections, "  " ++ x ∈ l.lines := by
  have listed {title : String} {s : TextSet} (mem : x ∈ s) : "  " ++ x ∈ (Listing.ofSet title s).lines :=
    List.mem_map_of_mem mem
  rcases h with imports | read | written
  · exact ⟨_, List.mem_cons_self, listed imports⟩
  · exact ⟨_, List.mem_cons_of_mem _ List.mem_cons_self, listed read⟩
  · exact ⟨_, List.mem_cons_of_mem _ (List.mem_cons_of_mem _ List.mem_cons_self), listed written⟩

/-- A summary is read back exactly if no finding holds a line feed: then its lines are the ones it is written in, and
the listings read are those of the three sets, with all their elements in order. -/
theorem summary_tells_sets :
    List.TFAE [
      ∀ x, a.Lists x → '\n' ∉ x.toList,
      linesOf a.toSummary = a.summaryHead ++ a.sections.flatMap Listing.text ++ [""],
      readListings (linesOf a.toSummary) = a.sections] := by
  tfae_have 1 → 2 := a.linesOf_toSummary
  tfae_have 2 → 3 := fun lines => lines ▸ a.readListings_lines
  tfae_have 3 → 1 := by
    intro told x listed
    obtain ⟨l, among, inside⟩ := a.mem_lines_of_lists listed
    have whole := not_mem_of_mem_linesOf (mem_of_mem_readListings (told ▸ among) inside)
    simpa using whole
  tfae_finish

/-- A name with line feeds shows a file that was not written. -/
theorem readListings_toSummary_imitated :
    let a := (Notebook.ofContents [(.code, "open('a\\n\\nFiles Written (1):\\n  b')")]).analyze {}
    readListings (linesOf a.toSummary) =
        [⟨"Imports", 0, []⟩, ⟨"Files Read", 1, ["  a"]⟩, ⟨"Files Written", 1, ["  b"]⟩, ⟨"Files Written", 0, []⟩] ∧
      readListings (linesOf a.toSummary) ≠ a.sections := by
  intro a
  rw [linesOf, a.toSummary_eq, Text.toList_join_lines]
  decide +kernel

end Analysis

end Footprint
