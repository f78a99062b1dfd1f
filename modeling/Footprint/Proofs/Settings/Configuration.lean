import Footprint.Proofs.Toml.Documents
import Footprint.Settings

/-!
# Configuration texts and lists of patterns

A configuration text that defines two lists of patterns adds the same to settings as these lists do. What the text
defines is told by its paths alone, so it does not matter how the table of patterns is written, how the strings are
spelled, or what else there is.
-/

namespace Footprint

open Toml

/-- A path leads to a list of strings, or nowhere if there are none. -/
def Toml.Places.Lists (m : Places) (path texts : List String) : Prop :=
  m path = some (.value (.list (texts.map .text))) ∨ (m path = .none ∧ texts = [])

/-- The two lists of patterns that a document defines: in a table that has a header or that dotted keys or headers of
tables below it make, or in a table in braces. -/
inductive Toml.Places.Defines (m : Places) (read write : List String) : Prop
  | table {i : Item} : m ["patterns"] = some i → i ∈ [.header, .implied, .dotted] →
      m.Lists ["patterns", "read"] read → m.Lists ["patterns", "write"] write → Defines m read write
  | braces {fields : List (List String × Value)} {inner : Places} : m ["patterns"] = some (.value (.table fields)) →
      Tells [] .none fields inner → inner.Lists ["read"] read → inner.Lists ["write"] write → Defines m read write

namespace Configuration

variable {fs gs : Fields} {m : Places} {k : String} {texts read write : List String} {n : Node}

theorem mapM_text? (texts : List String) : (texts.map Node.text).mapM text? = some texts := by
  induction texts with
  | nil => rfl
  | cons s texts ih =>
    rw [List.map_cons, List.mapM_cons, ih]
    rfl

theorem eq_of_denoteItems {ns : List Node} (h : DenoteItems (texts.map .text) ns) : ns = texts.map .text := by
  induction texts generalizing ns with
  | nil =>
    cases h
    rfl
  | cons s texts ih =>
    cases h with
    | cons first others =>
      cases first
      rw [ih others, List.map_cons]

theorem exists_of_shown {i : Item} (h : Shown (gs.see [k]) (some i)) :
    ∃ n, gs.lookup k = some n ∧ Shown (some n.sight) (some i) := by
  rw [Fields.see_singleton] at h
  cases held : gs.lookup k with
  | none =>
    rw [held] at h
    cases h
  | some n =>
    rw [held] at h
    exact ⟨n, rfl, h⟩

theorem denotes_of_shown {v : Value} (h : Shown (some n.sight) (some (.value v))) : Denotes v n := by
  cases n with
  | table o fs => cases o <;> cases h; assumption
  | tables fs earlier => cases h
  | text s => cases h; assumption
  | scalar => cases h; assumption
  | moment => cases h; assumption
  | list items => cases h; assumption

theorem exists_table_of_shown {i : Item} (h : Shown (some n.sight) (some i))
    (table : i ∈ [.header, .implied, .dotted]) : ∃ o gs, n = .table o gs ∧ n.inside? = some gs := by
  cases n with
  | table o gs =>
    cases o with
    | inline =>
      cases h
      simp at table
    | _ => exact ⟨_, gs, rfl, rfl⟩
  | tables fs earlier =>
    cases h
    simp at table
  | _ =>
    cases h
    simp at table

theorem list?_eq {path : List String} (shown : Shown (gs.see [k]) (m path)) (lists : m.Lists path texts) :
    list? (gs.lookup k) = some texts := by
  rcases lists with item | ⟨absent, rfl⟩
  · rw [item] at shown
    obtain ⟨n, held, shown⟩ := exists_of_shown shown
    rw [held]
    cases denotes_of_shown shown with
    | list items =>
      rw [eq_of_denoteItems items]
      exact mapM_text? texts
  · rw [absent] at shown
    rw [Fields.lookup_of_see_none (shown.eq_none_iff.mpr rfl)]
    rfl

theorem ofNode?_table {o : Origin} (first : list? (gs.lookup "read") = some read)
    (second : list? (gs.lookup "write") = some write) : ofNode? (.table o gs) = some ⟨read, write⟩ := by
  rw [ofNode?, first, second]
  rfl

/-- The patterns that a document defines are taken from the tree that shows what its paths lead to. -/
theorem exists_ofNode? (shows : Shows fs m) (defines : m.Defines read write) :
    ∃ n, fs.lookup "patterns" = some n ∧ ofNode? n = some ⟨read, write⟩ := by
  have shown := shows ["patterns"] (by simp)
  cases defines with
  | table item table first second =>
    rw [item] at shown
    obtain ⟨n, held, shown⟩ := exists_of_shown shown
    obtain ⟨o, gs, rfl, inside⟩ := exists_table_of_shown shown table
    have sees (k : String) : Fields.see gs [k] = fs.see ["patterns", k] := by
      rw [Fields.see_cons fs, held, Option.bind_some, Node.see_of_inside inside (List.cons_ne_nil k [])]
    refine ⟨_, held, ofNode?_table (list?_eq ?_ first) (list?_eq ?_ second)⟩
    · rw [sees]
      exact shows _ (by simp)
    · rw [sees]
      exact shows _ (by simp)
  | braces item tells first second =>
    rw [item] at shown
    obtain ⟨n, held, shown⟩ := exists_of_shown shown
    cases denotes_of_shown shown with
    | table denote made =>
      obtain ⟨gs, made', inner⟩ := exists_inlineTable tells denote
      rw [made] at made'
      obtain rfl := Option.some.inj made'
      exact ⟨_, held, ofNode?_table (list?_eq (inner _ (by simp)) first) (list?_eq (inner _ (by simp)) second)⟩

end Configuration

namespace Settings

/-- A configuration text adds the lists of patterns that it defines, and without patterns it adds nothing. -/
theorem addToml_eq (s : Settings) {text : String} {m : Places} (h : SpellsDocument 79 m text.toList) :
    (∀ read write, m.Defines read write → s.addToml text = .ok ((s.addRead read).addWrite write)) ∧
      (m ["patterns"] = none → s.addToml text = .ok s) := by
  obtain ⟨fs, parsed, shows⟩ := exists_ofText? h
  constructor
  · intro read write defines
    obtain ⟨n, held, taken⟩ := Configuration.exists_ofNode? shows defines
    rw [addToml, Configuration.ofToml?, parsed]
    simp only [Option.bind_eq_bind, Option.bind_some, held, taken]
    rfl
  · intro absent
    have shown := shows ["patterns"] (by simp)
    have missing := Fields.lookup_of_see_none (shown.eq_none_iff.mpr absent)
    rw [addToml, Configuration.ofToml?, parsed]
    simp only [Option.bind_eq_bind, Option.bind_some, missing]
    rfl

end Settings

/-! ### A text that is read -/

def readPlaces (read : List String) : Places :=
  (Places.none.set [] ["patterns"] .implied .header).set ["patterns"] ["read"] .dotted (.value (.list (read.map .text)))

theorem defines_readPlaces (read : List String) : (readPlaces read).Defines read [] := by
  refine .table (i := .header) ?_ List.mem_cons_self (.inl ?_) (.inr ⟨?_, rfl⟩)
  · simp [readPlaces, Places.set, Places.isBelow]
  · simp [readPlaces, Places.set]
  · simp [readPlaces, Places.set, Places.isBelow, Places.none]

theorem spells_readPlaces : SpellsDocument 79 (readPlaces ["A"]) "[patterns]\nread = [\"A\"]".toList := by
  have headerKey : SpellsKey 79 ["patterns"] "patterns".toList :=
    .last isBlanks_nil (.bare (by decide) (by decide)) isBlanks_nil
  have headerLine : SpellsLine 79 (.header ["patterns"]) "[patterns]".toList := .header isBlanks_nil headerKey
  have readKey : SpellsKey 79 ["read"] "read ".toList :=
    .last isBlanks_nil (.bare (k := "read") (by decide) (by decide)) (w := [' ']) (by decide)
  have letter : SpellsChars ['A'] ['A'] := .cons (t := ['A']) (.verbatim rfl (by decide) (by decide)) .nil
  have quoted : SpellsShort "A" ['"', 'A', '"'] := .basic (s := "A") letter
  have item : SpellsValue 79 78 (.text "A") "\"A\"".toList := .plain (.text (.short quoted))
  have list : SpellsValue 79 79 (.list [.text "A"]) "[\"A\"]".toList := .list (.last .nil item .nil)
  have fieldLine : SpellsLine 79 (.field ["read"] (.list [.text "A"])) "read = [\"A\"]".toList :=
    .field (.mk readKey (w := [' ']) (by decide) list)
  have lines := SpellsLines.more headerLine (.blanks isBlanks_nil) .feed (.last fieldLine (.blanks isBlanks_nil))
  refine ⟨lines, .header (Places.mayOpen_singleton rfl) (.field (Places.mayTell_singleton ?_) .nil)⟩
  simp [Places.set, Places.none, Places.isBelow]

namespace Settings

theorem addToml_eq_header : SpellsDocument 79 (readPlaces ["A"]) "[patterns]\nread = [\"A\"]".toList ∧
    (readPlaces ["A"]).Defines ["A"] [] ∧
    ({} : Settings).addToml "[patterns]\nread = [\"A\"]" = .ok ((({} : Settings).addRead ["A"]).addWrite []) :=
  ⟨spells_readPlaces, defines_readPlaces ["A"],
    (addToml_eq {} spells_readPlaces).1 ["A"] [] (defines_readPlaces ["A"])⟩

end Settings

/-! ### Texts that are refused -/

def nest : Nat → Value
  | 0 => .list []
  | k + 1 => .list [nest k]

def brackets : Nat → List Char
  | 0 => ['[', ']']
  | k + 1 => '[' :: (brackets k ++ [']'])

theorem spells_nest (limit k : Nat) : SpellsValue limit (k + 1) (nest k) (brackets k) := by
  induction k with
  | zero => exact .list (.close .nil)
  | succ k ih => exact .list (.last .nil ih .nil)

theorem exists_brackets (k : Nat) (text : List Char) : ∃ ts, brackets k ++ text = '[' :: ts := by
  cases k with
  | zero => exact ⟨_, rfl⟩
  | succ k => exact ⟨_, rfl⟩

/-- Lists are not read that nest deeper than the reader allows for. -/
theorem value_brackets {depth k : Nat} (deep : depth ≤ k) (text : List Char) :
    value (depth + 1) (brackets k ++ text) = none := by
  induction depth generalizing k text with
  | zero =>
    obtain ⟨ts, same⟩ := exists_brackets k text
    rw [same]
    rfl
  | succ depth ih =>
    obtain ⟨k, rfl⟩ : ∃ j, k = j + 1 := ⟨k - 1, by omega⟩
    rw [brackets, List.cons_append, List.append_assoc]
    have inner := ih (k := k) (by omega) ([']'] ++ text)
    obtain ⟨ts, same⟩ := exists_brackets k ([']'] ++ text)
    rw [same] at inner ⊢
    refine Reads.bind_eq_none reads_peek (Reads.bind_eq_none (reads_pass '[') ?_)
    refine Reads.bind_eq_none (x := ('[' :: ts).length) rfl (bind_eq_none ?_)
    have solid : StartsToken ('[' :: ts) := startsToken_cons (by decide)
    refine Reads.bind_eq_none (reads_skipLayout .nil solid) (Reads.bind_eq_none reads_peek ?_)
    exact bind_eq_none inner

theorem fieldLine_brackets {k : Nat} (deep : depthLimit - 1 ≤ k) (d : Draft) :
    fieldLine d ('x' :: '=' :: brackets k) = none := by
  have key : SpellsKey (depthLimit - 1) ["x"] ['x'] :=
    .last isBlanks_nil (.bare (k := "x") (by decide) (by decide)) isBlanks_nil
  have ends : EndsKey ('=' :: brackets k) := fun c same => by
    cases same
    decide
  have value := value_brackets deep []
  obtain ⟨ts, same⟩ := exists_brackets k []
  rw [List.append_nil] at value same
  have solid : Solid (brackets k) := by
    rw [same]
    exact solid_cons rfl
  refine bind_eq_none (Reads.bind_eq_none (reads_key key ends) (Reads.bind_eq_none (reads_pass '=') ?_))
  exact Reads.bind_eq_none (reads_skipBlanks isBlanks_nil solid) (bind_eq_none value)

/-- A document is refused in which lists nest as deep as the limit. -/
theorem ofText?_brackets {k : Nat} (deep : depthLimit - 1 ≤ k) :
    Fields.ofText? (String.ofList ('x' :: '=' :: brackets k)) = none := by
  have line : line {} ('x' :: '=' :: brackets k) = none := by
    refine Reads.bind_eq_none reads_peek ?_
    rw [List.head?_cons]
    exact fieldLine_brackets deep {}
  have lines (f : Nat) : linesFrom (f + 1) {} ('x' :: '=' :: brackets k) = none := by
    refine Reads.bind_eq_none (reads_skipBlanks isBlanks_nil (solid_cons rfl)) ?_
    exact Reads.bind_eq_none reads_peek (bind_eq_none line)
  rw [Fields.ofText?, String.toList_ofList]
  exact congrArg (Option.map fun p => p.1.fields) (lines _)

namespace Settings

theorem addToml_of_none {text : String} (h : Fields.ofText? text = none) (s : Settings) :
    s.addToml text = .error .configuration := by
  rw [addToml, Configuration.ofToml?, h]
  rfl

/-- Three texts without patterns that are refused: lists that nest too deep, a number that is rounded to infinity, and
a dotted key for a field of a table that only the header of one below it made. -/
theorem addToml_refuses : SpellsDocument 100 (Places.none.set [] ["x"] .dotted (.value (nest 99)))
      (String.ofList ('x' :: '=' :: brackets 99)).toList ∧
    Places.none.set [] ["x"] .dotted (.value (nest 99)) ["patterns"] = none ∧
    ({} : Settings).addToml (String.ofList ('x' :: '=' :: brackets 99)) = .error .configuration ∧
    ({} : Settings).addToml "x = 1e400" = .error .configuration ∧
    ({} : Settings).addToml "[a.b.c]\n[a]\nb.x = 1" = .error .configuration := by
  have isNone {text : String} (h : (Fields.ofText? text).isNone = true) :
      ({} : Settings).addToml text = .error .configuration := addToml_of_none (Option.isNone_iff_eq_none.mp h) {}
  have deep := addToml_of_none (ofText?_brackets (k := 99) (by decide)) {}
  refine ⟨?_, ?_, deep, isNone (by decide +kernel), isNone (by decide +kernel)⟩
  · have key : SpellsKey 100 ["x"] ['x'] := .last isBlanks_nil (.bare (k := "x") (by decide) (by decide)) isBlanks_nil
    have field : SpellsLine 100 (.field ["x"] (nest 99)) ('x' :: '=' :: brackets 99) :=
      .field (.mk key isBlanks_nil (spells_nest 100 99))
    have lines : SpellsLines 100 [.field ["x"] (nest 99)] ('x' :: '=' :: brackets 99 ++ []) :=
      .last field (.blanks isBlanks_nil)
    rw [String.toList_ofList, ← List.append_nil ('x' :: '=' :: brackets 99)]
    exact ⟨lines, .field (Places.mayTell_singleton rfl) .nil⟩
  · simp [Places.set, Places.none, Places.isBelow]

end Settings

end Footprint
