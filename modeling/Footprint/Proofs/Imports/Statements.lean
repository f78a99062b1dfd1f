import Footprint.Proofs.Imports.Extraction
import Footprint.Proofs.Syntax.Suites

/-!
# Programs of imports

Imports stand in lines of their own, in suites of any depth. A statement ends where the next line begins, or
the text does; a suite ends where a line is indented less.
-/

namespace Footprint.Imports

open Syntax Syntax.Rule Syntax.Grammar
open Calls (identifier reads_name_expression)

variable {s : State} {n cs ds e u v w x gap next read left source : List Char} {m : Import} {h : Heading} {st : Statement}
  {b : Block} {p : Program} {column k : Nat} {r : R} {rs : List R} {us : List Tree} {vs : List Construct}

/-! ### Imports -/

/-- An import in a line is a statement that says what the import does. -/
theorem SpellsImport.tells (spelled : SpellsImport m cs) (breaks : Breaks gap next k) (text : s.rest = cs ++ (gap ++ next)) :
    Tells source s cs (gap ++ next) [m.construct] := by
  obtain ⟨h, mem, opens⟩ := spelled.opens (gap ++ next)
  have stop : Ready .stop (({ s with region := .line } : State).behind cs (gap ++ next)) :=
    .stop (State.lead_of_breaks breaks rfl rfl)
  obtain ⟨t, accepted, start, bare⟩ := spelled.reads (s := { s with region := .line }) text breaks.parted breaks.unlinked stop
  obtain ⟨sound, constructs⟩ := m.construct_tree
  rw [← bare] at sound constructs
  rw [Tree.constructs_bare] at constructs
  have known : ∀ h ∈ importHeads, h ∈ simpleHeads := by decide
  rw [← constructs]
  exact tells_simple (text ▸ opens) (known h mem) breaks text (accepts_first accepted) start fun _ inTree =>
    Tree.ownFault?_of_isSound_bare sound source inTree

/-! ### Headings -/

def lineHeads : List Head := importHeads ++ [.word "if".toList, .word "def".toList, .word "class".toList]

theorem SpellsHeading.opens (spelled : SpellsHeading h cs) (left : List Char) : ∃ h ∈ lineHeads, Opens h (cs ++ left) := by
  have behind {n v cs : List Char} (known : n ∈ words) (mem : Head.word n ∈ lineHeads) (hv : IsSpace v) :
      ∃ h ∈ lineHeads, Opens h (n ++ (v ++ cs) ++ left) :=
    ⟨.word n, mem, by rw [List.append_assoc, List.append_assoc]; exact opens_word known hv.parted⟩
  cases spelled with
  | condition _ hv _ => exact behind (by decide) (by decide) hv
  | function _ hv _ _ _ => exact behind (by decide) (by decide) hv
  | ofClass _ hv _ => exact behind (by decide) (by decide) hv

theorem reads_colon (hw : IsBlank w) (text : s.rest = w ++ ':' :: left) (unlinked : HeadOut linking left) :
    Ready (.mark [':']) s ∧ Reads ":" s (w ++ [':']) left [] := by
  have opens : OpensMark [':'] (':' :: left) :=
    opensMark_lone (by decide) left fun _ walrus => unlinked '=' walrus (by decide)
  exact ⟨Opens.ready opens text (.inl hw), .mark rfl opens text (.inl hw)⟩

theorem reads_title (name : IsName n) (hv : IsBlank v) (text : s.rest = v ++ (n ++ (cs ++ left)))
    (parted : HeadIn separators (cs ++ left))
    (title : Reads r (s.behind v (n ++ (cs ++ left))) n (cs ++ left) [identifier n])
    (tail : Reads (each rs) (s.behind (v ++ n) (cs ++ left)) cs left us) :
    Reads (each (glue :: r :: rs)) s (v ++ (n ++ cs)) left (identifier n :: us) := by
  have opened : Opened s v (n ++ (cs ++ left)) := (name.opens parted).opened text (.inl hv)
  rw [← State.behind_behind _ (n ++ (cs ++ left))] at tail
  exact (Reads.glue opened).cons_of_eq (List.append_assoc _ _ _).symm (title.cons tail)

theorem reads_anyName (name : IsName n) (text : s.rest = n ++ left) (parted : HeadIn separators left) :
    Reads anyName s n left [identifier n] :=
  Reads.name (w := []) _ name parted text State.allows_nil (by simp)

theorem reads_parameters (hv : IsBlank v) (hw : IsBlank w) (text : s.rest = v ++ '(' :: (w ++ ')' :: left)) :
    Ready (.mark ['(']) s ∧ Reads parameters s (v ++ '(' :: (w ++ [')'])) left [.node .parameters none {} [] []] := by
  have opens : Opens (.mark ['(']) ('(' :: (w ++ ')' :: left)) := Calls.opensMark_open _
  have inside {t : State} (text : t.rest = w ++ ')' :: left) :
      Reads (each [opt (commaList (phrase .parameter)), ")"]) t (w ++ [')']) left [] := by
    have ready : Ready (.mark [')']) t := Opens.ready (Calls.opensMark_close left) text (.inl hw)
    exact .pass (ready.passes (by decide)) (Calls.reads_close text (.inl hw)).singleton
  have bracket : Reads "(" (s.behind v ('(' :: (w ++ ')' :: left))) ['('] (w ++ ')' :: left) [] :=
    Calls.reads_open (w := []) rfl State.allows_nil
  have content := bracket.cons_of_eq (by simp) (.singleton (.within (g := .free) (inside rfl)))
  have whole : '(' :: (w ++ [')']) ++ left = '(' :: (w ++ ')' :: left) := by simp
  refine ⟨opens.ready text (.inl hv), .node (w := v) ?_ (by decide) ?_⟩ <;> rw [whole]
  · exact opens.opened text (.inl hv)
  · exact content

theorem parted_colon (hw : IsBlank w) : HeadIn separators (w ++ [':'] ++ left) := by
  rw [List.append_assoc]
  exact parted_blank hw (headIn_cons (by decide))

theorem reads_condition (name : IsName n) (hv : IsBlank v) (hw : IsBlank w) (unlinked : HeadOut linking left)
    (text : s.rest = v ++ (n ++ (w ++ [':'])) ++ left) :
    Reads (header [glue, phrase .expression]) s (v ++ (n ++ (w ++ [':']))) left [identifier n] := by
  have content {t : State} (text : t.rest = v ++ (n ++ (w ++ [':'])) ++ left) :
      Reads (each [glue, phrase .expression, ":"]) t (v ++ (n ++ (w ++ [':']))) left [identifier n] := by
    have colon {t : State} (text : t.rest = w ++ [':'] ++ left) := reads_colon hw (text.trans (by simp)) unlinked
    refine reads_title name hv (by simpa only [List.append_assoc] using text) (parted_colon hw) ?_ (colon rfl).2.singleton
    exact .phrase (reads_name_expression name (parted_colon hw) rfl (colon rfl).1 (by decide))
  exact .within (content text)

theorem reads_className (name : IsName n) (hv : IsBlank v) (hw : IsBlank w) (unlinked : HeadOut linking left)
    (text : s.rest = v ++ (n ++ (w ++ [':'])) ++ left) :
    Reads (header [glue, anyName, opt typeParameters, opt argumentList]) s (v ++ (n ++ (w ++ [':']))) left
      [identifier n] := by
  have content {t : State} (text : t.rest = v ++ (n ++ (w ++ [':'])) ++ left) :
      Reads (each [glue, anyName, opt typeParameters, opt argumentList, ":"]) t (v ++ (n ++ (w ++ [':']))) left
        [identifier n] := by
    have colon {t : State} (text : t.rest = w ++ [':'] ++ left) := reads_colon hw (text.trans (by simp)) unlinked
    refine reads_title name hv (by simpa only [List.append_assoc] using text) (parted_colon hw)
      (reads_anyName name rfl (parted_colon hw)) ?_
    obtain ⟨ready, colon⟩ := colon (t := t.behind (v ++ n) (w ++ [':'] ++ left)) rfl
    exact .pass (ready.passes (by decide)) (.pass (ready.passes (by decide)) colon.singleton)
  exact .within (content text)

theorem reads_signature (name : IsName n) (hv : IsBlank v) (hu : IsBlank u) (hw : IsBlank w) (hx : IsBlank x)
    (unlinked : HeadOut linking left) (text : s.rest = v ++ (n ++ (u ++ '(' :: (w ++ ')' :: (x ++ [':'])))) ++ left) :
    Reads (header [glue, anyName, opt typeParameters, parameters, opt (each ["->", glue, type])]) s
      (v ++ (n ++ (u ++ '(' :: (w ++ ')' :: (x ++ [':']))))) left
      [identifier n, .node .parameters none {} [] []] := by
  have parted : HeadIn separators (u ++ '(' :: (w ++ ')' :: (x ++ [':'])) ++ left) := by
    rw [List.append_assoc]
    exact parted_blank hu (headIn_cons (by decide))
  have content {t : State} (text : t.rest = v ++ (n ++ (u ++ '(' :: (w ++ ')' :: (x ++ [':'])))) ++ left) :
      Reads (each [glue, anyName, opt typeParameters, parameters, opt (each ["->", glue, type]), ":"]) t
        (v ++ (n ++ (u ++ '(' :: (w ++ ')' :: (x ++ [':']))))) left
        [identifier n, .node .parameters none {} [] []] := by
    refine reads_title name hv (by simpa only [List.append_assoc] using text) parted (reads_anyName name rfl parted) ?_
    have behind : (t.behind (v ++ n) (u ++ '(' :: (w ++ ')' :: (x ++ [':'])) ++ left)).rest =
        u ++ '(' :: (w ++ ')' :: (x ++ ':' :: left)) := by simp
    obtain ⟨ready, list⟩ := reads_parameters hu hw behind
    obtain ⟨ready', colon⟩ := reads_colon (s := (t.behind (v ++ n) (u ++ '(' :: (w ++ ')' :: (x ++ [':'])) ++ left)).behind
      (u ++ '(' :: (w ++ [')'])) (x ++ ':' :: left)) hx rfl unlinked
    have ends : Reads (each [opt (each ["->", glue, type]), ":"]) _ (x ++ [':']) left [] :=
      .pass (ready'.passes (by decide)) colon.singleton
    exact .pass (ready.passes (by decide)) ((list.cons_of_eq (by simp) ends).cast (by simp))
  exact .within (content text)

/-- What stands between the word of a heading and its colon: the name, perhaps with parentheses. -/
def Heading.trees : Heading → List Tree
  | .condition n | .ofClass n => [identifier n]
  | .function n => [identifier n, .node .parameters none {} [] []]

theorem Heading.plain_trees (h : Heading) : ∀ t ∈ h.trees, t.IsSound ∧ t.constructs = [] := by
  have parameters : (Syntax.Tree.node .parameters none {} [] []).IsSound := Tree.isSound_leaf (by decide) rfl
  cases h with
  | condition n | ofClass n => simpa [Heading.trees] using plain_identifier n
  | function n => simpa [Heading.trees] using ⟨plain_identifier n, parameters, rfl⟩

/-- A statement with a suite of its own, whatever is in the suite. -/
theorem SpellsHeading.tells (spelled : SpellsHeading h cs) (text : s.rest = cs ++ left) (unlinked : HeadOut linking left)
    (isLeft : left = read ++ (gap ++ next)) (follows : Follows lineHeads gap next)
    (suite : ∃ t, Accepts grammar (phrase .suite) (s.behind cs left) [t] (s.behind (cs ++ read) (gap ++ next)) ∧
      t.IsFaultless source ∧ t.constructs = vs) :
    Tells source s (cs ++ read) (gap ++ next) vs := by
  have plain := h.plain_trees
  cases spelled with
  | @condition n v w name hv hw =>
    have text : s.rest = "if".toList ++ (v ++ (n ++ (w ++ [':'])) ++ left) := by simpa only [List.append_assoc] using text
    obtain ⟨token, -, word⟩ := reads_first_word (n := "if".toList) (r := "if") (by decide) rfl
      (by rw [List.append_assoc]; exact hv.parted) text
    have header := reads_condition name hv.1 hw unlinked (s := s.behind "if".toList (v ++ (n ++ (w ++ [':'])) ++ left)) rfl
    have first : RefuseAll grammar s [] := by simp [RefuseAll]
    refine tells_compound rfl token first word header plain isLeft suite ?_
    exact accepts_cons (accepts_many_end (follows.refuses_clause rfl (by decide)))
      (accepts_singleton (follows.maybeElse rfl _ (by decide) (by decide)))
  | @function n v u w x name hv hu hw hx =>
    have text : s.rest = "def".toList ++ (v ++ (n ++ (u ++ '(' :: (w ++ ')' :: (x ++ [':'])))) ++ left) := by
      simpa only [List.append_assoc] using text
    obtain ⟨token, here, word⟩ := reads_first_word (n := "def".toList) (r := "def") (by decide) rfl
      (by rw [List.append_assoc]; exact hv.parted) text
    have header := reads_signature name hv.1 hu hw hx unlinked
      (s := s.behind "def".toList (v ++ (n ++ (u ++ '(' :: (w ++ ')' :: (x ++ [':'])))) ++ left)) rfl
    have others : RefuseAll grammar s [ifStatement, whileStatement, forStatement, tryStatement, withStatement] :=
      here.refuseAll (List.mem_singleton_self _) (by decide)
    have word : Reads (maybeAsync "def") s "def".toList _ [] := .later (here.refuses (by decide)) word.first
    exact tells_compound rfl token others word header plain isLeft suite accepts_nil
  | @ofClass n v w name hv hw =>
    have text : s.rest = "class".toList ++ (v ++ (n ++ (w ++ [':'])) ++ left) := by simpa only [List.append_assoc] using text
    obtain ⟨token, here, word⟩ := reads_first_word (n := "class".toList) (r := "class") (by decide) rfl
      (by rw [List.append_assoc]; exact hv.parted) text
    have header := reads_className name hv.1 hw unlinked (s := s.behind "class".toList (v ++ (n ++ (w ++ [':'])) ++ left)) rfl
    have others : RefuseAll grammar s [ifStatement, whileStatement, forStatement, tryStatement, withStatement,
        functionDefinition] := here.refuseAll (List.mem_singleton_self _) (by decide)
    exact tells_compound rfl token others word header plain isLeft suite accepts_nil

/-! ### Suites -/

theorem SpellsStatement.opens (spelled : SpellsStatement column st cs) (left : List Char) :
    ∃ h ∈ lineHeads, Opens h (cs ++ left) := by
  cases spelled with
  | line spelled =>
    obtain ⟨h, mem, opens⟩ := spelled.opens left
    exact ⟨h, List.mem_append_left _ mem, opens⟩
  | suite heading _ _ _ =>
    rw [List.append_assoc]
    exact heading.opens _

theorem SpellsBlock.opens (spelled : SpellsBlock column b cs) (left : List Char) :
    ∃ h ∈ lineHeads, Opens h (cs ++ left) := by
  cases spelled with
  | last spelled => exact spelled.opens left
  | cons spelled _ _ =>
    rw [List.append_assoc]
    exact spelled.opens _

theorem ne_nil_of_opens (opens : ∀ left, ∃ h ∈ lineHeads, Opens h (cs ++ left)) : cs ≠ [] := by
  rintro rfl
  obtain ⟨h, -, opens⟩ := opens []
  obtain ⟨c, ds, same, -⟩ := opens.beginsToken
  cases same

theorem SpellsBlock.breaks (spelled : SpellsBlock column b cs) (ends : IsLineEnd e) (left : List Char) :
    Breaks (e ++ List.replicate column ' ') (cs ++ left) column ∧
      Follows lineHeads (e ++ List.replicate column ' ') (cs ++ left) := by
  obtain ⟨h, mem, opens⟩ := spelled.opens left
  have blank : IsBlank (List.replicate column ' ') := fun c mem => List.eq_of_mem_replicate mem
  have breaks := Breaks.line ends blank opens.beginsToken
  rw [List.length_replicate] at breaks
  exact ⟨breaks, ⟨_, breaks⟩, .inr ⟨h, mem, opens⟩⟩

mutual

/-- A statement is told by the imports in it, up to the line that is behind it. -/
theorem SpellsStatement.tells : ∀ (st : Statement) {column k : Nat} {s : State} {cs gap next : List Char},
    SpellsStatement column st cs → s.region = .free → s.suite = column → s.rest = cs ++ (gap ++ next) →
    Breaks gap next k → k ≤ column → Follows lineHeads gap next →
    Tells source s cs (gap ++ next) (st.lines.map Import.construct)
  | .line m, column, k, s, cs, gap, next, spelled, _, _, text, breaks, _, _ => by
    cases spelled with
    | line spelled => exact spelled.tells breaks text
  | .suite h b, column, k, s, _, gap, next, spelled, free, suite, text, breaks, le, follows => by
    cases spelled with
    | @suite _ m _ _ cs e ds heading ends more spelled =>
      obtain ⟨inner, -⟩ := spelled.breaks ends (gap ++ next)
      have isLeft : e ++ List.replicate m ' ' ++ (ds ++ (gap ++ next)) =
          e ++ (List.replicate m ' ' ++ ds) ++ (gap ++ next) := by simp only [List.append_assoc]
      have text : s.rest = cs ++ (e ++ List.replicate m ' ' ++ (ds ++ (gap ++ next))) := by
        simpa only [List.append_assoc] using text
      have some : ds ++ (gap ++ next) ≠ [] := List.append_ne_nil_of_left_ne_nil (ne_nil_of_opens spelled.opens) _
      let t := s.behind cs (e ++ List.replicate m ' ' ++ (ds ++ (gap ++ next)))
      let first := ({ t with suites := m :: t.suites } : State).behind (e ++ List.replicate m ' ') (ds ++ (gap ++ next))
      have enters : Enters first m [] (ds ++ (gap ++ next)) :=
        .here (inner.beginsToken some) rfl (inner.column some t.here)
      have lines := SpellsBlock.tells b (s := first) spelled free rfl enters breaks (.inl (Nat.lt_of_le_of_lt le more))
        follows
      have block := accepts_suite (s := t) inner rfl free (suite ▸ more) lines breaks rfl (Nat.lt_of_le_of_lt le more)
      rw [State.behind_behind, List.append_assoc e] at block
      exact heading.tells text inner.unlinked isLeft follows block

/-- The statements of a block are told one by one, up to a line that is indented less. -/
theorem SpellsBlock.tells : ∀ (b : Block) {column k : Nat} {s : State} {before cs gap next : List Char},
    SpellsBlock column b cs → s.region = .free → s.suite = column → Enters s column before (cs ++ (gap ++ next)) →
    Breaks gap next k → k < column ∨ next = [] → Follows lineHeads gap next →
    TellsLines source s column (before ++ cs) (gap ++ next) (b.lines.map Import.construct)
  | .last st, column, k, s, before, cs, gap, next, spelled, free, suite, enters, breaks, ends, follows => by
    cases spelled with
    | last spelled =>
      have le : k ≤ column := by
        rcases ends with less | rfl
        · exact Nat.le_of_lt less
        · exact breaks.eq_zero ▸ Nat.zero_le column
      have head := SpellsStatement.tells st (s := s.behind before (cs ++ (gap ++ next))) spelled free suite rfl breaks le
        follows
      exact .last enters (Nat.le_of_eq suite) (ne_nil_of_opens spelled.opens) head
        (State.line_none_of_breaks breaks rfl (suite ▸ ends))
  | .cons st b, column, k, s, before, _, gap, next, spelled, free, suite, enters, breaks, ends, follows => by
    cases spelled with
    | @cons _ _ _ cs e ds first lineEnd spelled =>
      obtain ⟨inner, innerFollows⟩ := spelled.breaks lineEnd (gap ++ next)
      have head := SpellsStatement.tells st (s := s.behind before (cs ++ (e ++ List.replicate column ' ' ++
        (ds ++ (gap ++ next))))) first free suite rfl inner (Nat.le_refl column) innerFollows
      have tail := SpellsBlock.tells b (s := s.behind (before ++ cs) (e ++ List.replicate column ' ' ++
        (ds ++ (gap ++ next)))) spelled free suite (.behind inner rfl) breaks ends follows
      rw [← List.append_assoc _ ds] at head tail
      have whole := TellsLines.cons (by simpa only [List.append_assoc] using enters) (Nat.le_of_eq suite)
        (ne_nil_of_opens first.opens) head tail
      rw [Block.lines, List.map_append]
      simpa only [List.append_assoc] using whole

end

/-! ### Whole programs -/

mutual

theorem SpellsStatement.imports : ∀ (st : Statement) {column : Nat} {cs : List Char}, SpellsStatement column st cs →
    ∀ m ∈ st.lines, m.construct.imports = m.imports
  | .line i, _, _, spelled, m, mem => by
    obtain rfl := List.mem_singleton.mp mem
    cases spelled with
    | line spelled => exact spelled.imports
  | .suite _ b, _, _, spelled, m, mem => by
    cases spelled with
    | suite _ _ _ spelled => exact SpellsBlock.imports b spelled m mem

theorem SpellsBlock.imports : ∀ (b : Block) {column : Nat} {cs : List Char}, SpellsBlock column b cs →
    ∀ m ∈ b.lines, m.construct.imports = m.imports
  | .last st, _, _, spelled, m, mem => by
    cases spelled with
    | last spelled => exact SpellsStatement.imports st spelled m mem
  | .cons st b, _, _, spelled, m, mem => by
    cases spelled with
    | cons first _ spelled =>
      rcases List.mem_append.mp mem with here | behind
      · exact SpellsStatement.imports st first m here
      · exact SpellsBlock.imports b spelled m behind

end

/-- A block at the left edge of a text, before what ends the text, is what the text says. -/
theorem SpellsBlock.constructsOf (spelled : SpellsBlock 0 b cs) (ends : Breaks gap [] k) :
    constructsOf (String.ofList (cs ++ gap)) = .ok (b.lines.map Import.construct) := by
  obtain ⟨h, -, opens⟩ := spelled.opens gap
  have token := opens.beginsToken
  rw [← List.append_nil gap] at token ⊢
  have lines : TellsLines (cs ++ (gap ++ [])) { rest := cs ++ (gap ++ []) } 0 ([] ++ cs) (gap ++ [])
      (b.lines.map Import.construct) :=
    SpellsBlock.tells b spelled rfl rfl (.here token rfl rfl) ends (.inr rfl) ⟨⟨k, ends⟩, .inl rfl⟩
  exact constructsOf_of_tellsLines (.inr token) lines ((List.append_nil gap).symm ▸ ends)

/-- A program of imports has these as its findings, in the order in which they are written and as often, and
neither reads nor writes a file. -/
theorem findingsOf_of_spellsProgram (patterns : AccessPatterns) (spelled : SpellsProgram p source) :
    findingsOf constructsOf patterns (String.ofList source) = .ok ⟨p.imports, [], []⟩ := by
  have read {b : Block} {cs gap : List Char} {k : Nat} (spelled : SpellsBlock 0 b cs) (ends : Breaks gap [] k) :
      findingsOf constructsOf patterns (String.ofList (cs ++ gap)) = .ok ⟨b.imports, [], []⟩ := by
    rw [findingsOf, spelled.constructsOf ends]
    exact congrArg Except.ok (ofConstructs_imports patterns b.lines (SpellsBlock.imports b spelled))
  cases spelled with
  | empty =>
    have nothing : constructsOf (String.ofList []) = .ok [] :=
      constructsOf_of_tellsLines (.inl rfl) (.nil rfl (State.line_none_of_breaks .text rfl (.inr rfl))) .text
    rw [findingsOf, nothing]
    rfl
  | bare spelled =>
    have whole := read spelled .text
    rwa [List.append_nil] at whole
  | ended spelled ends => exact read spelled (.last ends)

/-- Suites of different indentation, and each shape of an import. -/
theorem findingsOf_nested_suites :
    let item : List Char → Item := fun n => ⟨n, [], none⟩
    let b : Block := .cons (.line (.modules ⟨['a'], [['b']], some ['c']⟩ [item ['d']]))
      (.cons (.suite (.condition ['x']) (.cons (.line (.names (.relative 1 ['e'] []) (item ['f']) [item ['g']]))
        (.last (.suite (.function ['k']) (.last (.line (.all (.package 0))))))))
      (.last (.line (.future (item ['m']) []))))
    let source := "import a.b as c, d\nif x:\n from ..e import (f, g,)\n def k():\n    from . import *\nfrom __future__ import m"
    SpellsProgram (some b) source.toList ∧ ∀ patterns, findingsOf constructsOf patterns source =
      .ok ⟨["a.b", "d", "e.f", "e.g", "*", "__future__.m"], [], []⟩ := by
  intro item b source
  have space : IsSpace [' '] := ⟨by simp [IsBlank], nofun⟩
  have name {c : Char} (start : (c.isAlpha || c == '_') = true) (free : [c] ∉ reservedWords) : IsName [c] := by
    refine ⟨⟨c, [], rfl, start⟩, fun d mem => ?_, free⟩
    obtain rfl := List.mem_singleton.mp mem
    rw [Char.isAlphanum, Bool.or_right_comm, start, Bool.true_or]
  have plain {c : Char} (start : (c.isAlpha || c == '_') = true) (free : [c] ∉ reservedWords) :
      SpellsItem (item [c]) ([c] ++ []) := .plain (name start free) .nil
  have more {c : Char} (start : (c.isAlpha || c == '_') = true) (free : [c] ∉ reservedWords) :
      SpellsItems [item [c]] ([] ++ ',' :: ([' '] ++ (([c] ++ []) ++ []))) := .cons .nil space.1 (plain start free) .nil
  have modules : SpellsImport (.modules ⟨['a'], [['b']], some ['c']⟩ [item ['d']]) "import a.b as c, d".toList :=
    .modules space (.renamed (name (by decide) (by decide)) (.cons .nil .nil (name (by decide) (by decide)) .nil) space space
      (name (by decide) (by decide))) (more (by decide) (by decide))
  have names : SpellsImport (.names (.relative 1 ['e'] []) (item ['f']) [item ['g']]) "from ..e import (f, g,)".toList :=
    .names (.relative space.1 .nil (name (by decide) (by decide)) .nil space) (.group space.1 .nil
      (plain (by decide) (by decide)) (more (by decide) (by decide)) (.comma .nil) .nil)
  have all : SpellsImport (.all (.package 0)) "from . import *".toList := .all (.package space.1 space.1) space.1
  have future : SpellsImport (.future (item ['m']) []) "from __future__ import m".toList :=
    .future space space (.plain space (plain (by decide) (by decide)) .nil)
  have function : SpellsStatement 1 (.suite (.function ['k']) (.last (.line (.all (.package 0)))))
      "def k():\n    from . import *".toList :=
    .suite (m := 4) (.function (name (by decide) (by decide)) space .nil .nil .nil) (.inl rfl) (by decide) (.last (.line all))
  have condition : SpellsStatement 0 (.suite (.condition ['x'])
      (.cons (.line (.names (.relative 1 ['e'] []) (item ['f']) [item ['g']]))
        (.last (.suite (.function ['k']) (.last (.line (.all (.package 0))))))))
      "if x:\n from ..e import (f, g,)\n def k():\n    from . import *".toList :=
    .suite (m := 1) (.condition (name (by decide) (by decide)) space .nil) (.inl rfl) (by decide)
      (.cons (.line names) (.inl rfl) (.last function))
  have lines := SpellsBlock.cons (.line modules) (.inl rfl) (.cons condition (.inl rfl) (.last (.line future)))
  have text : source.toList = "import a.b as c, d".toList ++ (['\n'] ++ (List.replicate 0 ' ' ++
      ("if x:\n from ..e import (f, g,)\n def k():\n    from . import *".toList ++ (['\n'] ++ (List.replicate 0 ' ' ++
        "from __future__ import m".toList))))) := by decide
  have spelled : SpellsProgram (some b) source.toList := text ▸ .bare lines
  have imports : Program.imports (some b) = ["a.b", "d", "e.f", "e.g", "*", "__future__.m"] := by decide
  refine ⟨spelled, fun patterns => ?_⟩
  have read := findingsOf_of_spellsProgram patterns spelled
  rwa [String.ofList_toList, imports] at read

end Footprint.Imports
