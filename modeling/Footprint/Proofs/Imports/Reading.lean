import Footprint.Proofs.Calls.Reading
import Footprint.Proofs.Imports.Language

/-!
# Reading imports

Each import statement is read as one tree. A dotted name is tried as a renamed one first, and a module as one
of the future; behind the name stands no `as`, and the module has another name.
-/

namespace Footprint.Imports

open Syntax Syntax.Rule Syntax.Grammar
open Calls (identifier)

variable {s : State} {h : Head} {n b cs ds u v w left next text : List Char} {ns : List (List Char)} {i : Item}
  {is : List Item} {o : Origin} {r : R} {rs : List R} {us : List Tree}

/-! ### Words -/

def words : List (List Char) := ["import", "from", "as", "__future__", "if", "def", "class"].map String.toList

theorem of_mem_words (known : n ∈ words) :
    (∃ c v, n = c :: v ∧ Text.isIdentifierStart c = true) ∧ ∀ c ∈ n, Text.isIdentifierRest c = true := by
  have all : ∀ n ∈ words, n.head?.any Text.isIdentifierStart = true ∧ ∀ c ∈ n, Text.isIdentifierRest c = true := by
    decide
  obtain ⟨start, rest⟩ := all n known
  refine ⟨?_, rest⟩
  cases n with
  | nil => cases start
  | cons c v => exact ⟨c, v, rfl, start⟩

theorem opens_word (known : n ∈ words) (parted : HeadIn separators left) : Opens (.word n) (n ++ left) := by
  obtain ⟨start, rest⟩ := of_mem_words known
  have read : (Token.keyword n).length? [] (n ++ left) = some n.length ∧ _ := keyword_wordAt start rest parted
  exact read.2

theorem reads_word (known : n ∈ words) (is : r = .token (.keyword n)) (parted : HeadIn separators left)
    (text : s.rest = w ++ (n ++ left)) (hw : IsBlank w) : Reads r s (w ++ n) left [] :=
  Reads.keyword is (of_mem_words known).1 (of_mem_words known).2 parted text (.inl hw)

theorem IsSpace.parted (space : IsSpace w) : HeadIn separators (w ++ text) := by
  obtain ⟨blank, some⟩ := space
  cases w with
  | nil => exact absurd rfl some
  | cons c w =>
    obtain rfl : c = ' ' := blank c List.mem_cons_self
    exact headIn_cons (by decide)

theorem parted_blank (blank : IsBlank w) (parted : HeadIn separators text) : HeadIn separators (w ++ text) :=
  headIn_filler blank.isFiller parted (by decide)

/-! ### Dotted names -/

def dottedTree (n : List Char) (ns : List (List Char)) : Tree :=
  .node .dottedName none {} [] ((n :: ns).map identifier)

def itemEnds : List Head := [.stop, .mark [')'], .mark [',']]

def nameEnds : List Head := itemEnds ++ [.word "as".toList, .word "import".toList]

theorem SpellsParts.parted (parts : SpellsParts ns cs) (parted : HeadIn separators left) :
    HeadIn separators (cs ++ left) := by
  cases parts with
  | nil => exact parted
  | cons hv _ _ _ =>
    rw [List.append_assoc]
    exact parted_blank hv (headIn_cons (by decide))

theorem SpellsParts.reads (parts : SpellsParts ns cs) (text : s.rest = cs ++ left) (parted : HeadIn separators left)
    (ready : Ready h (s.behind cs left)) (mem : h ∈ nameEnds) :
    Reads (many (each [".", glue, anyName])) s cs left (ns.map identifier) := by
  induction parts generalizing s with
  | nil =>
    rw [List.nil_append] at text
    rw [State.behind_nil text] at ready
    exact .many_end text (ready.refusesAll mem (by decide))
  | @cons n cs v w ns hv hw name parts ih =>
    have text : s.rest = v ++ '.' :: (w ++ (n ++ (cs ++ left))) := by simpa using text
    have whole : v ++ ['.'] ++ (w ++ n) ++ cs = v ++ '.' :: (w ++ (n ++ cs)) := by simp
    have part : Reads (each [".", glue, anyName]) s (v ++ ['.'] ++ (w ++ n)) (cs ++ left) [identifier n] :=
      Calls.reads_pointed name (.inl hv) (.inl hw) (parts.parted parted) text
        (Reads.name (w := []) _ name (parts.parted parted) rfl State.allows_nil (by simp))
    rw [← whole, ← State.behind_behind _ (cs ++ left)] at ready
    exact (part.many_cons (ih rfl ready)).cast whole

theorem reads_dotted (name : IsName n) (parts : SpellsParts ns cs) (hw : IsBlank w)
    (text : s.rest = w ++ (n ++ cs ++ left)) (parted : HeadIn separators left)
    (ready : Ready h (s.behind (w ++ (n ++ cs)) left)) (mem : h ∈ nameEnds) :
    Reads dottedName s (w ++ (n ++ cs)) left [dottedTree n ns] := by
  have start : HeadIn separators (cs ++ left) := parts.parted parted
  have opened : Opened s w (n ++ cs ++ left) := by
    rw [List.append_assoc] at text ⊢
    exact (name.opens start).opened text (.inl hw)
  have first : Reads anyName (s.behind w (n ++ cs ++ left)) n (cs ++ left) [identifier n] :=
    Reads.name (w := []) _ name start (by simp) State.allows_nil (by simp)
  rw [← List.append_assoc, ← State.behind_behind _ (cs ++ left), ← State.behind_behind _ (n ++ cs ++ left)] at ready
  exact .node opened (by decide) (first.cons (parts.reads rfl parted ready mem).singleton)

/-! ### Items -/

def Item.tree (i : Item) : Tree :=
  match i.alias? with
  | .none => (dottedTree i.first i.more).withRole .name
  | .some a => .node .renamedImport (some .name) {} [] [(dottedTree i.first i.more).withRole .name, identifier a]

theorem reads_as (name : IsName n) (hv : IsBlank v) (hw : IsSpace w) (parted : HeadIn separators left)
    (text : s.rest = v ++ ("as".toList ++ (w ++ n)) ++ left) :
    Reads (each ["as", glue, anyName]) s (v ++ ("as".toList ++ (w ++ n))) left [identifier n] := by
  have text : s.rest = v ++ ("as".toList ++ (w ++ (n ++ left))) := by simpa using text
  have word : Reads "as" s (v ++ "as".toList) (w ++ (n ++ left)) [] := reads_word (by decide) rfl hw.parted text hv
  have opened : Opened (s.behind (v ++ "as".toList) (w ++ (n ++ left))) w (n ++ left) :=
    (name.opens parted).opened rfl (.inl hw.1)
  have bound : Reads anyName ((s.behind (v ++ "as".toList) (w ++ (n ++ left))).behind w (n ++ left)) n left
      [identifier n] := Reads.name (w := []) _ name parted rfl State.allows_nil (by simp)
  have tail := (Reads.glue opened).cons bound.singleton
  rw [← List.append_assoc] at word tail
  exact (word.cons tail).cast (by simp)

theorem SpellsItem.opens (item : SpellsItem i cs) (parted : HeadIn separators left) : Opens .name (cs ++ left) := by
  cases item with
  | plain name parts =>
    rw [List.append_assoc]
    exact name.opens (parts.parted parted)
  | renamed name parts hv _ _ =>
    rw [List.append_assoc, List.append_assoc, List.append_assoc]
    exact name.opens (parts.parted hv.parted)

theorem SpellsItem.reads (item : SpellsItem i cs) (hu : IsBlank u) (text : s.rest = u ++ (cs ++ left))
    (parted : HeadIn separators left) (ready : Ready h (s.behind (u ++ cs) left)) (mem : h ∈ itemEnds) :
    Reads importedName s (u ++ cs) left [i.tree] := by
  have opened : Opened s u (cs ++ left) := (item.opens parted).opened text (.inl hu)
  cases item with
  | @plain n cs ns name parts =>
    have ends : h ∈ nameEnds := List.mem_append_left _ mem
    have dotted : Reads dottedName s (u ++ (n ++ cs)) left [dottedTree n ns] :=
      reads_dotted name parts hu text parted ready ends
    rw [← State.behind_behind _ (n ++ cs ++ left)] at ready
    obtain ⟨extras, -, lead, -⟩ := opened.lead
    obtain ⟨-, ts, front, -⟩ := reads_dotted (w := []) (s := s.behind u (n ++ cs ++ left)) name parts .nil rfl parted
      ready ends
    have noAlias : Refuses grammar (choose (inRole .name dottedName) [(.renamedImport, each ["as", glue, anyName])]) s :=
      refuses_choose_ends lead (accepts_inRole front) (ready.refuseAll mem (by decide))
    exact .inRole (.later noAlias (.first dotted))
  | @renamed n cs v w a ns name parts hv hw other =>
    have assoc : n ++ cs ++ (v ++ ("as".toList ++ (w ++ a))) ++ left =
        n ++ cs ++ (v ++ ("as".toList ++ (w ++ a)) ++ left) := List.append_assoc _ _ _
    rw [assoc] at opened
    have sign : HeadIn separators (v ++ ("as".toList ++ (w ++ a)) ++ left) := by
      rw [List.append_assoc]
      exact hv.parted
    have behind : Ready (.word "as".toList) ((s.behind u (n ++ cs ++ (v ++ ("as".toList ++ (w ++ a)) ++ left))).behind
        (n ++ cs) (v ++ ("as".toList ++ (w ++ a)) ++ left)) := by
      have word : Opens (.word "as".toList) ("as".toList ++ (w ++ (a ++ left))) := opens_word (by decide) hw.parted
      exact word.ready (w := v) (by simp) (.inl hv.1)
    have dotted := reads_dotted (w := []) (s := s.behind u (n ++ cs ++ (v ++ ("as".toList ++ (w ++ a)) ++ left))) name
      parts .nil rfl sign behind (by decide)
    have bound := reads_as (s := s.behind (u ++ (n ++ cs)) (v ++ ("as".toList ++ (w ++ a)) ++ left)) other hv.1 hw
      parted rfl
    have renamed : Reads (choose (inRole .name dottedName) [(.renamedImport, each ["as", glue, anyName])]) s
        (u ++ (n ++ cs ++ (v ++ ("as".toList ++ (w ++ a))))) left _ :=
      .choose [] opened (by decide) rfl (.inRole dotted) (by simp [RefuseAll]) bound
    exact .inRole (.first renamed)

/-! ### Lists of items -/

theorem SpellsItems.follow (items : SpellsItems is cs) (text : s.rest = cs ++ left) (parted : HeadIn separators left)
    (ready : Ready h (s.behind cs left)) (mem : h ∈ itemEnds) :
    HeadIn separators (cs ++ left) ∧ ∃ h ∈ itemEnds, Ready h s := by
  cases items with
  | nil =>
    rw [List.nil_append] at text
    rw [State.behind_nil text] at ready
    exact ⟨parted, h, mem, ready⟩
  | @cons _ _ cs ds v w hv _ _ _ =>
    rw [List.append_assoc] at text ⊢
    have comma : Ready (.mark [',']) s := Opens.ready (Calls.opensMark_comma _) text (.inl hv)
    exact ⟨parted_blank hv (headIn_cons (by decide)), .mark [','], by decide, comma⟩

theorem SpellsItems.reads (items : SpellsItems is cs) (text : s.rest = cs ++ left) (parted : HeadIn separators left)
    (ready : Ready h (s.behind cs left)) (mem : h ∈ itemEnds)
    (ends : Refuses grammar (each [",", importedName]) (s.behind cs left)) :
    Reads (many (each [",", importedName])) s cs left (is.map Item.tree) := by
  induction items generalizing s with
  | nil =>
    rw [List.nil_append] at text
    rw [State.behind_nil text] at ends
    exact .many_end text ends
  | @cons i is cs ds v w hv hw item items ih =>
    have assoc : v ++ ',' :: (w ++ (cs ++ ds)) ++ left = v ++ ',' :: (w ++ (cs ++ (ds ++ left))) := by simp
    have whole : v ++ [','] ++ (w ++ cs) ++ ds = v ++ ',' :: (w ++ (cs ++ ds)) := by simp
    have comma : Reads "," s (v ++ [',']) (w ++ (cs ++ (ds ++ left))) [] :=
      Calls.reads_comma (text.trans assoc) (.inl hv)
    rw [← whole, ← State.behind_behind _ (ds ++ left)] at ready ends
    obtain ⟨behind, h', mem', ready'⟩ := items.follow rfl parted ready mem
    rw [← State.behind_behind _ (w ++ (cs ++ (ds ++ left)))] at ready'
    have head := item.reads hw rfl behind ready' mem'
    rw [← List.append_assoc w] at comma head
    exact ((comma.cons head.singleton).many_cons (ih rfl ready ends)).cast whole

theorem reads_names (item : SpellsItem i cs) (items : SpellsItems is ds) (text : s.rest = cs ++ (ds ++ (b ++ left)))
    (parted : HeadIn separators (b ++ left)) (ready : Ready h (s.behind (cs ++ ds) (b ++ left))) (mem : h ∈ itemEnds)
    (ends : Refuses grammar (each [",", importedName]) (s.behind (cs ++ ds) (b ++ left)))
    (tail : Reads maybeComma (s.behind (cs ++ ds) (b ++ left)) b left []) :
    Reads importedNames s (cs ++ (ds ++ b)) left ((i :: is).map Item.tree) := by
  rw [← State.behind_behind _ (ds ++ (b ++ left))] at ready ends
  obtain ⟨behind, h', mem', ready'⟩ := items.follow rfl parted ready mem
  have first : Reads importedName s cs (ds ++ (b ++ left)) [i.tree] := item.reads (u := []) .nil text behind ready' mem'
  have more := items.reads rfl parted ready mem ends
  have all := first.cons more.singleton
  have whole := all.cons tail.singleton
  rw [List.append_nil] at whole
  exact whole.cast (List.append_assoc cs ds b)

theorem IsTrailing.reads (trailing : IsTrailing b) (hw : IsBlank w) (text : s.rest = b ++ (w ++ ')' :: left)) :
    HeadIn separators (b ++ (w ++ ')' :: left)) ∧ (∃ h ∈ itemEnds, Ready h s) ∧
      Refuses grammar (each [",", importedName]) s ∧ Reads maybeComma s b (w ++ ')' :: left) [] := by
  have closing {s : State} (text : s.rest = w ++ ')' :: left) : Ready (.mark [')']) s :=
    Opens.ready (Calls.opensMark_close left) text (.inl hw)
  cases trailing with
  | none =>
    rw [List.nil_append] at text ⊢
    have ready := closing text
    refine ⟨parted_blank hw (headIn_cons (by decide)), ⟨_, by decide, ready⟩, ready.refuses (by decide), ?_⟩
    exact .skip text (ready.refuses (by decide))
  | @comma u hu =>
    have text : s.rest = u ++ ',' :: (w ++ ')' :: left) := by simpa using text
    have sign : Reads "," s (u ++ [',']) (w ++ ')' :: left) [] := Calls.reads_comma text (.inl hu)
    have ready : Ready (.mark [',']) s := Opens.ready (Calls.opensMark_comma _) text (.inl hu)
    obtain ⟨ts, accepted, -⟩ := sign.accepts
    rw [List.append_assoc]
    refine ⟨parted_blank hu (headIn_cons (by decide)), ⟨_, by decide, ready⟩, ?_, .opt sign⟩
    exact refuses_tail accepted (refuses_head ((closing rfl).refuses (by decide)))

theorem reads_group (item : SpellsItem i cs) (items : SpellsItems is ds) (trailing : IsTrailing b) (hu : IsBlank u)
    (hw : IsBlank w) (text : s.rest = '(' :: (u ++ (cs ++ (ds ++ (b ++ (w ++ ')' :: left)))))) :
    Reads importedGroup s ('(' :: (u ++ (cs ++ (ds ++ (b ++ (w ++ [')'])))))) left ((i :: is).map Item.tree) := by
  have bracket : Reads "(" s ['('] (u ++ (cs ++ (ds ++ (b ++ (w ++ ')' :: left))))) [] :=
    Calls.reads_open (w := []) text State.allows_nil
  have inside (t : State) (text : t.rest = u ++ (cs ++ (ds ++ (b ++ (w ++ ')' :: left))))) :
      Reads (each [glue, importedNames, ")"]) t (u ++ (cs ++ (ds ++ b) ++ (w ++ [')']))) left ((i :: is).map Item.tree) := by
    obtain ⟨parted, ⟨h, mem, ready⟩, ends, comma⟩ := trailing.reads
      (s := (t.behind u (cs ++ (ds ++ (b ++ (w ++ ')' :: left))))).behind (cs ++ ds) (b ++ (w ++ ')' :: left))) hw rfl
    obtain ⟨behind, -⟩ := items.follow rfl parted (by rwa [State.behind_behind _ (ds ++ (b ++ (w ++ ')' :: left)))]) mem
    have opened := (item.opens behind).opened text (.inl hu)
    have names := reads_names item items rfl parted ready mem ends comma
    have closing : Reads ")" ((t.behind u (cs ++ (ds ++ (b ++ (w ++ ')' :: left))))).behind (cs ++ (ds ++ b))
        (w ++ ')' :: left)) (w ++ [')']) left [] := Calls.reads_close rfl (.inl hw)
    have list := names.cons_of_eq (by simp) closing.singleton
    rw [List.append_nil] at list
    exact (Reads.glue opened).cons_of_eq (by simp) list
  exact (bracket.cons_of_eq (by simp) (.singleton (.within (inside _ rfl)))).cast (by simp)

theorem reads_plain (item : SpellsItem i cs) (items : SpellsItems is ds) (hv : IsBlank v)
    (text : s.rest = v ++ (cs ++ ds ++ left)) (parted : HeadIn separators left)
    (stop : Ready .stop (s.behind (v ++ (cs ++ ds)) left)) :
    Opened s v (cs ++ ds ++ left) ∧ Ready .name (s.behind v (cs ++ ds ++ left)) ∧
      Reads importedNames (s.behind v (cs ++ ds ++ left)) (cs ++ ds) left ((i :: is).map Item.tree) := by
  rw [List.append_assoc] at text ⊢
  rw [← State.behind_behind _ (cs ++ (ds ++ left))] at stop
  obtain ⟨behind, -⟩ := items.follow (s := (s.behind v (cs ++ (ds ++ left))).behind cs (ds ++ left)) rfl parted
    (by simpa using stop) (by decide)
  have opens := item.opens behind
  have names := reads_names (b := []) (s := s.behind v (cs ++ (ds ++ left))) item items rfl parted stop (by decide)
    (stop.refuses (by decide)) (.skip rfl (stop.refuses (by decide)))
  rw [List.append_nil] at names
  exact ⟨opens.opened text (.inl hv), opens.ready (w := []) rfl State.allows_nil, names⟩

/-- A list is read behind its blanks as the trees of its items. -/
theorem SpellsList.reads (list : SpellsList i is cs) (text : s.rest = cs ++ left) (parted : HeadIn separators left)
    (stop : Ready .stop (s.behind cs left)) :
    ∃ v ds, cs = v ++ ds ∧ Opened s v (ds ++ left) ∧ (∃ h ∈ [Head.name, .mark ['(']], Ready h (s.behind v (ds ++ left))) ∧
      Reads (first [importedGroup, importedNames]) (s.behind v (ds ++ left)) ds left ((i :: is).map Item.tree) := by
  cases list with
  | @plain cs ds v hv item items =>
    obtain ⟨opened, here, names⟩ := reads_plain item items hv.1 (by simpa using text) parted stop
    exact ⟨v, cs ++ ds, rfl, opened, ⟨.name, by decide, here⟩, .later (here.refuses (by decide)) (.first names)⟩
  | @group b cs ds v u w hv hu item items trailing hw =>
    have assoc : '(' :: (u ++ (cs ++ (ds ++ (b ++ (w ++ [')']))))) ++ left =
        '(' :: (u ++ (cs ++ (ds ++ (b ++ (w ++ ')' :: left))))) := by simp
    have opens : Opens (.mark ['(']) ('(' :: (u ++ (cs ++ (ds ++ (b ++ (w ++ ')' :: left)))))) := Calls.opensMark_open _
    refine ⟨v, _, rfl, ?_, ⟨.mark ['('], by decide, ?_⟩, ?_⟩ <;> rw [assoc]
    · exact opens.opened (by rw [text, List.append_assoc, assoc]) (.inl hv)
    · exact opens.ready (w := []) rfl State.allows_nil
    · exact .first (reads_group item items trailing hu hw rfl)

/-! ### Origins -/

def Origin.tree : Origin → Tree
  | .absolute n ns => (dottedTree n ns).withRole .moduleName
  | .package _ => .node .relativeModule (some .moduleName) {} [] []
  | .relative _ n ns => .node .relativeModule (some .moduleName) {} [] [dottedTree n ns]

theorem length_points (few : ['.', '.'].isPrefixOf left = false) (quotes : List Quote) :
    (Token.mark "...".toList).length? quotes ('.' :: left) = .none ∧
      (Token.mark ".".toList).length? quotes ('.' :: left) = .some 1 := by
  have three : "...".toList.isPrefixOf ('.' :: left) = false := few
  have others : ∀ l ∈ longMarks, l.head? ≠ some '.' ∨ l = "...".toList := by decide
  have longest : ∀ l ∈ longMarks, l.isPrefixOf ('.' :: left) = false := by
    intro l mem
    rcases others l mem with other | rfl
    · cases l with
      | nil => exact absurd mem (by decide)
      | cons c l =>
        have ne : c ≠ '.' := fun same => other (congrArg some same)
        simp [List.isPrefixOf, ne]
    · exact three
  have point : (".".toList.isPrefixOf ('.' :: left) && longMarks.all fun l =>
      decide (l.length ≤ ".".toList.length) || !l.isPrefixOf ('.' :: left)) = true := by
    rw [Bool.and_eq_true, List.all_eq_true]
    exact ⟨rfl, fun l mem => by rw [longest l mem, Bool.not_false, Bool.or_true]⟩
  constructor
  · rw [Token.length?, three]
    rfl
  · simp only [Token.length?, point, if_true]
    rfl

theorem length_dots (left : List Char) (quotes : List Quote) :
    (Token.mark "...".toList).length? quotes ('.' :: '.' :: '.' :: left) = some 3 := by
  have short : ∀ l ∈ longMarks, l.length ≤ "...".toList.length := by decide
  have dots : ("...".toList.isPrefixOf ('.' :: '.' :: '.' :: left) && longMarks.all fun l =>
      decide (l.length ≤ "...".toList.length) || !l.isPrefixOf ('.' :: '.' :: '.' :: left)) = true := by
    rw [Bool.and_eq_true, List.all_eq_true]
    exact ⟨rfl, fun l mem => by rw [decide_eq_true (short l mem), Bool.true_or]⟩
  simp only [Token.length?, dots, if_true]
  rfl

/-- Of any number of points, one or three are read. -/
theorem reads_dots {k : Nat} (text : s.rest = List.replicate (k + 1) '.' ++ left) (next : HeadOut ['.'] left) :
    ∃ j m, k = j + m ∧ Reads (first ["...", "."]) s (List.replicate (j + 1) '.') (List.replicate m '.' ++ left) [] := by
  have opened {rest : List Char} (text : s.rest = '.' :: rest) : Opened s [] ('.' :: rest) :=
    ⟨text, State.allows_nil, '.', rest, rfl, by decide⟩
  have one {rest : List Char} (text : s.rest = '.' :: rest) (few : ['.', '.'].isPrefixOf rest = false) :
      Reads (first ["...", "."]) s ['.'] rest [] := by
    obtain ⟨noDots, point⟩ := length_points few s.quotes
    have three : Refuses grammar "..." s := (opened text).refuses (t := .mark "...".toList) rfl noDots
    have single : Reads (.token (.mark ".".toList)) s ([] ++ ['.']) rest [] :=
      .token (opened text) rfl point fun _ _ => rfl
    exact .later three (.first single)
  have few : ['.', '.'].isPrefixOf left = false ∧ ['.', '.'].isPrefixOf ('.' :: left) = false := by
    cases left with
    | nil => exact ⟨rfl, rfl⟩
    | cons c left =>
      have ne : '.' ≠ c := fun same => next c rfl (List.mem_singleton.mpr same.symm)
      simp [List.isPrefixOf, ne]
  match k with
  | 0 => exact ⟨0, 0, rfl, one text few.1⟩
  | 1 => exact ⟨0, 1, rfl, one text few.2⟩
  | k + 2 =>
    have dots : Reads (.token (.mark "...".toList)) s ([] ++ "...".toList) (List.replicate k '.' ++ left) [] :=
      .token (opened text) rfl (length_dots _ _) fun _ _ => rfl
    exact ⟨2, k, Nat.add_comm k 2, .first dots⟩

theorem many_dots (k : Nat) (text : s.rest = List.replicate k '.' ++ left) (next : HeadOut ['.'] left)
    (ends : Refuses grammar (first ["...", "."]) (s.behind (List.replicate k '.') left)) :
    Reads (many (first ["...", "."])) s (List.replicate k '.') left [] := by
  induction k using Nat.strongRecOn generalizing s with
  | ind k ih =>
    cases k with
    | zero =>
      have text : s.rest = left := text
      rw [List.replicate_zero, State.behind_nil text] at ends
      exact .many_end text ends
    | succ k =>
      obtain ⟨j, m, rfl, dots⟩ := reads_dots text next
      have whole : List.replicate (j + m + 1) '.' = List.replicate (j + 1) '.' ++ List.replicate m '.' := by
        rw [List.replicate_append_replicate, Nat.add_right_comm]
      rw [whole, ← State.behind_behind _ (List.replicate m '.' ++ left)] at ends
      exact (dots.many_cons (ih m (by omega) rfl ends)).cast whole.symm

theorem reads_relative {k : Nat} (text : s.rest = List.replicate (k + 1) '.' ++ (cs ++ left))
    (next : HeadOut ['.'] (cs ++ left))
    (ends : Refuses grammar (first ["...", "."]) (s.behind (List.replicate (k + 1) '.') (cs ++ left)))
    (tail : Reads (opt (each [absent "import", dottedName])) (s.behind (List.replicate (k + 1) '.') (cs ++ left)) cs left
      us) :
    Reads relativeModule s (List.replicate (k + 1) '.' ++ cs) left [.node .relativeModule none {} [] us] := by
  obtain ⟨j, m, rfl, first⟩ := reads_dots text next
  have whole : List.replicate (j + m + 1) '.' = List.replicate (j + 1) '.' ++ List.replicate m '.' := by
    rw [List.replicate_append_replicate, Nat.add_right_comm]
  have token : BeginsToken s.rest := ⟨'.', _, text, by decide⟩
  rw [whole, ← State.behind_behind _ (List.replicate m '.' ++ (cs ++ left))] at ends tail
  have more := many_dots m rfl next ends
  rw [← List.append_assoc] at first more
  have content := first.cons_of_eq rfl (more.cons_of_eq rfl tail.singleton)
  rw [whole, List.append_assoc]
  exact .node_token token (by decide) content

/-- A module is read behind blanks, and it is not that of the future. -/
structure IsModule (o : Origin) (s : State) (v read next : List Char) : Prop where
  opened : Opened s v (read ++ next)
  reads : Reads (inRole .moduleName (first [relativeModule, dottedName])) (s.behind v (read ++ next)) read next [o.tree]
  other : ∀ quotes, (Token.keyword "__future__".toList).length? quotes (read ++ next) = .none

section

variable (parted : HeadIn separators next) (word : ∀ {t : State}, t.rest = next → Ready (.word "import".toList) t)
include parted word

theorem isModule_absolute (name : IsName n) (parts : SpellsParts ns cs) (other : n ≠ "__future__".toList)
    (hv : IsBlank v) (text : s.rest = v ++ (n ++ cs ++ next)) : IsModule (.absolute n ns) s v (n ++ cs) next := by
  have opens : Opens .name (n ++ cs ++ next) := by
    rw [List.append_assoc]
    exact name.opens (parts.parted parted)
  have here : Ready .name (s.behind v (n ++ cs ++ next)) := opens.ready (w := []) rfl State.allows_nil
  have dotted := reads_dotted (w := []) (s := s.behind v (n ++ cs ++ next)) name parts .nil rfl parted (word rfl) (by decide)
  refine ⟨opens.opened text (.inl hv), .inRole (.later (here.refuses (by decide)) (.first dotted)), fun quotes => ?_⟩
  apply length_keyword_none
  rw [List.append_assoc, (name.wordAt (parts.parted parted).endsWord).1]
  exact other

omit parted word in
theorem length_points_none (k : Nat) (quotes : List Quote) :
    (Token.keyword "__future__".toList).length? quotes (List.replicate (k + 1) '.' ++ left) = .none := by
  apply length_keyword_none
  rw [List.replicate_succ, List.cons_append, wordAt_cons (by decide)]
  decide

omit parted in
theorem isModule_package (imported : ∀ {t : State}, t.rest = next → ∃ ts t', Accepts grammar "import" t ts t') (ups : Nat)
    (points : HeadOut ['.'] next) (hv : IsBlank v)
    (text : s.rest = v ++ (List.replicate (ups + 1) '.' ++ next)) :
    IsModule (.package ups) s v (List.replicate (ups + 1) '.') next := by
  obtain ⟨ts, t', accepted⟩ := imported (t := (s.behind v (List.replicate (ups + 1) '.' ++ next)).behind
    (List.replicate (ups + 1) '.') next) rfl
  have nothing : Reads relativeModule (s.behind v (List.replicate (ups + 1) '.' ++ next))
      (List.replicate (ups + 1) '.' ++ []) next _ :=
    reads_relative rfl points ((word rfl).refuses (by decide)) (.skip rfl (refuses_head (refuses_absent accepted)))
  rw [List.append_nil] at nothing
  exact ⟨⟨text, .inl hv, '.', _, rfl, by decide⟩, .inRole (.first nothing), length_points_none ups⟩

theorem isModule_relative (ups : Nat) (name : IsName n) (parts : SpellsParts ns cs) (hv : IsBlank v) (hu : IsBlank u)
    (text : s.rest = v ++ (List.replicate (ups + 1) '.' ++ (u ++ (n ++ cs)) ++ next)) :
    IsModule (.relative ups n ns) s v (List.replicate (ups + 1) '.' ++ (u ++ (n ++ cs))) next := by
  have opens : Opens .name (n ++ (cs ++ next)) := name.opens (parts.parted parted)
  have assoc : u ++ (n ++ cs) ++ next = u ++ (n ++ (cs ++ next)) := by simp
  have points : HeadOut ['.'] (u ++ (n ++ cs) ++ next) := by
    rw [assoc]
    refine headOut_filler hu.isFiller (fun c mem point => ?_) (by decide)
    obtain rfl := List.mem_singleton.mp point
    exact Calls.isName_head name '.' mem (by decide)
  refine ⟨⟨text, .inl hv, '.', _, rfl, by decide⟩, ?_, ?_⟩ <;> rw [List.append_assoc]
  · generalize isRest : State.behind s v _ = t
    have textT : t.rest = List.replicate (ups + 1) '.' ++ (u ++ (n ++ cs) ++ next) := by rw [← isRest]; rfl
    have here : Ready .name (t.behind (List.replicate (ups + 1) '.') (u ++ (n ++ cs) ++ next)) :=
      opens.ready assoc (.inl hu)
    have dotted := reads_dotted (s := t.behind (List.replicate (ups + 1) '.') (u ++ (n ++ cs) ++ next)) name parts hu
      (by simp) parted (word rfl) (by decide)
    have noImport : Accepts grammar (absent "import") (t.behind _ (u ++ (n ++ cs) ++ next)) [] _ :=
      accepts_absent (here.refuses (by decide))
    exact .inRole (.first (reads_relative textT points (here.refuses (by decide)) (.opt (.pass noImport dotted.singleton))))
  · exact length_points_none ups

end

theorem SpellsOrigin.module (origin : SpellsOrigin o cs) (text : s.rest = cs ++ ("import".toList ++ left))
    (parted : HeadIn separators left) :
    ∃ v read w, cs = v ++ (read ++ w) ∧ IsBlank w ∧ IsModule o s v read (w ++ ("import".toList ++ left)) := by
  have word {w : List Char} (blank : IsBlank w) {t : State} (text : t.rest = w ++ ("import".toList ++ left)) :
      Ready (.word "import".toList) t := (opens_word (by decide) parted).ready text (.inl blank)
  cases origin with
  | @absolute n cs v w ns other hv name parts hw =>
    exact ⟨v, n ++ cs, w, rfl, hw.1, isModule_absolute hw.parted (word hw.1) name parts other hv.1 (by simpa using text)⟩
  | @package ups v w hv hw =>
    have points : HeadOut ['.'] (w ++ ("import".toList ++ left)) :=
      headOut_filler hw.isFiller (headOut_cons (by decide)) (by decide)
    have imported {t : State} (text : t.rest = w ++ ("import".toList ++ left)) :
        ∃ ts t', Accepts grammar "import" t ts t' := by
      obtain ⟨-, ts, accepted, -⟩ := reads_word (n := "import".toList) (r := "import") (by decide) rfl parted text hw
      exact ⟨ts, _, accepted⟩
    exact ⟨v, _, w, rfl, hw, isModule_package (word hw) imported ups points hv (by simpa using text)⟩
  | @relative ups n cs v u w ns hv hu name parts hw =>
    exact ⟨v, _, w, rfl, hw.1, isModule_relative hw.parted (word hw.1) ups name parts hv hu (by simpa using text)⟩

/-! ### Statements -/

def Import.tree : Import → Tree
  | .modules i is => .node .importStatement none {} [] ((i :: is).map Item.tree)
  | .names o i is => .node .fromImport none {} [] (o.tree :: (i :: is).map Item.tree)
  | .all o => .node .fromImport none {} [] [o.tree, .node .wildcard none {} [] []]
  | .future i is => .node .futureImport none {} [] ((i :: is).map Item.tree)

theorem SpellsOrigin.parted (origin : SpellsOrigin o cs) : HeadIn separators (cs ++ left) := by
  cases origin with
  | absolute _ hv _ _ _ =>
    rw [List.append_assoc]
    exact hv.parted
  | package hv _ | relative hv _ _ _ _ =>
    rw [List.append_assoc]
    exact parted_blank hv (headIn_cons (by decide))

theorem SpellsList.parted (list : SpellsList i is cs) : HeadIn separators (cs ++ left) := by
  cases list with
  | plain hv _ _ =>
    rw [List.append_assoc]
    exact hv.parted
  | group hv _ _ _ _ _ =>
    rw [List.append_assoc]
    exact parted_blank hv (headIn_cons (by decide))

theorem reads_first_word (known : n ∈ words) (is : r = .token (.keyword n)) (parted : HeadIn separators left)
    (text : s.rest = n ++ left) : BeginsToken s.rest ∧ Ready (.word n) s ∧ Reads r s n left [] := by
  have opens : Opens (.word n) (n ++ left) := opens_word known parted
  exact ⟨text ▸ opens.beginsToken, opens.ready (w := []) text State.allows_nil, reads_word (w := []) known is parted text .nil⟩

theorem reads_glued_word (known : n ∈ words) (is : r = .token (.keyword n)) (hv : IsBlank v)
    (parted : HeadIn separators (cs ++ left)) (text : s.rest = v ++ (n ++ (cs ++ left)))
    (tail : Reads (each rs) (s.behind (v ++ n) (cs ++ left)) cs left us) :
    Reads (each (glue :: r :: rs)) s (v ++ (n ++ cs)) left us := by
  have opened : Opened s v (n ++ (cs ++ left)) := (opens_word known parted).opened text (.inl hv)
  have word : Reads r (s.behind v (n ++ (cs ++ left))) n (cs ++ left) [] := (reads_first_word known is parted rfl).2.2
  rw [← State.behind_behind _ (n ++ (cs ++ left))] at tail
  exact (Reads.glue opened).cons_of_eq (List.append_assoc _ _ _).symm (word.cons tail)

theorem SpellsOrigin.reads (origin : SpellsOrigin o cs)
    (text : s.rest = "from".toList ++ (cs ++ ("import".toList ++ (ds ++ left)))) (parted : HeadIn separators (ds ++ left))
    (tail : Reads (each [glue, first [node .wildcard "*", importedGroup, importedNames]])
      (s.behind ("from".toList ++ (cs ++ "import".toList)) (ds ++ left)) ds left us) :
    ∃ t, Accepts grammar keywordStatement s [t]
      (s.behind ("from".toList ++ (cs ++ ("import".toList ++ ds))) left) ∧ t.start = s.here ∧
      t.bare = .node .fromImport none {} [] (o.tree :: us) := by
  obtain ⟨token, here, word⟩ := reads_first_word (n := "from".toList) (r := "from") (by decide) rfl origin.parted text
  obtain ⟨v, body, w, rfl, hw, opened, module_, other⟩ := origin.module
    (s := s.behind "from".toList (cs ++ ("import".toList ++ (ds ++ left)))) rfl parted
  obtain ⟨ts, accepted, -⟩ := word.accepts
  obtain ⟨ts', accepted', -⟩ := (Reads.glue opened).accepts
  have noModules : Refuses grammar importStatement s := here.refuses (by decide)
  have atGap : Refuses grammar "__future__" _ := opened.refuses_word (n := "__future__".toList) rfl (other _)
  have atWord : Refuses grammar "__future__" _ := opened.behind.refuses_word (n := "__future__".toList) rfl (other _)
  have noFuture : Refuses grammar futureImport s :=
    refuses_node (State.lead_of_token token).1 (refuses_tail accepted (refuses_tail accepted' (refuses_head atWord)))
  have isPast : Accepts grammar (absent (each ["from", "__future__"])) s [] s :=
    accepts_absent (refuses_tail accepted (refuses_head atGap))
  generalize sameBehind : (s.behind "from".toList (v ++ (body ++ w) ++ ("import".toList ++ (ds ++ left)))).behind v
    (body ++ (w ++ ("import".toList ++ (ds ++ left)))) = t at module_
  have rest : Reads (each [glue, first [node .wildcard "*", importedGroup, importedNames]])
      ((t.behind body (w ++ ("import".toList ++ (ds ++ left)))).behind (w ++ "import".toList) (ds ++ left)) ds left us := by
    subst sameBehind
    simpa only [State.behind_behind, List.append_assoc] using tail
  have words := reads_glued_word (n := "import".toList) (r := "import") (by decide) rfl hw parted rfl rest
  have module_ := module_.cons_of_eq (by simp only [List.append_assoc]) words
  subst sameBehind
  have content := word.cons_of_eq (by simp only [List.append_assoc])
    ((Reads.glue opened).cons_of_eq (by simp only [List.append_assoc]) module_)
  obtain ⟨t, node, start, bare⟩ := content.accepts_node (k := .fromImport) token
  simp only [List.append_assoc] at node ⊢
  refine ⟨t, ?_, start, bare⟩
  exact accepts_later noModules (accepts_later noFuture (accepts_first (accepts_cons isPast (accepts_singleton node))))

theorem reads_star (hv : IsBlank v) (text : s.rest = v ++ '*' :: left) (next : HeadOut linking left) :
    Reads (each [glue, first [node .wildcard "*", importedGroup, importedNames]]) s (v ++ ['*']) left
      [.node .wildcard none {} [] []] := by
  have opens : OpensMark ['*'] (['*'] ++ left) :=
    opensMark ⟨'*', [], rfl, by decide⟩ (.inl rfl) next (fun same => absurd same (by decide)) fun same =>
      absurd same (by decide)
  have opened : Opened s v (['*'] ++ left) := Opens.opened (h := .mark ['*']) opens text (.inl hv)
  have star : Reads "*" ((s.behind v (['*'] ++ left)).behind [] (['*'] ++ left)) ['*'] left [] :=
    Reads.mark (w := []) rfl opens rfl State.allows_nil
  exact (Reads.glue opened).cons (.singleton (.first (.node (w := []) opened.behind (by decide) star)))

theorem SpellsList.reads_behind (list : SpellsList i is cs) (text : s.rest = cs ++ left) (parted : HeadIn separators left)
    (stop : Ready .stop (s.behind cs left)) :
    Reads (each [glue, first [importedGroup, importedNames]]) s cs left ((i :: is).map Item.tree) ∧
      Reads (each [glue, first [node .wildcard "*", importedGroup, importedNames]]) s cs left
        ((i :: is).map Item.tree) := by
  obtain ⟨v, ds, rfl, opened, ⟨h, mem, here⟩, read⟩ := list.reads text parted stop
  exact ⟨(Reads.glue opened).cons read.singleton,
    (Reads.glue opened).cons (.singleton (.later (here.refusesAll mem (by decide)) read))⟩

def importHeads : List Head := [.word "import".toList, .word "from".toList]

theorem SpellsImport.opens {m : Import} (spelled : SpellsImport m cs) (left : List Char) :
    ∃ h ∈ importHeads, Opens h (cs ++ left) := by
  have behind {n cs : List Char} (known : n ∈ words) (mem : Head.word n ∈ importHeads)
      (parted : HeadIn separators (cs ++ left)) : ∃ h ∈ importHeads, Opens h (n ++ cs ++ left) :=
    ⟨.word n, mem, by rw [List.append_assoc]; exact opens_word known parted⟩
  cases spelled with
  | modules hv _ _ => exact behind (by decide) (by decide) (by rw [List.append_assoc]; exact hv.parted)
  | names origin _ | all origin _ => exact behind (by decide) (by decide) (by rw [List.append_assoc]; exact origin.parted)
  | future hv _ _ => exact behind (by decide) (by decide) (by rw [List.append_assoc]; exact hv.parted)

/-- An import statement is read as one tree. -/
theorem SpellsImport.reads {m : Import} (spelled : SpellsImport m cs) (text : s.rest = cs ++ left)
    (parted : HeadIn separators left) (next : HeadOut linking left) (stop : Ready .stop (s.behind cs left)) :
    ∃ t, Accepts grammar keywordStatement s [t] (s.behind cs left) ∧ t.start = s.here ∧ t.bare = m.tree := by
  cases spelled with
  | @modules i is cs ds v hv item items =>
    have text : s.rest = "import".toList ++ (v ++ (cs ++ ds ++ left)) := by
      simpa only [List.append_assoc] using text
    obtain ⟨token, -, word⟩ := reads_first_word (n := "import".toList) (r := "import") (by decide) rfl hv.parted text
    rw [← State.behind_behind _ (v ++ (cs ++ ds ++ left))] at stop
    obtain ⟨opened, -, names⟩ := reads_plain item items hv.1 rfl parted stop
    have list := (Reads.glue opened).cons names.singleton
    obtain ⟨t, read, start, bare⟩ := (word.cons_of_eq (List.append_assoc _ _ _).symm list).accepts_node
      (k := .importStatement) token
    exact ⟨t, accepts_first read, start, bare⟩
  | @names o i is cs ds origin list =>
    have text : s.rest = "from".toList ++ (cs ++ ("import".toList ++ (ds ++ left))) := by
      simpa only [List.append_assoc] using text
    have behind : Ready .stop ((s.behind ("from".toList ++ (cs ++ "import".toList)) (ds ++ left)).behind ds left) := by
      simpa only [State.behind_behind, List.append_assoc] using stop
    have items := (list.reads_behind rfl parted behind).2
    exact origin.reads text list.parted items
  | @all o cs v origin hv =>
    have text : s.rest = "from".toList ++ (cs ++ ("import".toList ++ (v ++ ['*'] ++ left))) := by
      simpa only [List.append_assoc] using text
    have star : HeadIn separators (v ++ ['*'] ++ left) := by
      rw [List.append_assoc]
      exact parted_blank hv (headIn_cons (by decide))
    have all := reads_star (s := s.behind ("from".toList ++ (cs ++ "import".toList)) (v ++ ['*'] ++ left)) hv
      (List.append_assoc v ['*'] left) next
    exact origin.reads text star all
  | @future i is ds v w hv hw list =>
    have text : s.rest = "from".toList ++ (v ++ ("__future__".toList ++ (w ++ ("import".toList ++ (ds ++ left))))) := by
      simpa only [List.append_assoc] using text
    obtain ⟨token, here, word⟩ := reads_first_word (n := "from".toList) (r := "from") (by decide) rfl hv.parted text
    have behind : Ready .stop ((s.behind ("from".toList ++ (v ++ ("__future__".toList ++ (w ++ "import".toList))))
        (ds ++ left)).behind ds left) := by
      simpa only [State.behind_behind, List.append_assoc] using stop
    have items := (list.reads_behind rfl parted behind).1
    have later : Reads (each [glue, "import", glue, first [importedGroup, importedNames]])
        (s.behind ("from".toList ++ (v ++ "__future__".toList)) (w ++ ("import".toList ++ (ds ++ left))))
        (w ++ ("import".toList ++ ds)) left ((i :: is).map Item.tree) :=
      reads_glued_word (n := "import".toList) (by decide) rfl hw.1 list.parted rfl
        (by simpa only [State.behind_behind, List.append_assoc] using items)
    have future : Reads (each [glue, "__future__", glue, "import", glue, first [importedGroup, importedNames]])
        (s.behind "from".toList (v ++ ("__future__".toList ++ (w ++ ("import".toList ++ (ds ++ left))))))
        (v ++ ("__future__".toList ++ (w ++ ("import".toList ++ ds)))) left ((i :: is).map Item.tree) := by
      refine reads_glued_word (n := "__future__".toList) (by decide) rfl hv.1 ?_ ?_ ?_
      · rw [List.append_assoc]
        exact hw.parted
      · simp only [State.rest_behind, List.append_assoc]
      · simpa only [State.behind_behind, List.append_assoc] using later
    obtain ⟨t, read, start, bare⟩ := (word.cons_of_eq (by simp only [List.append_assoc]) future).accepts_node
      (k := .futureImport) token
    have noModules : Refuses grammar importStatement s := here.refuses (by decide)
    exact ⟨t, accepts_later noModules (accepts_first read), start, bare⟩

end Footprint.Imports
