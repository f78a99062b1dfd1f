import Footprint.Proofs.Calls.Reading

/-!
# Reading arguments and calls

The grammar reads a list of arguments in two ways, depending on whether a plain argument is first in it;
both give the same tree.
-/

namespace Footprint.Calls

open Syntax Syntax.Rule Syntax.Grammar

variable {gap : List Char → Prop} {s : State} {e : Expr} {as : Arguments} {slot : Slot} {h : Head} {n cs ds u v w left rest : List Char}

theorem Spells.operand (spelled : Spells IsFiller e cs) (admits : Admits IsFiller s) (hw : IsFiller w)
    (text : s.rest = w ++ (cs ++ left)) (parted : HeadIn separators left) (ready : Ready h (s.behind (w ++ cs) left))
    (mem : h ∈ ends) :
    Opened s w (cs ++ left) ∧ Leading followers (s.behind w (cs ++ left)) ∧
      Stands IsFiller e (s.behind w (cs ++ left)) cs left h := by
  rw [← State.behind_behind _ (cs ++ left)] at ready
  have stands : Stands IsFiller e (s.behind w (cs ++ left)) cs left h := ⟨spelled, admits.behind, rfl, parted, ready⟩
  have leading := stands.leading followers (by decide) (mem_followers mem)
  exact ⟨(leading.opened text (admits.allows w hw)).1, leading, stands⟩

theorem IsRead.signed {r : R} {m : List Char} (isRead : IsRead e) (is : r = .token (.mark m))
    (sign : m ∈ [['*'], ['*', '*'], ['=']]) (spelled : Spells IsFiller e cs) (admits : Admits IsFiller s)
    (hv : IsFiller v) (hw : IsFiller w) (text : s.rest = v ++ (m ++ (w ++ (cs ++ left))))
    (parted : HeadIn separators left) (ready : Ready h (s.behind (v ++ m ++ (w ++ cs)) left)) (mem : h ∈ ends) :
    Reads r s (v ++ m) (w ++ cs ++ left) [] ∧
      Reads (each [glue, phrase .expression]) (s.behind (v ++ m) (w ++ cs ++ left)) (w ++ cs) left [e.tree] := by
  rw [← State.behind_behind _ (w ++ cs ++ left)] at ready
  obtain ⟨opened, -, stands⟩ := spelled.operand (s := s.behind (v ++ m) (w ++ (cs ++ left))) admits.behind hw rfl
    parted ready mem
  rw [List.append_assoc w]
  constructor
  · exact Reads.mark is (opensMark_sign sign hw spelled left) text (admits.allows v hv)
  · exact (Reads.glue opened).cons (Reads.phrase (isRead stands mem)).singleton

theorem IsRead.keyword (isRead : IsRead e) (name : IsName n) (hv : IsFiller v) (hw : IsFiller w)
    (spelled : Spells IsFiller e cs) (admits : Admits IsFiller s)
    (text : s.rest = n ++ (v ++ '=' :: (w ++ cs)) ++ left) (parted : HeadIn separators left)
    (ready : Ready h (s.behind (n ++ (v ++ '=' :: (w ++ cs))) left)) (mem : h ∈ ends) :
    Reads (each [keywordStart, glue, phrase .expression]) s (n ++ (v ++ '=' :: (w ++ cs))) left
      [identifier n, e.tree] := by
  have parted' : HeadIn separators (v ++ '=' :: (w ++ cs) ++ left) := by
    have sign : HeadIn separators (v ++ '=' :: (w ++ cs ++ left)) := headIn_gap hv (by decide)
    simpa using sign
  have word : Reads (Rule.name (["not", "lambda"] ++ constantWords)) s n (v ++ '=' :: (w ++ cs) ++ left)
      [identifier n] :=
    Reads.name (w := []) _ name parted' (by simpa using text) State.allows_nil (by decide)
  obtain ⟨sign, operand⟩ := isRead.signed (r := "=") (m := ['=']) (s := s.behind n (v ++ '=' :: (w ++ cs) ++ left))
    rfl (by decide) spelled admits.behind hv hw (by simp) parted (by simpa using ready) mem
  have assoc : v ++ '=' :: (w ++ cs) ++ left = v ++ ['='] ++ (w ++ cs ++ left) := by simp
  rw [assoc] at word sign operand
  have start : Reads keywordStart s (n ++ (v ++ ['='])) (w ++ cs ++ left) [identifier n] := word.cons sign.singleton
  rw [State.behind_behind] at operand
  exact (start.cons operand).cast (by simp)

theorem IsRead.one (isRead : IsRead e) (one : SpellsOne slot e cs) (admits : Admits IsFiller s) (hw : IsFiller w)
    (text : s.rest = w ++ (cs ++ left)) (parted : HeadIn separators left)
    (ready : Ready h (s.behind (w ++ cs) left)) (mem : h ∈ ends) :
    Reads (phrase .argument) s (w ++ cs) left [slot.tree e.tree] := by
  have gap := admits.allows w hw
  cases one with
  | plain spelled =>
    obtain ⟨opened, leading, stands⟩ := spelled.operand admits hw text parted ready mem
    obtain ⟨-, h', start, here⟩ := leading.opened text gap
    obtain ⟨extras, -, lead, -⟩ := opened.lead
    have keyword : Refuses grammar (node .keywordArgument (each [keywordStart, glue, phrase .expression])) s :=
      refuses_node lead (refuses_head (leading.refuses_word (w := []) rfl State.allows_nil (by decide)
        (by decide)))
    have noGroup : Refuses grammar placedSplatGroup s := refuses_head (leading.refuses_splatGroup text gap)
    refine .phrase (.later (here.refusesAll start (by decide)) ?_)
    refine .later (here.refusesAll start (by decide)) (.later keyword (.later noGroup ?_))
    exact .first (.pass (here.passesAll start (by decide)) (.singleton (isRead.behind opened stands mem)))
  | @splat _ cs w' _ hw' spelled =>
    have opens : OpensMark ['*'] ('*' :: (w' ++ cs) ++ left) := by
      simpa using opensMark_sign (m := ['*']) (by decide) hw' spelled left
    rw [← State.behind_behind _ ('*' :: (w' ++ cs) ++ left)] at ready
    obtain ⟨star, operand⟩ := isRead.signed (r := "*") (s := s.behind w ('*' :: (w' ++ cs) ++ left)) (v := [])
      (m := ['*']) rfl (by decide) spelled admits.behind .nil hw' (by simp) parted ready mem
    have opened : Opened s w ('*' :: (w' ++ cs) ++ left) := Opens.opened (h := .mark ['*']) opens text gap
    exact .phrase (.first (.node opened (by decide) (star.cons operand)))
  | @doubleSplat _ cs w' _ hw' spelled =>
    have opens : OpensMark ['*', '*'] ('*' :: '*' :: (w' ++ cs) ++ left) := by
      simpa using opensMark_sign (m := ['*', '*']) (by decide) hw' spelled left
    rw [← State.behind_behind _ ('*' :: '*' :: (w' ++ cs) ++ left)] at ready
    obtain ⟨stars, operand⟩ := isRead.signed (r := "**") (s := s.behind w ('*' :: '*' :: (w' ++ cs) ++ left))
      (v := []) (m := ['*', '*']) rfl (by decide) spelled admits.behind .nil hw' (by simp) parted ready mem
    have opened : Opened s w ('*' :: '*' :: (w' ++ cs) ++ left) :=
      Opens.opened (h := .mark ['*', '*']) opens text gap
    have single : Refuses grammar listSplat s :=
      (Opens.ready (h := .mark ['*', '*']) opens text gap).refuses (by decide)
    exact .phrase (.later single (.first (.node opened (by decide) (stars.cons operand))))
  | @keyword _ n cs v w' name hv hw' spelled =>
    have text : s.rest = w ++ (n ++ (v ++ '=' :: (w' ++ cs)) ++ left) := text
    have parted' : HeadIn separators (v ++ '=' :: (w' ++ cs) ++ left) := by
      have sign : HeadIn separators (v ++ '=' :: (w' ++ cs ++ left)) := headIn_gap hv (by decide)
      simpa using sign
    have opens : Opens .name (n ++ (v ++ '=' :: (w' ++ cs)) ++ left) := by
      rw [List.append_assoc n]
      exact name.opens parted'
    have here := opens.ready text gap
    rw [← State.behind_behind _ (n ++ (v ++ '=' :: (w' ++ cs)) ++ left)] at ready
    have pair := isRead.keyword name hv hw' spelled admits.behind rfl parted ready mem
    refine .phrase (.later (here.refuses (by decide)) (.later (here.refuses (by decide)) (.first ?_)))
    exact .node (opens.opened text gap) (by decide) pair

/-! ### Lists of arguments -/

def Arguments.AllRead : Arguments → Prop
  | .nil => True
  | .cons _ e as => IsRead e ∧ as.AllRead

theorem SpellsMore.follow (more : SpellsMore as ds) (hw : IsFiller w) (admits : Admits IsFiller s)
    (text : s.rest = ds ++ (w ++ ')' :: left)) :
    HeadIn separators (ds ++ (w ++ ')' :: left)) ∧ ∃ h ∈ ends, Ready h s := by
  cases more with
  | nil =>
    refine ⟨headIn_gap hw (by decide), .mark [')'], by decide, ?_⟩
    exact Opens.ready (h := .mark [')']) (opensMark_close left) text (admits.allows w hw)
  | @cons _ _ _ cs ds v w' hv _ _ _ =>
    rw [List.append_assoc, List.cons_append] at text ⊢
    refine ⟨headIn_gap hv (by decide), .mark [','], by decide, ?_⟩
    exact Opens.ready (h := .mark [',']) (opensMark_comma _) text (admits.allows v hv)

theorem IsRead.before (isRead : IsRead e) (one : SpellsOne slot e cs) (more : SpellsMore as ds) (hv : IsFiller v)
    (hw : IsFiller w) (admits : Admits IsFiller s) (text : s.rest = v ++ (cs ++ (ds ++ (w ++ ')' :: left)))) :
    Reads (phrase .argument) s (v ++ cs) (ds ++ (w ++ ')' :: left)) [slot.tree e.tree] := by
  obtain ⟨parted, h, mem, ready⟩ := more.follow (s := s.behind (v ++ cs) (ds ++ (w ++ ')' :: left))) hw admits.behind rfl
  exact isRead.one one admits hv text parted ready mem

theorem reads_more (hw : IsFiller w) : ∀ (as : Arguments) {s : State} {ds : List Char}, as.AllRead →
    SpellsMore as ds → Admits IsFiller s → s.rest = ds ++ (w ++ ')' :: left) →
    Reads (many (each [",", phrase .argument])) s ds (w ++ ')' :: left) as.trees
  | .nil, s, _, _, more, admits, text => by
    cases more with
    | nil =>
      have ready : Ready (.mark [')']) s :=
        Opens.ready (h := .mark [')']) (opensMark_close left) text (admits.allows w hw)
      exact .many_end text (ready.refuses (by decide))
  | .cons slot e as, s, _, allRead, more, admits, text => by
    cases more with
    | @cons _ _ _ cs ds v w' hv hw' one more =>
      have assoc : w' ++ (cs ++ ds) ++ (w ++ ')' :: left) = w' ++ cs ++ (ds ++ (w ++ ')' :: left)) := by simp
      have comma : Reads "," s (v ++ [',']) (w' ++ cs ++ (ds ++ (w ++ ')' :: left))) [] :=
        reads_comma (by simpa using text) (admits.allows v hv)
      have argument : Reads (phrase .argument) (s.behind (v ++ [',']) (w' ++ cs ++ (ds ++ (w ++ ')' :: left))))
          (w' ++ cs) (ds ++ (w ++ ')' :: left)) [slot.tree e.tree] :=
        IsRead.before allRead.1 one more hw' hw admits.behind (by simp)
      have further := reads_more hw as (s := s.behind (v ++ [','] ++ (w' ++ cs)) (ds ++ (w ++ ')' :: left))) allRead.2
        more admits.behind rfl
      exact (Reads.many_cons (comma.cons argument.singleton) further).cast (by simp)

theorem reads_end (admits : Admits IsFiller s) (hw : IsFiller w) (text : s.rest = w ++ ')' :: left) :
    Reads (each [maybeComma, ")"]) s (w ++ [')']) left [] := by
  have ready : Ready (.mark [')']) s :=
    Opens.ready (h := .mark [')']) (opensMark_close left) text (admits.allows w hw)
  have noComma : Accepts grammar maybeComma s [] s := accepts_later (ready.refuses (by decide)) (accepts_first accepts_nil)
  exact .pass noComma (reads_close text (admits.allows w hw)).singleton

/-- The rest of a list of arguments, with its closing parenthesis. -/
theorem reads_rest (allRead : as.AllRead) (more : SpellsMore as ds) (hw : IsFiller w) (admits : Admits gap s)
    (text : s.rest = ds ++ (w ++ ')' :: left)) :
    Reads (moreElements (phrase .argument) ")") s (ds ++ (w ++ [')'])) left as.trees := by
  have assoc : w ++ ')' :: left = w ++ [')'] ++ left := by simp
  have further := reads_more hw as (s := { s with region := .free }) allRead more admits.free text
  have tail := reads_end (s := { s with region := .free }.behind ds (w ++ ')' :: left)) admits.free.behind hw rfl
  rw [assoc] at further tail
  rw [← List.append_nil as.trees]
  exact .within (further.cons tail)

/-! ### Calls -/

theorem IsRead.first (isRead : IsRead e) (spelled : Spells IsFiller e cs) (more : SpellsMore as ds)
    (admits : Admits gap s) (hv : IsFiller v) (hw : IsFiller w)
    (text : s.rest = '(' :: (v ++ (cs ++ (ds ++ (w ++ ')' :: left))))) :
    Reads (each ["(", absent argumentStart, within .free (phrase .expression)]) s ('(' :: (v ++ cs))
      (ds ++ (w ++ ')' :: left)) [e.tree] := by
  have bracket : Reads "(" s ['('] (v ++ cs ++ (ds ++ (w ++ ')' :: left))) [] :=
    reads_open (w := []) (by simpa using text) State.allows_nil
  have inside := (admits.behind (s := s) : Admits gap (s.behind ['('] (v ++ (cs ++ (ds ++ (w ++ ')' :: left))))))
  obtain ⟨parted, h, mem, ready⟩ := more.follow
    (s := { s.behind ['('] (v ++ (cs ++ (ds ++ (w ++ ')' :: left)))) with region := .free }.behind (v ++ cs)
      (ds ++ (w ++ ')' :: left))) hw inside.free.behind rfl
  obtain ⟨opened, leading, stands⟩ := spelled.operand inside.free hv rfl parted ready mem
  have start := accepts_absent (leading.refuses_argumentStart inside hv rfl)
  have expression := isRead.behind opened stands mem
  rw [← List.append_assoc] at start expression
  exact bracket.cons (.pass start (.singleton (.within expression)))

theorem IsRead.arguments (isRead : IsRead e) (allRead : as.AllRead) (spelled : Spells IsFiller e cs)
    (more : SpellsMore as ds) (admits : Admits gap s) (hu : gap u) (hv : IsFiller v) (hw : IsFiller w)
    (text : s.rest = u ++ ('(' :: (v ++ cs) ++ (ds ++ (w ++ [')']) ++ left))) :
    Reads (grammar .arguments) s (u ++ ('(' :: (v ++ cs) ++ (ds ++ (w ++ [')'])))) left
      [.node .argumentList none {} [] (e.tree :: as.trees)] := by
  have opened : Opened s u ('(' :: (v ++ cs) ++ (ds ++ (w ++ [')']) ++ left)) :=
    Opens.opened (h := .mark ['(']) (opensMark_open _) text (admits.allows u hu)
  have assoc : ds ++ (w ++ [')']) ++ left = ds ++ (w ++ ')' :: left) := by simp
  have content : '(' :: (v ++ cs) ++ (ds ++ (w ++ [')']) ++ left) = '(' :: (v ++ (cs ++ (ds ++ (w ++ ')' :: left)))) := by
    simp
  have front := isRead.first (s := s.behind u ('(' :: (v ++ cs) ++ (ds ++ (w ++ [')']) ++ left))) spelled more
    admits.behind hv hw content
  have rest := reads_rest (s := s.behind (u ++ '(' :: (v ++ cs)) (ds ++ (w ++ ')' :: left))) allRead more hw
    admits.behind rfl
  obtain ⟨-, h, mem, ready⟩ := more.follow
    (s := { s.behind (u ++ '(' :: (v ++ cs)) (ds ++ (w ++ ')' :: left)) with region := .free }) hw admits.behind.free rfl
  have noClauses : Refuses grammar (bracketed [phrase .clauses] ")")
      (s.behind (u ++ '(' :: (v ++ cs)) (ds ++ (w ++ ')' :: left))) :=
    refuses_within (refuses_head (ready.refusesAll mem (by decide)))
  rw [← assoc] at front rest noClauses
  refine .first (.choose [(.comprehension, bracketed [phrase .clauses] ")")] opened (by decide) rfl front ?_ rest)
  intro r inRules
  obtain rfl := List.mem_singleton.mp inRules
  exact noClauses

/-- A list that is empty or has a sign before its first argument begins as no expression does. -/
theorem SpellsAll.argumentStart (all : SpellsAll as ds) (signed : ∀ e bs, as ≠ .cons .plain e bs) (admits : Admits gap s)
    (hw : IsFiller w) (text : s.rest = ds ++ (w ++ ')' :: left)) :
    ∃ ts t, Accepts grammar argumentStart s ts t := by
  have free := admits.free
  cases all with
  | nil =>
    obtain ⟨-, ts, accepted, -⟩ := reads_close (s := { s with region := .free }) text (free.allows w hw)
    exact ⟨ts, _, accepts_within (accepts_first accepted)⟩
  | @cons slot e as cs ds v hv one more =>
    have gap := free.allows v hv
    cases one with
    | plain => exact absurd rfl (signed e as)
    | @splat _ cs w' _ hw' spelled =>
      have opens := opensMark_sign (m := ['*']) (by decide) hw' spelled (ds ++ (w ++ ')' :: left))
      have text : s.rest = v ++ (['*'] ++ (w' ++ (cs ++ (ds ++ (w ++ ')' :: left))))) := by simpa using text
      have here := Opens.ready (s := { s with region := .free }) (h := .mark ['*']) opens text gap
      obtain ⟨-, ts, accepted, -⟩ := Reads.mark (r := "*") (s := { s with region := .free }) (m := ['*']) rfl opens text
        gap
      exact ⟨ts, _, accepts_within (accepts_later (here.refuses (by decide))
        (accepts_later (here.refuses (by decide)) (accepts_first accepted)))⟩
    | @doubleSplat _ cs w' _ hw' spelled =>
      have opens := opensMark_sign (m := ['*', '*']) (by decide) hw' spelled (ds ++ (w ++ ')' :: left))
      have text : s.rest = v ++ (['*', '*'] ++ (w' ++ (cs ++ (ds ++ (w ++ ')' :: left))))) := by simpa using text
      have here := Opens.ready (s := { s with region := .free }) (h := .mark ['*', '*']) opens text gap
      obtain ⟨-, ts, accepted, -⟩ := Reads.mark (r := "**") (s := { s with region := .free }) (m := ['*', '*']) rfl
        opens text gap
      exact ⟨ts, _, accepts_within (accepts_later (here.refuses (by decide))
        (accepts_later (here.refuses (by decide)) (accepts_later (here.refuses (by decide))
        (accepts_first accepted))))⟩
    | @keyword _ n cs v' w' name hv' hw' spelled =>
      have opens := opensMark_sign (m := ['=']) (by decide) hw' spelled (ds ++ (w ++ ')' :: left))
      have text : s.rest = v ++ (n ++ (v' ++ (['='] ++ (w' ++ (cs ++ (ds ++ (w ++ ')' :: left))))))) := by
        simpa using text
      have parted : HeadIn separators (v' ++ '=' :: (w' ++ (cs ++ (ds ++ (w ++ ')' :: left))))) :=
        headIn_gap hv' (by decide)
      have here := (name.opens parted).ready (s := { s with region := .free }) text gap
      have word := Reads.name (s := { s with region := .free }) (["not", "lambda"] ++ constantWords) name parted text gap
        (by decide)
      have sign := Reads.mark (r := "=") (m := ['='])
        (s := { s with region := .free }.behind (v ++ n) (v' ++ (['='] ++ (w' ++ (cs ++ (ds ++ (w ++ ')' :: left)))))))
        rfl opens rfl (free.behind.allows v' hv')
      obtain ⟨ts, accepted, -⟩ := word.accepts
      obtain ⟨ts', accepted', -⟩ := sign.accepts
      have start := accepts_cons accepted (accepts_singleton accepted')
      have chosen : Accepts grammar (Rule.first [")", ",", "*", "**", keywordStart, each ["(", many "(", "*"]])
          { s with region := .free } _ _ :=
        accepts_later (here.refuses (by decide)) (accepts_later (here.refuses (by decide))
          (accepts_later (here.refuses (by decide)) (accepts_later (here.refuses (by decide))
            (accepts_first start))))
      exact ⟨_, _, accepts_within chosen⟩

theorem reads_all (all : SpellsAll as ds) (allRead : as.AllRead) (admits : Admits IsFiller s) (hw : IsFiller w)
    (text : s.rest = ds ++ (w ++ ')' :: left)) :
    Reads (opt (sep "," (phrase .argument))) s ds (w ++ ')' :: left) as.trees := by
  cases all with
  | nil =>
    have ready : Ready (.mark [')']) s :=
      Opens.ready (h := .mark [')']) (opensMark_close left) text (admits.allows w hw)
    exact .skip text (ready.refuses (by decide))
  | @cons slot e as cs ds v hv one more =>
    have text : s.rest = v ++ cs ++ (ds ++ (w ++ ')' :: left)) := by simpa using text
    have argument := IsRead.before allRead.1 one more hv hw admits (by rw [text, List.append_assoc])
    have further := reads_more hw as (s := s.behind (v ++ cs) (ds ++ (w ++ ')' :: left))) allRead.2 more
      admits.behind rfl
    exact .opt ((argument.cons further.singleton).cast (List.append_assoc v cs ds))

theorem reads_argumentList (all : SpellsAll as ds) (allRead : as.AllRead) (admits : Admits gap s) (hu : gap u)
    (hw : IsFiller w) (text : s.rest = u ++ ('(' :: (ds ++ (w ++ [')'])) ++ left)) :
    Reads argumentList s (u ++ '(' :: (ds ++ (w ++ [')']))) left [.node .argumentList none {} [] as.trees] := by
  have opened : Opened s u ('(' :: (ds ++ (w ++ [')'])) ++ left) :=
    Opens.opened (h := .mark ['(']) (opensMark_open _) text (admits.allows u hu)
  have bracket : Reads "(" (s.behind u ('(' :: (ds ++ (w ++ [')'])) ++ left)) ['('] (ds ++ (w ++ [')']) ++ left) [] :=
    reads_open (w := []) rfl State.allows_nil
  have inside : Admits IsFiller
      { (s.behind u ('(' :: (ds ++ (w ++ [')'])) ++ left)).behind ['('] (ds ++ (w ++ [')']) ++ left) with
        region := .free } := admits.behind.behind.free
  have assoc : ds ++ (w ++ [')']) ++ left = ds ++ (w ++ ')' :: left) := by simp
  have assoc' : w ++ [')'] ++ left = w ++ ')' :: left := by simp
  have arguments := reads_all all allRead inside hw assoc
  have closing := reads_end (s := State.behind _ ds (w ++ ')' :: left)) inside.behind hw rfl
  rw [← assoc'] at arguments closing
  have content := arguments.cons closing
  rw [List.append_nil] at content
  exact .node opened (by decide) (bracket.cons (Reads.within content).singleton)

/-- Arguments are read as a list of their trees. -/
theorem reads_arguments (all : SpellsAll as ds) (allRead : as.AllRead) (admits : Admits gap s) (hu : gap u)
    (hw : IsFiller w) (text : s.rest = u ++ ('(' :: (ds ++ (w ++ [')'])) ++ left)) :
    Reads (phrase .arguments) s (u ++ '(' :: (ds ++ (w ++ [')']))) left [.node .argumentList none {} [] as.trees] := by
  have whole : s.rest = u ++ '(' :: (ds ++ (w ++ ')' :: left)) := by simpa using text
  obtain ⟨-, ts, bracket, -⟩ := reads_open whole (admits.allows u hu)
  by_cases plain : ∃ e bs, as = .cons .plain e bs
  · obtain ⟨e, bs, rfl⟩ := plain
    cases all with
    | @cons _ _ _ cs ds v hv one more =>
      cases one with
      | plain spelled =>
        have read := IsRead.arguments allRead.1 allRead.2 spelled more admits hu hv hw (by simpa using text)
        exact .phrase (read.cast (by simp))
  · have signed : ∀ e bs, as ≠ .cons .plain e bs := fun e bs same => plain ⟨e, bs, same⟩
    obtain ⟨ts', t, start⟩ := all.argumentStart (s := s.behind (u ++ ['(']) (ds ++ (w ++ ')' :: left))) signed
      admits.behind hw rfl
    have opened : Opened s u ('(' :: (ds ++ (w ++ ')' :: left))) :=
      Opens.opened (h := .mark ['(']) (opensMark_open _) whole (admits.allows u hu)
    obtain ⟨extras, -, lead, -⟩ := opened.lead
    obtain ⟨-, ts'', bracket', -⟩ := reads_open (s := s.behind u ('(' :: (ds ++ (w ++ ')' :: left)))) (w := []) rfl
      State.allows_nil
    rw [State.behind_behind] at bracket'
    have isAhead : Accepts grammar (ahead (each ["(", argumentStart])) s [] s :=
      accepts_ahead (accepts_cons bracket (accepts_singleton start))
    have list := reads_argumentList all allRead admits hu hw text
    exact .phrase (.later (refuses_choose lead (refuses_tail bracket' (refuses_head (refuses_absent start))))
      (.first (.pass isAhead list.singleton)))

theorem runs_call (runs : Runs e) (allRead : as.AllRead) : Runs (.call e as) := by
  intro gap s cs left h _ stands mem
  cases stands.spelled with
  | @call _ _ _ cs ds v w primary _ spelled hv all hw =>
    have text : s.rest = cs ++ (v ++ ('(' :: (ds ++ (w ++ [')'])) ++ left)) := by simpa using stands.text
    have admits := stands.admits
    have point : Ready (.mark ['(']) (s.behind cs (v ++ ('(' :: (ds ++ (w ++ [')'])) ++ left))) :=
      Opens.ready (opensMark_open _) rfl (admits.behind.allows v hv)
    have base : Stands gap e s cs (v ++ ('(' :: (ds ++ (w ++ [')'])) ++ left)) (.mark ['(']) :=
      ⟨spelled, admits, text, headIn_gap (admits.isFiller hv) (by decide), point⟩
    obtain ⟨first, t, ts, atom, bare, grows⟩ := runs primary base (by decide)
    have arguments := reads_arguments (s := s.behind cs (v ++ ('(' :: (ds ++ (w ++ [')'])) ++ left))) all allRead
      admits.behind hv hw rfl
    obtain ⟨-, us, accepted, bareStep⟩ : Reads (.inRole .arguments _) _ _ _ _ := Reads.inRole arguments
    rw [State.behind_behind] at accepted
    have noMember : RefuseAll grammar (s.behind cs (v ++ ('(' :: (ds ++ (w ++ [')'])) ++ left)))
        ([memberStep].map (·.2.2)) := fun r inSteps => by
      obtain rfl := List.mem_singleton.mp inSteps
      exact point.refuses (by decide)
    refine ⟨first, t, [.node .call none s.here [] (Tree.assign .callee ts ++ us)], atom, ?_, fun us' u further => ?_⟩
    · rw [Tree.bares_node (by decide), Tree.bares_append, Tree.bares_assign, bare, bareStep,
        Tree.assign_singleton e.tree_not_extra]
      rfl
    · exact grows us' u (grows_step [memberStep] noMember accepted further)

/-! ### All expressions -/

theorem isRead_of_runs (runs : Runs e) : IsRead e := by
  cases e with
  | integer ds => exact isRead_integer ds
  | _ => exact Runs.isRead runs trivial

mutual

theorem Expr.runs : ∀ e : Expr, Runs e
  | .name n => runs_name n
  | .text l => runs_text l
  | .integer _ => fun primary => primary.elim
  | .member e n => runs_member e.runs n
  | .call e as => runs_call e.runs as.allRead
  | .group e => runs_group (isRead_of_runs e.runs)

theorem Arguments.allRead : ∀ as : Arguments, as.AllRead
  | .nil => trivial
  | .cons _ e as => ⟨isRead_of_runs e.runs, as.allRead⟩

end

/-- Every expression is read as its tree. -/
theorem Expr.isRead (e : Expr) : IsRead e := isRead_of_runs e.runs

end Footprint.Calls
