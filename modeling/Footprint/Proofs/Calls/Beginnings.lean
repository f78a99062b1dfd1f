import Footprint.Proofs.Calls.Language
import Footprint.Proofs.Syntax.Reads

/-!
# How expressions begin

An expression begins with a name, a literal or a parenthesis, and many rules of the grammar try that
beginning before the right one reads it: as the name of a keyword argument, as a target of an assignment,
as a splat in parentheses. They fail, since behind the name stands no sign of theirs, and within the
parentheses an expression begins again.
-/

namespace Footprint.Calls

open Syntax Syntax.Rule Syntax.Grammar

/-- What may go on with a primary. -/
def links : List Head := [.mark ['.'], .mark ['(']]

def ends : List Head := [.stop, .mark [')'], .mark [','], .mark [':']]

/-- What may stand behind a primary. -/
def followers : List Head := links ++ ends

def starts : List Head := [.name, .quote, .digit, .mark ['(']]

/-- A state of no suite where these gaps may stand before tokens. -/
structure Admits (gap : List Char → Prop) (s : State) : Prop where
  top : s.suites = []
  allows : ∀ w, gap w → s.Allows w

variable {gap : List Char → Prop} {s : State} {e : Expr} {as : Arguments} {slot : Slot} {h : Head} {hs : List Head}
  {n cs ds v w left read rest : List Char} {l : Literal}

theorem Admits.behind (admits : Admits gap s) : Admits gap (s.behind read rest) := ⟨admits.top, admits.allows⟩

theorem Admits.free (admits : Admits gap s) : Admits IsFiller { s with region := .free } :=
  ⟨admits.top, fun _ filler => .inr ⟨filler, rfl, admits.top⟩⟩

theorem Admits.isFiller (admits : Admits gap s) (h : gap w) : IsFiller w := (admits.allows w h).isFiller

/-! ### First characters -/

theorem opensMark_open (left : List Char) : OpensMark ['('] ('(' :: left) :=
  opensMark_lone (by decide) left fun same => absurd same (by decide)

theorem opensMark_close (left : List Char) : OpensMark [')'] (')' :: left) :=
  opensMark_lone (by decide) left fun same => absurd same (by decide)

theorem opensMark_comma (left : List Char) : OpensMark [','] (',' :: left) :=
  opensMark_lone (by decide) left fun same => absurd same (by decide)

theorem isName_head (name : IsName n) : HeadOut (linking ++ "0123456789".toList) (n ++ left) := by
  obtain ⟨c, ds, rfl, start⟩ := name.start
  refine headOut_cons fun mem => ?_
  have known : ∀ c ∈ linking ++ "0123456789".toList, (c.isAlpha || c == '_') = false := by decide
  rw [known c mem] at start
  cases start

theorem isProper_head (proper : l.IsProper) : HeadOut linking (l.token ++ left) := by
  obtain ⟨ds, same, -⟩ := Literal.IsProper.token_append (l := l) left
  have known : ∀ p ∈ [[], ['r'], ['R']], ∀ m ∈ ['\'', '"'], ∀ c ∈ (p ++ [m]).head?, c ∉ linking := by decide
  have mark : l.mark ∈ ['\'', '"'] := by simpa using proper.mark
  have head := known _ proper.letters _ mark
  rw [same]
  intro c mem
  refine head c ?_
  cases hl : l.letters with
  | nil => rwa [hl] at mem
  | cons a p => rwa [hl] at mem

theorem isInteger_head (integer : IsInteger ds) : HeadOut linking (ds ++ left) := by
  obtain ⟨d, ds, rfl, digit⟩ := integer.start
  exact headOut_cons (Text.forall_isDigit (p := fun d => d ∉ linking) (by decide) digit)

/-- No mark goes on into an expression. -/
theorem Spells.head : ∀ (e : Expr) {cs : List Char}, Spells gap e cs → ∀ left, HeadOut linking (cs ++ left)
  | .name _, _, spelled, left => by
    cases spelled with
    | name name => exact fun c mem link => isName_head name c mem (List.mem_append_left _ link)
  | .text _, _, spelled, left => by
    cases spelled with
    | text proper => exact isProper_head proper
  | .integer _, _, spelled, left => by
    cases spelled with
    | integer integer => exact isInteger_head integer
  | .member e _, _, spelled, left => by
    cases spelled with
    | member _ _ base _ _ =>
      rw [List.append_assoc]
      exact Spells.head e base _
  | .call e _, _, spelled, left => by
    cases spelled with
    | call _ _ base _ _ _ =>
      rw [List.append_assoc]
      exact Spells.head e base _
  | .group _, _, spelled, left => by
    cases spelled with
    | group _ _ _ => exact headOut_cons (by decide)

theorem opensMark_point (filler : IsFiller w) (name : IsName n) (left : List Char) :
    OpensMark ['.'] ('.' :: (w ++ (n ++ left))) := by
  have head : HeadOut (linking ++ "0123456789".toList) (w ++ (n ++ left)) :=
    headOut_filler filler (isName_head name) (by decide)
  refine opensMark (m := ['.']) ⟨'.', [], rfl, by decide⟩ (.inl rfl) ?_ ?_ fun _ => rfl
  · exact fun c mem link => head c mem (List.mem_append_left _ link)
  · intro _ d mem
    refine Bool.eq_false_iff.mpr fun digit => head d mem (List.mem_append_right _ ?_)
    exact Text.forall_isDigit (p := fun d => d ∈ "0123456789".toList) (by decide) digit

theorem opensMark_sign {m : List Char} (sign : m ∈ [['*'], ['*', '*'], ['=']]) (filler : IsFiller w)
    (spelled : Spells IsFiller e cs) (left : List Char) : OpensMark m (m ++ (w ++ (cs ++ left))) := by
  have head : HeadOut linking (w ++ (cs ++ left)) := headOut_filler filler (Spells.head e spelled left) (by decide)
  have known : ∀ m ∈ [['*'], ['*', '*'], ['=']], (∃ c ∈ m.head?, c ∈ markCharacters ∧ c ≠ '.') ∧
      (m.length = 1 ∨ m ∈ longMarks) := by decide
  obtain ⟨⟨c, isHead, mem, noPoint⟩, isKnown⟩ := known m sign
  obtain ⟨ds, rfl⟩ : ∃ ds, m = c :: ds := by
    cases m with
    | nil => cases isHead
    | cons d ds => exact ⟨ds, by rw [Option.mem_some.mp isHead]⟩
  refine opensMark ⟨c, ds, rfl, mem⟩ isKnown head (fun same => ?_) fun same => ?_
  · exact absurd (List.cons.inj same).1 noPoint
  · exact absurd (Option.some.inj same) noPoint

theorem reads_open (text : s.rest = w ++ '(' :: left) (gap : s.Allows w) : Reads "(" s (w ++ ['(']) left [] :=
  Reads.mark (m := ['(']) rfl (opensMark_open left) text gap

theorem reads_close (text : s.rest = w ++ ')' :: left) (gap : s.Allows w) : Reads ")" s (w ++ [')']) left [] :=
  Reads.mark (m := [')']) rfl (opensMark_close left) text gap

theorem reads_comma (text : s.rest = w ++ ',' :: left) (gap : s.Allows w) : Reads "," s (w ++ [',']) left [] :=
  Reads.mark (m := [',']) rfl (opensMark_comma left) text gap

/-! ### The first part of an expression -/

/-- A state before the first part of an expression, behind which one of these tokens comes next. -/
inductive Leading (hs : List Head) : State → Prop
  | name {s : State} {n left : List Char} {h : Head} : IsName n → s.rest = n ++ left → HeadIn separators left →
    Ready h (s.behind n left) → h ∈ hs → Leading hs s
  | text {s : State} {l : Literal} {left : List Char} : l.IsProper → s.rest = l.token ++ left → Leading hs s
  | integer {s : State} {ds left : List Char} : IsInteger ds → s.rest = ds ++ left → Leading hs s
  | group {s : State} {e : Expr} {cs v w left : List Char} {h : Head} : s.suites = [] → IsFiller v →
    Spells IsFiller e cs → IsFiller w → s.rest = '(' :: (v ++ (cs ++ (w ++ ')' :: left))) →
    Ready h (s.behind ('(' :: (v ++ (cs ++ (w ++ [')'])))) left) → h ∈ hs → Leading hs s

theorem Leading.ready (leading : Leading hs s) : ∃ h ∈ starts, Opens h s.rest := by
  cases leading with
  | name name text parted _ _ => exact ⟨.name, by decide, text ▸ name.opens parted⟩
  | text proper text => exact ⟨.quote, by decide, text ▸ proper.opens _⟩
  | integer integer text => exact ⟨.digit, by decide, text ▸ integer.opens⟩
  | group _ _ _ _ text _ _ => exact ⟨.mark ['('], by decide, text ▸ opensMark_open _⟩

theorem Leading.opened (leading : Leading hs (s.behind w rest)) (text : s.rest = w ++ rest) (gap : s.Allows w) :
    Opened s w rest ∧ ∃ h ∈ starts, Ready h s := by
  obtain ⟨h, mem, opens⟩ := leading.ready
  exact ⟨opens.opened text gap, h, mem, opens.ready text gap⟩

theorem headIn_gap (filler : IsFiller w) {c : Char} (h : c ∈ separators) : HeadIn separators (w ++ c :: left) :=
  headIn_filler filler (headIn_cons h) (by decide)

theorem Spells.leading (hs : List Head) : ∀ (e : Expr) {cs left : List Char} {h : Head}, Spells gap e cs → Admits gap s →
    s.rest = cs ++ left → HeadIn separators left → Ready h (s.behind cs left) → (∀ l ∈ links, l ∈ hs) → h ∈ hs →
    Leading hs s
  | .name _, _, _, _, spelled, _, isText, parted, ready, _, mem => by
    cases spelled with
    | name name => exact .name name isText parted ready mem
  | .text _, _, _, _, spelled, _, isText, _, _, _, _ => by
    cases spelled with
    | text proper => exact .text proper isText
  | .integer _, _, _, _, spelled, _, isText, _, _, _, _ => by
    cases spelled with
    | integer integer => exact .integer integer isText
  | .member e _, _, _, _, spelled, admits, isText, _, _, sub, _ => by
    cases spelled with
    | @member _ _ n cs v w _ name base hv hw =>
      rw [List.append_assoc, List.append_assoc, List.cons_append, List.append_assoc] at isText
      refine Spells.leading hs e base admits isText (headIn_gap (admits.isFiller hv) (by decide)) ?_ sub
        (sub (.mark ['.']) (by decide))
      exact Opens.ready (h := .mark ['.']) (opensMark_point (admits.isFiller hw) name _) rfl
        (admits.behind.allows v hv)
  | .call e _, _, _, _, spelled, admits, isText, _, _, sub, _ => by
    cases spelled with
    | @call _ _ _ cs ds v w _ _ base hv _ _ =>
      rw [List.append_assoc, List.append_assoc, List.cons_append] at isText
      refine Spells.leading hs e base admits isText (headIn_gap (admits.isFiller hv) (by decide)) ?_ sub
        (sub (.mark ['(']) (by decide))
      exact Opens.ready (h := .mark ['(']) (opensMark_open _) rfl (admits.behind.allows v hv)
  | .group _, _, _, _, spelled, admits, isText, _, ready, _, mem => by
    cases spelled with
    | group hv inner hw => exact .group admits.top hv inner hw (by simpa using isText) ready mem

/-- Within the parentheses an expression begins again, up to the closing one. -/
theorem Leading.enter {t : State} {left : List Char} (admits : Admits IsFiller t) (hv : IsFiller v)
    (spelled : Spells IsFiller e cs) (hw : IsFiller w) (text : t.rest = v ++ (cs ++ (w ++ ')' :: left))) :
    Leading followers (t.behind v (cs ++ (w ++ ')' :: left))) ∧
      Opened t v (cs ++ (w ++ ')' :: left)) ∧ ∃ h ∈ starts, Ready h t := by
  have closing : Ready (.mark [')']) ((t.behind v (cs ++ (w ++ ')' :: left))).behind cs (w ++ ')' :: left)) :=
    Opens.ready (h := .mark [')']) (opensMark_close left) rfl (admits.behind.behind.allows w hw)
  have leading := Spells.leading followers e spelled admits.behind rfl (headIn_gap hw (by decide)) closing
    (by decide) (by decide)
  exact ⟨leading, leading.opened text (admits.allows v hv)⟩

/-! ### What the beginning is not taken for -/

/-- A name with a sign behind it is not read where the sign is none that may stand there. -/
theorem Leading.refuses_word {except : List String} {r : R} {rs : List R} (leading : Leading hs (s.behind w rest))
    (text : s.rest = w ++ rest) (gap : s.Allows w) (sub : ∀ w ∈ except.map String.toList, w ∈ reservedWords)
    (told : ∀ h ∈ .quote :: hs, h.forecast r = some false) :
    Refuses grammar (.each (Rule.name except :: r :: rs)) s := by
  obtain ⟨opened, -⟩ := leading.opened text gap
  cases leading with
  | @name n left h isName isRest parted ready mem =>
    obtain rfl : rest = n ++ left := isRest
    obtain ⟨-, ts, accepted, -⟩ := Reads.word except isName opened parted.endsWord sub
    rw [State.behind_behind] at ready
    exact refuses_tail accepted (refuses_head (ready.refuses (told h (List.mem_cons_of_mem _ mem))))
  | @text l left proper isRest =>
    obtain rfl : rest = l.token ++ left := isRest
    obtain ⟨ds, same, -⟩ := Literal.IsProper.token_append (l := l) left
    rcases proper.letters_name with nil | isName
    · -- Without a prefix there is no word at all.
      have none : (Token.name (except.map String.toList)).length? s.quotes (l.token ++ left) = .none := by
        apply length_name_none
        rw [same, nil]
        exact .inl (wordAt_cons proper.mark_noWord.1)
      obtain ⟨extras, -, lead, -⟩ := opened.lead
      exact refuses_head (refuses_node lead (opened.behind.refuses rfl none))
    · rw [same] at opened
      have stops : ∀ c ∈ (l.mark :: (ds ++ (l.body ++ l.mark :: (ds ++ left)))).head?,
          Text.isIdentifierRest c = false := fun c mem => by
        obtain rfl := Option.mem_some.mp mem
        exact proper.mark_noWord.2
      obtain ⟨-, ts, accepted, -⟩ := Reads.word except isName opened stops sub
      have quote : Opens .quote (l.mark :: (ds ++ (l.body ++ l.mark :: (ds ++ left)))) :=
        ⟨[], l.mark, _, rfl, by simp, proper.mark⟩
      have ready := Opens.ready quote (w := []) (s := s.behind (w ++ l.letters) _) rfl State.allows_nil
      exact refuses_tail accepted (refuses_head (ready.refuses (told .quote List.mem_cons_self)))
  | integer integer isRest =>
    obtain rfl := isRest
    exact refuses_head ((Opens.ready (h := .digit) integer.opens text gap).refuses rfl)
  | group _ _ _ _ isRest _ _ =>
    obtain rfl := isRest
    exact refuses_head ((Opens.ready (h := .mark ['(']) (opensMark_open _) text gap).refuses rfl)

theorem Leading.ready_or_group (leading : Leading hs s) :
    (∃ h ∈ [Head.name, .quote, .digit], Opens h s.rest) ∨
      ∃ e cs v w left, s.suites = [] ∧ IsFiller v ∧ Spells IsFiller e cs ∧ IsFiller w ∧
        s.rest = '(' :: (v ++ (cs ++ (w ++ ')' :: left))) ∧
        ∃ h ∈ hs, Ready h (s.behind ('(' :: (v ++ (cs ++ (w ++ [')'])))) left) := by
  cases leading with
  | name name text parted _ _ => exact .inl ⟨.name, by decide, text ▸ name.opens parted⟩
  | text proper text => exact .inl ⟨.quote, by decide, text ▸ proper.opens _⟩
  | integer integer text => exact .inl ⟨.digit, by decide, text ▸ integer.opens⟩
  | group top hv spelled hw text ready mem =>
    exact .inr ⟨_, _, _, _, _, top, hv, spelled, hw, text, _, mem, ready⟩

/-- No splat stands in the parentheses of an expression. -/
theorem Leading.refuses_splatGroup (leading : Leading hs (s.behind w rest)) (text : s.rest = w ++ rest)
    (gap : s.Allows w) : Refuses grammar (phrase .splatGroup) s := by
  induction n : rest.length using Nat.strongRecOn generalizing hs s w rest with
  | ind _ ih =>
    subst n
    obtain ⟨opened, -⟩ := leading.opened text gap
    obtain ⟨extras, -, lead, -⟩ := opened.lead
    refine refuses_phrase (refuses_node lead ?_)
    rcases leading.ready_or_group with ⟨h, mem, opens⟩ | ⟨e, cs, v, w', left, top, hv, spelled, hw, isRest, -⟩
    · exact refuses_head ((Opens.ready opens (w := []) rfl State.allows_nil).refusesAll mem (by decide))
    · obtain rfl : rest = _ := isRest
      obtain ⟨-, ts, accepted, -⟩ := reads_open (s := s.behind w ('(' :: (v ++ (cs ++ (w' ++ ')' :: left)))))
        (w := []) rfl State.allows_nil
      have admits : Admits IsFiller { (s.behind w ('(' :: (v ++ (cs ++ (w' ++ ')' :: left))))).behind ['(']
          (v ++ (cs ++ (w' ++ ')' :: left))) with region := .free } := ⟨top, fun _ filler => .inr ⟨filler, rfl, top⟩⟩
      obtain ⟨inner, -, h, mem, ready⟩ := Leading.enter admits hv spelled hw rfl
      have group := ih _ (by simp only [List.length_append, List.length_cons]; omega) inner rfl
        (admits.allows v hv) rfl
      refine refuses_tail accepted (refuses_head (refuses_within (refuses_head ?_)))
      exact refuses_first group (refuses_first (ready.refusesAll mem (by decide)) refuses_none)

theorem Leading.many_open (leading : Leading hs (s.behind w rest)) (text : s.rest = w ++ rest)
    (admits : Admits IsFiller s) (hw : IsFiller w) :
    ∃ ts t, Accepts grammar (many "(") s ts t ∧ Refuses grammar "*" t := by
  induction n : rest.length using Nat.strongRecOn generalizing hs s w rest with
  | ind _ ih =>
    subst n
    rcases leading.ready_or_group with ⟨h, mem, opens⟩ | ⟨e, cs, v, w', left, top, hv, spelled, hw', isRest, -⟩
    · have ready := opens.ready text (admits.allows w hw)
      exact ⟨[], s, accepts_many_end (ready.refusesAll mem (by decide)),
        ready.refusesAll mem (by decide)⟩
    · obtain rfl : rest = _ := isRest
      obtain ⟨-, ts, accepted, -⟩ := reads_open text (admits.allows w hw)
      obtain ⟨inner, -⟩ := Leading.enter (t := s.behind (w ++ ['(']) (v ++ (cs ++ (w' ++ ')' :: left))))
        admits.behind hv spelled hw' rfl
      obtain ⟨ts', t, more, star⟩ := ih _ (by simp only [List.length_append, List.length_cons]; omega) inner rfl
        admits.behind hv rfl
      exact ⟨ts ++ ts', t, accepts_many_cons accepted more, star⟩

/-- An expression is no argument that needs a sign of its own. -/
theorem Leading.refuses_argumentStart (admits : Admits gap s) (hw : IsFiller w)
    (leading : Leading followers ({ s with region := .free }.behind w rest)) (text : s.rest = w ++ rest) :
    Refuses grammar argumentStart s := by
  have free := admits.free
  obtain ⟨opened, h, mem, ready⟩ := leading.opened text (free.allows w hw)
  have keyword : Refuses grammar keywordStart { s with region := .free } :=
    leading.refuses_word text (free.allows w hw) (by decide) (by decide)
  have star : Refuses grammar (each ["(", many "(", "*"]) { s with region := .free } := by
    rcases leading.ready_or_group with ⟨h, mem, opens⟩ | ⟨e, cs, v, w', left, top, hv, spelled, hw', isRest, -⟩
    · have ready := Opens.ready (s := { s with region := .free }) opens text (free.allows w hw)
      exact refuses_head (ready.refusesAll mem (by decide))
    · obtain rfl : rest = _ := isRest
      obtain ⟨-, ts, accepted, -⟩ := reads_open (s := { s with region := .free }) text (free.allows w hw)
      obtain ⟨inner, -⟩ := Leading.enter (t := ({ s with region := .free } : State).behind (w ++ ['('])
        (v ++ (cs ++ (w' ++ ')' :: left)))) free.behind hv spelled hw' rfl
      obtain ⟨ts', t, more, star⟩ := inner.many_open rfl free.behind hv
      exact refuses_tail accepted (refuses_tail more (refuses_head star))
  refine refuses_within ?_
  refine refuses_first (ready.refusesAll mem (by decide)) ?_
  refine refuses_first (ready.refusesAll mem (by decide)) ?_
  refine refuses_first (ready.refusesAll mem (by decide)) ?_
  refine refuses_first (ready.refusesAll mem (by decide)) ?_
  exact refuses_first keyword (refuses_first star refuses_none)

end Footprint.Calls
