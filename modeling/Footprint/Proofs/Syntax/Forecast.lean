import Footprint.Proofs.Syntax.Consumption
import Footprint.Proofs.Syntax.Heads
import Footprint.Syntax.Grammar

/-!
# What the next token rules out

Most rules refuse a text because of its first token. A forecast tells from a rule and from the kind of the
next token that the rule refuses, or that it reads nothing; it may also not know. Forecasts are computed,
so that a place in the grammar where many alternatives fail needs no proof of its own.
-/

namespace Footprint.Syntax

variable {N : Type} {rules : N → Rule N} {h : Head} {s s' : State} {b : Bool}

/-- What comes next in a state: a token behind a gap that may stand there, or nothing. -/
inductive Ready : Head → State → Prop
  | stop {s : State} : s.lead? = none → Ready .stop s
  | token {h : Head} {s : State} (w cs : List Char) :
    s.rest = w ++ cs → s.Allows w → Opens h cs → Ready h s

theorem Ready.lead (ready : Ready h s) :
    h = .stop ∧ s.lead? = none ∨ h ≠ .stop ∧ ∃ extras s', s.lead? = some (extras, s') ∧ Opens h s'.rest ∧ Ready h s' := by
  cases ready with
  | stop stopped => exact .inl ⟨rfl, stopped⟩
  | token w cs text gap opens =>
    obtain ⟨extras, -, lead, -⟩ := State.lead_of_allows gap opens.beginsToken text
    refine .inr ⟨?_, extras, _, lead, opens, .token [] cs rfl State.allows_nil opens⟩
    rintro rfl
    exact opens

theorem Ready.read?_none {t : Token} (ready : Ready h s) (refused : t.refusedAt h = true) : t.read? s = none := by
  rw [Token.read?_eq, if_pos (Token.isSpaced_of_refusedAt refused)]
  rcases ready.lead with ⟨-, stopped⟩ | ⟨notStop, extras, s', lead, opens, -⟩
  · rw [stopped]
    rfl
  · rw [lead, Option.bind_some, opens.length_none refused notStop]
    rfl

/-- A rule refuses a text, or reads nothing of it. -/
def Foretold (rules : N → Rule N) (r : Rule N) (s : State) : Bool → Prop
  | true => Accepts rules r s [] s
  | false => Refuses rules r s

def Head.isStop : Head → Bool
  | .stop => true
  | _ => false

/-- A forecast of a part as a forecast of a whole that is refused with it. -/
def refusal (isStop : Bool) (o : Option Bool) : Option Bool :=
  if o = some false ∨ isStop then some false else none

section

variable (h : Head) (known : N → Option Bool)

mutual

/-- Whether a rule reads nothing where this token comes next, or refuses it. -/
def Rule.forecast : Rule N → Option Bool
  | .token t => if t.refusedAt h then some false else .none
  | .layout _ => .none
  | .phrase n => known n
  | .each rs => forecastEach rs
  | .first rs => forecastFirst rs
  | .many r => if r.forecast = some false then some true else .none
  | .ahead r => r.forecast
  | .absent r => r.forecast.map not
  | .within _ _ => .none
  | .node _ r => refusal h.isStop r.forecast
  | .inRole _ r => r.forecast
  | .only _ r => r.forecast.map fun _ => false
  | .chain r _ | .choose r _ => refusal h.isStop r.forecast

def Rule.forecastEach : List (Rule N) → Option Bool
  | [] => some true
  | r :: rs =>
    r.forecast.bind fun passes => if passes then forecastEach rs else some false

def Rule.forecastFirst : List (Rule N) → Option Bool
  | [] => some false
  | r :: rs =>
    r.forecast.bind fun passes => if passes then some true else forecastFirst rs

end

end

/-- A forecast of a rule holds wherever this token comes next. -/
def Holds (rules : N → Rule N) (h : Head) (o : Option Bool) (r : Rule N) : Prop :=
  ∀ b s, o = some b → Ready h s → Foretold rules r s b

namespace Holds

variable {r : Rule N} {rs : List (Rule N)} {o o' : Option Bool}

theorem unknown : Holds rules h none r := fun _ _ told => by cases told

theorem token (t : Token) : Holds rules h (if t.refusedAt h then some false else none) (.token t) := by
  intro b s told ready
  rw [Option.ite_none_right_eq_some] at told
  obtain rfl := Option.some.inj told.2
  exact refuses_token (ready.read?_none told.1)

theorem many (part : Holds rules h o r) :
    Holds rules h (if o = some false then some true else none) (.many r) := by
  intro b s told ready
  rw [Option.ite_none_right_eq_some] at told
  obtain rfl := Option.some.inj told.2
  exact accepts_many_end (part false s told.1 ready)

theorem ahead (part : Holds rules h o r) : Holds rules h o (.ahead r) := by
  intro b s told ready
  have part := part b s told ready
  cases b with
  | true => exact accepts_ahead part
  | false => exact refuses_ahead part

theorem absent (part : Holds rules h o r) : Holds rules h (o.map not) (.absent r) := by
  intro b s told ready
  obtain ⟨c, ofPart, rfl⟩ := Option.map_eq_some_iff.mp told
  have part := part c s ofPart ready
  cases c with
  | true => exact refuses_absent part
  | false => exact accepts_absent part

theorem inRole (part : Holds rules h o r) (ro : Role) : Holds rules h o (.inRole ro r) := by
  intro b s told ready
  have part := part b s told ready
  cases b with
  | true => exact accepts_inRole part
  | false => exact refuses_inRole part

theorem only (part : Holds rules h o r) (ks : List Kind) :
    Holds rules h (o.map fun _ => false) (.only ks r) := by
  intro b s told ready
  obtain ⟨c, ofPart, rfl⟩ := Option.map_eq_some_iff.mp told
  have part := part c s ofPart ready
  cases c with
  | true => exact refuses_only_kind part rfl
  | false => exact refuses_only part

/-- A rule that passes the gap first is refused where its first part is, and where nothing comes next. -/
theorem behindGap {whole : Rule N} (part : Holds rules h o r)
    (stopped : ∀ s : State, s.lead? = none → Refuses rules whole s)
    (refused : ∀ (s : State) extras s', s.lead? = some (extras, s') → Refuses rules r s' → Refuses rules whole s) :
    Holds rules h (refusal h.isStop o) whole := by
  intro b s told ready
  rw [refusal, Option.ite_none_right_eq_some] at told
  obtain rfl := Option.some.inj told.2
  rcases ready.lead with ⟨-, nothing⟩ | ⟨notStop, extras, s', lead, -, ready'⟩
  · exact stopped s nothing
  · rcases told.1 with foretold | isStop
    · exact refused s extras s' lead (part false s' foretold ready')
    · exact absurd (by cases h <;> first | rfl | cases isStop) notStop

theorem node (part : Holds rules h o r) (k : Kind) : Holds rules h (refusal h.isStop o) (.node k r) :=
  part.behindGap (fun _ stopped => refuses_node_stopped stopped) fun _ _ _ lead refused => refuses_node lead refused

theorem chain (part : Holds rules h o r) (steps : List (Kind × Option Role × Rule N)) :
    Holds rules h (refusal h.isStop o) (.chain r steps) :=
  part.behindGap (fun _ stopped => refuses_chain_stopped stopped) fun _ _ _ lead refused => refuses_chain lead refused

theorem choose (part : Holds rules h o r) (ends : List (Kind × Rule N)) :
    Holds rules h (refusal h.isStop o) (.choose r ends) :=
  part.behindGap (fun _ stopped => refuses_choose_stopped stopped) fun _ _ _ lead refused => refuses_choose lead refused

theorem each_cons (head : Holds rules h o r) (tail : Holds rules h o' (.each rs)) :
    Holds rules h (o.bind fun c => if c then o' else some false) (.each (r :: rs)) := by
  intro b s told ready
  obtain ⟨c, first, told⟩ := Option.bind_eq_some_iff.mp told
  have head := head c s first ready
  cases c with
  | false =>
    obtain rfl := Option.some.inj told
    exact refuses_head head
  | true =>
    have tail := tail b s told ready
    cases b with
    | true => exact accepts_cons head tail
    | false => exact refuses_tail head tail

theorem first_cons (head : Holds rules h o r) (tail : Holds rules h o' (.first rs)) :
    Holds rules h (o.bind fun c => if c then some true else o') (.first (r :: rs)) := by
  intro b s told ready
  obtain ⟨c, first, told⟩ := Option.bind_eq_some_iff.mp told
  have head := head c s first ready
  cases c with
  | true =>
    obtain rfl := Option.some.inj told
    exact accepts_first head
  | false =>
    have tail := tail b s told ready
    cases b with
    | true => exact accepts_later head tail
    | false => exact refuses_first head tail

theorem each_nil : Holds rules h (some true) (.each []) := by
  intro b s told _
  obtain rfl := Option.some.inj told
  exact accepts_nil

theorem first_nil : Holds rules h (some false) (.first []) := by
  intro b s told _
  obtain rfl := Option.some.inj told
  exact refuses_none

end Holds

variable {known : N → Option Bool}

mutual

theorem Rule.holds (knows : ∀ n, Holds rules h (known n) (.phrase n)) :
    ∀ r : Rule N, Holds rules h (r.forecast h known) r
  | .token t => .token t
  | .layout _ => .unknown
  | .phrase n => knows n
  | .each rs => Rule.holdsEach knows rs
  | .first rs => Rule.holdsFirst knows rs
  | .many r => (Rule.holds knows r).many
  | .ahead r => (Rule.holds knows r).ahead
  | .absent r => (Rule.holds knows r).absent
  | .within _ _ => .unknown
  | .node k r => (Rule.holds knows r).node k
  | .inRole ro r => (Rule.holds knows r).inRole ro
  | .only ks r => (Rule.holds knows r).only ks
  | .chain r steps => (Rule.holds knows r).chain steps
  | .choose r ends => (Rule.holds knows r).choose ends

theorem Rule.holdsEach (knows : ∀ n, Holds rules h (known n) (.phrase n)) :
    ∀ rs : List (Rule N), Holds rules h (forecastEach h known rs) (.each rs)
  | [] => .each_nil
  | r :: rs => (Rule.holds knows r).each_cons (Rule.holdsEach knows rs)

theorem Rule.holdsFirst (knows : ∀ n, Holds rules h (known n) (.phrase n)) :
    ∀ rs : List (Rule N), Holds rules h (forecastFirst h known rs) (.first rs)
  | [] => .first_nil
  | r :: rs => (Rule.holds knows r).first_cons (Rule.holdsFirst knows rs)

end

/-- What is known of the phrases of the grammar after so many rounds. -/
def knownAt (h : Head) : Nat → Phrase → Option Bool
  | 0, _ => none
  | n + 1, p => (grammar p).forecast h (knownAt h n)

theorem holds_knownAt (h : Head) (n : Nat) (p : Phrase) : Holds grammar h (knownAt h n p) (.phrase p) := by
  induction n generalizing p with
  | zero => exact .unknown
  | succ n ih =>
    intro b s told ready
    have rule := Rule.holds ih (grammar p) b s told ready
    cases b with
    | true => exact accepts_phrase rule
    | false => exact refuses_phrase rule

/-- Phrases nest less than this before a token is read. -/
def rounds : Nat := 14

/-- The forecast of a rule of the grammar. -/
def Head.forecast (h : Head) (r : Rule Phrase) : Option Bool := r.forecast h (knownAt h rounds)

theorem Ready.refuses {r : Rule Phrase} (ready : Ready h s) (told : h.forecast r = some false) :
    Refuses grammar r s := Rule.holds (holds_knownAt h rounds) r false s told ready

theorem Ready.passes {r : Rule Phrase} (ready : Ready h s) (told : h.forecast r = some true) :
    Accepts grammar r s [] s := Rule.holds (holds_knownAt h rounds) r true s told ready

theorem Ready.refusesAll {r : Rule Phrase} {hs : List Head} (ready : Ready h s) (mem : h ∈ hs)
    (told : ∀ h ∈ hs, h.forecast r = some false) : Refuses grammar r s := ready.refuses (told h mem)

theorem Ready.passesAll {r : Rule Phrase} {hs : List Head} (ready : Ready h s) (mem : h ∈ hs)
    (told : ∀ h ∈ hs, h.forecast r = some true) : Accepts grammar r s [] s := ready.passes (told h mem)

theorem Ready.refuseAll {rs : List (Rule Phrase)} {hs : List Head} (ready : Ready h s) (mem : h ∈ hs)
    (told : ∀ h ∈ hs, ∀ r ∈ rs, h.forecast r = some false) : RefuseAll grammar s rs :=
  fun r inRules => ready.refuses (told h mem r inRules)

end Footprint.Syntax
