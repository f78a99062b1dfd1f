import Footprint.Proofs.Syntax.Positions
import Footprint.Syntax.Grammar

/-!
# Readings side by side

A reading asks its text for tokens and for places in the layout, and all else follows from the answers. So two
readings by one grammar go the same way as long as their answers correspond: what is to correspond is settled
once for the answers, and carries over to whole rules.
-/

namespace Footprint.Syntax

inductive Question where
  | token (t : Token)
  | layout (l : Layout)

def Question.read? : Question → State → Option (List Tree × State)
  | .token t => t.read?
  | .layout l => l.read?

section Asked

variable {N : Type} (rules : N → Rule N)

mutual

/-- All that is asked in a reading, in whatever alternatives, and where. -/
def asked : Nat → Rule N → State → List (Question × State)
  | 0, _, _ => []
  | _ + 1, .token t, s => [(.token t, s)]
  | _ + 1, .layout l, s => [(.layout l, s)]
  | f + 1, .phrase n, s => asked f (rules n) s
  | _ + 1, .each [], _ => []
  | f + 1, .each (r :: rs), s =>
    asked f r s ++ match run rules f r s with
      | .accept _ s' => asked f (.each rs) s'
      | _ => []
  | _ + 1, .first [], _ => []
  | f + 1, .first (r :: rs), s =>
    asked f r s ++ match run rules f r s with
      | .refuse => asked f (.first rs) s
      | _ => []
  | f + 1, .many r, s =>
    asked f r s ++ match run rules f r s with
      | .accept _ s' => asked f (.many r) s'
      | _ => []
  | f + 1, .ahead r, s => asked f r s
  | f + 1, .absent r, s => asked f r s
  | f + 1, .within g r, s => asked f r { s with region := g }
  | f + 1, .node _ r, s =>
    (.layout .lead, s) :: match s.lead? with
      | some (_, s') => asked f r s'
      | none => []
  | f + 1, .inRole _ r, s => asked f r s
  | f + 1, .only _ r, s => asked f r s
  | f + 1, .chain base steps, s =>
    (.layout .lead, s) :: match s.lead? with
      | some (_, s') => asked f base s' ++ match run rules f base s' with
        | .accept ts t => askedInGrowth f steps s' ts t
        | _ => []
      | none => []
  | f + 1, .choose front ends, s =>
    (.layout .lead, s) :: match s.lead? with
      | some (_, s') => asked f front s' ++ match run rules f front s' with
        | .accept _ t => askedAtEnds f ends t
        | _ => []
      | none => []

def askedInGrowth : Nat → List (Kind × Option Role × Rule N) → State → List Tree → State →
    List (Question × State)
  | 0, _, _, _, _ => []
  | f + 1, steps, start, ts, s =>
    askedAtSteps f steps s ++ match step rules f steps start ts s with
      | .accept us s' => askedInGrowth f steps start us s'
      | _ => []

def askedAtSteps : Nat → List (Kind × Option Role × Rule N) → State → List (Question × State)
  | 0, _, _ => []
  | _ + 1, [], _ => []
  | f + 1, (_, _, r) :: steps, s =>
    asked f r s ++ match run rules f r s with
      | .refuse => askedAtSteps f steps s
      | _ => []

def askedAtEnds : Nat → List (Kind × Rule N) → State → List (Question × State)
  | 0, _, _ => []
  | _ + 1, [], _ => []
  | f + 1, (_, r) :: ends, s =>
    asked f r s ++ match run rules f r s with
      | .refuse => askedAtEnds f ends s
      | _ => []

end

def Reply.later (reply : Reply) (accepted : List Tree → State → List (Question × State))
    (refused : List (Question × State)) : List (Question × State) :=
  match reply with
  | accept ts s => accepted ts s
  | refuse => refused
  | starve => []

section Equations

variable {rules} (f : Nat) (r : Rule N) (s start : State) (ts : List Tree)

theorem asked_each_cons (rs : List (Rule N)) :
    asked rules (f + 1) (.each (r :: rs)) s =
      asked rules f r s ++ (run rules f r s).later (fun _ s' => asked rules f (.each rs) s') [] := by
  rw [asked]
  cases run rules f r s <;> rfl

theorem asked_first_cons (rs : List (Rule N)) :
    asked rules (f + 1) (.first (r :: rs)) s =
      asked rules f r s ++ (run rules f r s).later (fun _ _ => []) (asked rules f (.first rs) s) := by
  rw [asked]
  cases run rules f r s <;> rfl

theorem asked_many :
    asked rules (f + 1) (.many r) s =
      asked rules f r s ++ (run rules f r s).later (fun _ s' => asked rules f (.many r) s') [] := by
  rw [asked]
  cases run rules f r s <;> rfl

theorem asked_node (k : Kind) :
    asked rules (f + 1) (.node k r) s =
      (.layout .lead, s) :: (Reply.ofOption s.lead?).later (fun _ s' => asked rules f r s') [] := by
  rw [asked]
  cases s.lead? <;> rfl

theorem asked_chain (steps : List (Kind × Option Role × Rule N)) :
    asked rules (f + 1) (.chain r steps) s =
      (.layout .lead, s) :: (Reply.ofOption s.lead?).later (fun _ s' =>
        asked rules f r s' ++ (run rules f r s').later (fun ts t => askedInGrowth rules f steps s' ts t) []) [] := by
  rw [asked]
  cases s.lead? with
  | none => rfl
  | some p =>
    dsimp only [Reply.ofOption, Reply.later]
    cases run rules f r p.2 <;> rfl

theorem asked_choose (ends : List (Kind × Rule N)) :
    asked rules (f + 1) (.choose r ends) s =
      (.layout .lead, s) :: (Reply.ofOption s.lead?).later (fun _ s' =>
        asked rules f r s' ++ (run rules f r s').later (fun _ t => askedAtEnds rules f ends t) []) [] := by
  rw [asked]
  cases s.lead? with
  | none => rfl
  | some p =>
    dsimp only [Reply.ofOption, Reply.later]
    cases run rules f r p.2 <;> rfl

theorem askedInGrowth_succ (steps : List (Kind × Option Role × Rule N)) :
    askedInGrowth rules (f + 1) steps start ts s =
      askedAtSteps rules f steps s ++
        (step rules f steps start ts s).later (fun us s' => askedInGrowth rules f steps start us s') [] := by
  rw [askedInGrowth]
  cases step rules f steps start ts s <;> rfl

theorem askedAtSteps_cons (k : Kind) (ro : Option Role) (steps : List (Kind × Option Role × Rule N)) :
    askedAtSteps rules (f + 1) ((k, ro, r) :: steps) s =
      asked rules f r s ++ (run rules f r s).later (fun _ _ => []) (askedAtSteps rules f steps s) := by
  rw [askedAtSteps]
  cases run rules f r s <;> rfl

theorem askedAtEnds_cons (k : Kind) (ends : List (Kind × Rule N)) :
    askedAtEnds rules (f + 1) ((k, r) :: ends) s =
      asked rules f r s ++ (run rules f r s).later (fun _ _ => []) (askedAtEnds rules f ends s) := by
  rw [askedAtEnds]
  cases run rules f r s <;> rfl

end Equations

end Asked

section Orderly

/-- Marks and words that stand in one line. -/
def Token.isInline : Token → Bool
  | .mark m => m.all fun c => c != '\n' && c != '\r'
  | .keyword w => w.all fun c => c != '\n' && c != '\r'
  | _ => true

variable {N : Type}

/-- Whether a rule reads what nodes of a kind are spelled as, if they are spelled. -/
def Rule.spells : Kind → Rule N → Bool
  | .identifier, .token (.name _) => true
  | .string, .token .plainString => true
  | .string, .each (.token .openFormatted :: _) => true
  | k, _ => !k.isSpelled

/-- A role that names are read by. -/
def Role.isNaming : Role → Bool
  | .name | .member => true
  | _ => false

mutual

/-- Whether a rule, as it stands, makes a node that is no literal. -/
def Rule.makesNoString : Rule N → Bool
  | .node k _ => k != .string
  | .first rs => Rule.noneMakesString rs
  | .choose _ ends => ends.all fun e => e.1 != .string
  | _ => false

def Rule.noneMakesString : List (Rule N) → Bool
  | [] => true
  | r :: rs => r.makesNoString && Rule.noneMakesString rs

end

mutual

/-- Whether a rule keeps to lines with its marks and words, spells only names and literals, and names
nothing by a literal. -/
def Rule.isOrderly : Rule N → Bool
  | .token t => t.isInline
  | .layout _ | .phrase _ => true
  | .each rs | .first rs => Rule.allOrderly rs
  | .many r | .ahead r | .absent r | .within _ r | .only _ r => r.isOrderly
  | .inRole ro r => (!ro.isNaming || r.makesNoString) && r.isOrderly
  | .node k r => r.spells k && r.isOrderly
  | .chain base steps => base.isOrderly && Rule.stepsOrderly steps
  | .choose front ends => front.isOrderly && Rule.endsOrderly ends

def Rule.allOrderly : List (Rule N) → Bool
  | [] => true
  | r :: rs => r.isOrderly && Rule.allOrderly rs

def Rule.stepsOrderly : List (Kind × Option Role × Rule N) → Bool
  | [] => true
  | (k, ro, r) :: steps => !k.isSpelled && !ro.any Role.isNaming && r.isOrderly && Rule.stepsOrderly steps

def Rule.endsOrderly : List (Kind × Rule N) → Bool
  | [] => true
  | (k, r) :: ends => !k.isSpelled && r.isOrderly && Rule.endsOrderly ends

end

theorem isOrderly_grammar (n : Phrase) : (grammar n).isOrderly = true := by
  cases n <;> decide

theorem isOrderly_cell : cell.isOrderly = true := by decide

end Orderly

section Kinds

variable {N : Type} {rules : N → Rule N} {s s' : State} {ts : List Tree}

theorem State.kind_ne_string_of_lead (read : s.lead? = some (ts, s')) : ∀ t ∈ ts, t.kind ≠ .string := by
  obtain ⟨rfl, -⟩ := State.eq_past_of_lead read
  intro t mem same
  rcases Gap.isExtra_of_mem_scan mem with kind | kind <;> rw [kind] at same <;> cases same

theorem Reply.kind_ne_string_of_wrap {reply : Reply} {k : Kind} {extras : List Tree} (other : k ≠ .string)
    (noString : ∀ t ∈ extras, t.kind ≠ .string) (read : reply.wrap k extras s = .accept ts s') :
    ∀ t ∈ ts, t.kind ≠ .string := by
  cases reply with
  | accept us u =>
    obtain ⟨rfl, -⟩ := Reply.accept.inj read
    intro t mem
    rcases List.mem_append.mp mem with old | new
    · exact noString t old
    · rw [List.mem_singleton.mp new]
      exact other
  | _ => cases read

theorem kind_ne_string_of_finish {f : Nat} {ends : List (Kind × Rule N)} {start u : State} {us : List Tree}
    (makes : ∀ e ∈ ends, e.1 ≠ .string) (read : finish rules f ends start us u = .accept ts s') :
    ∀ t ∈ ts, t.kind ≠ .string := by
  induction f generalizing ends with
  | zero => cases read
  | succ f ih =>
    cases ends with
    | nil => cases read
    | cons p ends =>
      obtain ⟨k, r⟩ := p
      rw [List.forall_mem_cons] at makes
      rw [finish_cons] at read
      rcases Reply.follow_eq_accept read with ⟨vs, v, -, read⟩ | ⟨-, read⟩
      · exact Reply.kind_ne_string_of_wrap makes.1 (fun t mem => absurd mem List.not_mem_nil) read
      · exact ih makes.2 read

theorem Rule.kind_ne_string {f : Nat} {r : Rule N} (makes : r.makesNoString = true)
    (read : run rules f r s = .accept ts s') : ∀ t ∈ ts, t.kind ≠ .string := by
  induction f generalizing r with
  | zero => cases read
  | succ f ih =>
    cases r with
    | node k r =>
      rw [run_node] at read
      obtain ⟨extras, s₁, lead, read⟩ := Reply.exists_of_follow read
      exact Reply.kind_ne_string_of_wrap (by simpa [makesNoString] using makes)
        (State.kind_ne_string_of_lead (Reply.eq_some_of_ofOption lead)) read
    | first rs =>
      cases rs with
      | nil => cases read
      | cons r rs =>
        simp only [makesNoString, noneMakesString, Bool.and_eq_true] at makes
        rw [run_first_cons] at read
        rcases Reply.follow_eq_accept read with ⟨us, u, head, same⟩ | ⟨-, read⟩
        · exact ih makes.1 (head.trans same)
        · exact ih (r := .first rs) (by rw [makesNoString]; exact makes.2) read
    | choose front ends =>
      rw [run_choose] at read
      obtain ⟨extras, s₁, lead, read⟩ := Reply.exists_of_follow read
      obtain ⟨us, u, -, read⟩ := Reply.exists_of_follow read
      obtain ⟨vs, ended, rfl⟩ := Reply.exists_of_prepend read
      intro t mem
      rcases List.mem_append.mp mem with old | new
      · exact State.kind_ne_string_of_lead (Reply.eq_some_of_ofOption lead) t old
      · exact kind_ne_string_of_finish (by simpa [makesNoString] using makes) ended t new
    | _ => cases makes

end Kinds

/-- What of two readings is to correspond. -/
structure Coupling where
  states : State → State → Prop
  forests : List Tree → List Tree → Prop

namespace Coupling

inductive Answers (c : Coupling) : Option (List Tree × State) → Option (List Tree × State) → Prop
  | read {ts us : List Tree} {s u : State} : c.forests ts us → c.states s u → Answers c (some (ts, s)) (some (us, u))
  | none : Answers c none none

inductive Replies (c : Coupling) : Reply → Reply → Prop
  | accept {ts us : List Tree} {s u : State} : c.forests ts us → c.states s u → Replies c (.accept ts s) (.accept us u)
  | refuse : Replies c .refuse .refuse
  | starve : Replies c .starve .starve

end Coupling

variable {N : Type} (rules : N → Rule N)

/-- A coupling under which readings go side by side, as long as what is asked is of this kind. -/
structure Coupling.Lawful (c : Coupling) (P : Question → State → Prop) : Prop where
  token {q : Token} {s u : State} : q.isInline = true → P (.token q) s → c.states s u → c.Answers (q.read? s) (q.read? u)
  layout {l : Layout} {s u : State} : P (.layout l) s → c.states s u → c.Answers (l.read? s) (l.read? u)
  region {s u : State} (g : Region) : c.states s u → c.states { s with region := g } { u with region := g }
  region_eq {s u : State} : c.states s u → s.region = u.region
  nil : c.forests [] []
  append {ts us vs ws : List Tree} : c.forests ts us → c.forests vs ws → c.forests (ts ++ vs) (us ++ ws)
  assign {ts us : List Tree} (ro : Role) : (ro.isNaming = true → ∀ t ∈ ts, t.kind ≠ .string) →
    c.forests ts us → c.forests (Tree.assign ro ts) (Tree.assign ro us)
  soleKind {ts us : List Tree} : c.forests ts us → Tree.soleKind? ts = Tree.soleKind? us
  node {k : Kind} {s u : State} {ts us : List Tree} : k.isSpelled = false → c.states s u → c.forests ts us →
    c.forests [.node k none s.here [] ts] [.node k none u.here [] us]
  spelled {k : Kind} {r : Rule N} {f : Nat} {s₀ u₀ s u s' u' : State} {ts₀ us₀ ts us : List Tree} :
    k.isSpelled = true → r.spells k = true → c.states s u → (∀ x ∈ asked rules f r s, P x.1 x.2) →
    s₀.lead? = some (ts₀, s) → u₀.lead? = some (us₀, u) →
    run rules f r s = .accept ts s' → run rules f r u = .accept us u' →
    c.forests ts us → c.states s' u' →
    c.forests [.node k none s.here (s.spelling s') ts] [.node k none u.here (u.spelling u') us]

namespace Coupling

variable {rules} {c : Coupling} {P : Question → State → Prop} {a b : Reply} {ts us vs ws : List Tree} {s u : State}

namespace Replies

theorem ofOption {x y : Option (List Tree × State)} (h : c.Answers x y) :
    c.Replies (Reply.ofOption x) (Reply.ofOption y) := by
  cases h with
  | read forests states => exact .accept forests states
  | none => exact .refuse

theorem prepend (law : c.Lawful rules P) (first : c.forests ts us) (h : c.Replies a b) :
    c.Replies (a.prepend ts) (b.prepend us) := by
  cases h with
  | accept forests states => exact .accept (law.append first forests) states
  | refuse => exact .refuse
  | starve => exact .starve

theorem restore (law : c.Lawful rules P) (same : s.region = u.region) (h : c.Replies a b) :
    c.Replies (a.restore s.region) (b.restore u.region) := by
  rw [same]
  cases h with
  | accept forests states => exact .accept forests (law.region u.region states)
  | refuse => exact .refuse
  | starve => exact .starve

theorem wrap (law : c.Lawful rules P) {k : Kind} (unspelled : k.isSpelled = false) (extras : c.forests ts us)
    (from_ : c.states s u) (h : c.Replies a b) : c.Replies (a.wrap k ts s) (b.wrap k us u) := by
  cases h with
  | accept forests states =>
    rw [Reply.wrap, Reply.wrap, unspelled, if_neg Bool.false_ne_true, if_neg Bool.false_ne_true]
    exact .accept (law.append extras (law.node unspelled from_ forests)) states
  | refuse => exact .refuse
  | starve => exact .starve

theorem follow {k k' : List Tree → State → Reply} {r r' : Reply} {accepted : List Tree → State → List (Question × State)}
    {refused : List (Question × State)} (h : c.Replies a b) (heeded : ∀ x ∈ a.later accepted refused, P x.1 x.2)
    (goesOn : ∀ {ts us s u}, c.forests ts us → c.states s u → (∀ x ∈ accepted ts s, P x.1 x.2) → c.Replies (k ts s) (k' us u))
    (stays : (∀ x ∈ refused, P x.1 x.2) → c.Replies r r') : c.Replies (a.follow k r) (b.follow k' r') := by
  cases h with
  | accept forests states => exact goesOn forests states heeded
  | refuse => exact stays heeded
  | starve => exact .starve

theorem conclude {k k' : List Tree → State → Reply} {r r' : Reply} (h : c.Replies a b)
    (goesOn : ∀ {ts us s u}, a = .accept ts s → c.forests ts us → c.states s u → c.Replies (k ts s) (k' us u))
    (stays : c.Replies r r') : c.Replies (a.follow k r) (b.follow k' r') := by
  cases h with
  | accept forests states => exact goesOn rfl forests states
  | refuse => exact stays
  | starve => exact .starve

theorem lead (law : c.Lawful rules P) (heeded : P (.layout .lead) s) (states : c.states s u) :
    c.Replies (Reply.ofOption s.lead?) (Reply.ofOption u.lead?) :=
  .ofOption (law.layout (l := .lead) heeded states)

end Replies

variable (rules P) in
/-- With this much fuel, readings go side by side. -/
structure GoesAt (c : Coupling) (f : Nat) : Prop where
  run {r : Rule N} {s u : State} : r.isOrderly = true → c.states s u → (∀ x ∈ asked rules f r s, P x.1 x.2) →
    c.Replies (run rules f r s) (run rules f r u)
  grow {steps : List (Kind × Option Role × Rule N)} {start start' s u : State} {ts us : List Tree} :
    Rule.stepsOrderly steps = true → c.states start start' → c.forests ts us → c.states s u →
    (∀ x ∈ askedInGrowth rules f steps start ts s, P x.1 x.2) →
    c.Replies (grow rules f steps start ts s) (grow rules f steps start' us u)
  step {steps : List (Kind × Option Role × Rule N)} {start start' s u : State} {ts us : List Tree} :
    Rule.stepsOrderly steps = true → c.states start start' → c.forests ts us → c.states s u →
    (∀ x ∈ askedAtSteps rules f steps s, P x.1 x.2) →
    c.Replies (step rules f steps start ts s) (step rules f steps start' us u)
  finish {ends : List (Kind × Rule N)} {start start' s u : State} {ts us : List Tree} :
    Rule.endsOrderly ends = true → c.states start start' → c.forests ts us → c.states s u →
    (∀ x ∈ askedAtEnds rules f ends s, P x.1 x.2) →
    c.Replies (finish rules f ends start ts s) (finish rules f ends start' us u)

namespace GoesAt

variable {f : Nat}

/-- A node is spelled by what is read, which is why both readings have to be known. -/
theorem node (law : c.Lawful rules P) (ih : c.GoesAt rules P f) {k : Kind} {r : Rule N} (ok : (Rule.node k r).isOrderly = true)
    (states : c.states s u) (heeded : ∀ x ∈ asked rules (f + 1) (.node k r) s, P x.1 x.2) :
    c.Replies (Syntax.run rules (f + 1) (.node k r) s) (Syntax.run rules (f + 1) (.node k r) u) := by
  simp only [Rule.isOrderly, Bool.and_eq_true] at ok
  rw [asked_node, List.forall_mem_cons] at heeded
  have lead : c.Answers s.lead? u.lead? := law.layout (l := .lead) heeded.1 states
  rw [run_node, run_node]
  generalize hs : s.lead? = x, hu : u.lead? = y at lead heeded ⊢
  cases lead with
  | none => exact .refuse
  | @read _ _ s' u' extras states' =>
    have replies := ih.run ok.2 states' heeded.2
    rw [Reply.ofOption, Reply.ofOption, Reply.follow_accept, Reply.follow_accept]
    cases spelled : k.isSpelled with
    | false => exact replies.wrap law spelled extras states'
    | true =>
      generalize ha : Syntax.run rules f r s' = a, hb : Syntax.run rules f r u' = b at replies ⊢
      cases replies with
      | accept forests states'' =>
        rw [Reply.wrap, Reply.wrap, spelled, if_pos rfl, if_pos rfl]
        exact .accept (law.append extras
          (law.spelled spelled ok.1 states' heeded.2 hs hu ha hb forests states'')) states''
      | refuse => exact .refuse
      | starve => exact .starve

theorem run_succ (law : c.Lawful rules P) (orderly : ∀ n, (rules n).isOrderly = true) (ih : c.GoesAt rules P f)
    {r : Rule N} (ok : r.isOrderly = true) (states : c.states s u)
    (heeded : ∀ x ∈ asked rules (f + 1) r s, P x.1 x.2) :
    c.Replies (Syntax.run rules (f + 1) r s) (Syntax.run rules (f + 1) r u) := by
  cases r with
  | token t => exact .ofOption (law.token ok (heeded _ (List.mem_singleton_self _)) states)
  | layout l => exact .ofOption (law.layout (heeded _ (List.mem_singleton_self _)) states)
  | phrase n => exact ih.run (orderly n) states heeded
  | each rs =>
    cases rs with
    | nil => exact .accept law.nil states
    | cons r rs =>
      simp only [Rule.isOrderly, Rule.allOrderly, Bool.and_eq_true] at ok
      rw [asked_each_cons, List.forall_mem_append] at heeded
      rw [run_each_cons, run_each_cons]
      refine (ih.run ok.1 states heeded.1).follow heeded.2 (fun forests states' heeded => ?_) fun _ => .refuse
      exact (ih.run (by rw [Rule.isOrderly]; exact ok.2) states' heeded).prepend law forests
  | first rs =>
    cases rs with
    | nil => exact .refuse
    | cons r rs =>
      simp only [Rule.isOrderly, Rule.allOrderly, Bool.and_eq_true] at ok
      rw [asked_first_cons, List.forall_mem_append] at heeded
      rw [run_first_cons, run_first_cons]
      refine (ih.run ok.1 states heeded.1).follow heeded.2 (fun forests states' _ => .accept forests states') fun heeded => ?_
      exact ih.run (by rw [Rule.isOrderly]; exact ok.2) states heeded
  | many r =>
    rw [asked_many, List.forall_mem_append] at heeded
    rw [run_many, run_many]
    exact (ih.run (r := r) ok states heeded.1).follow heeded.2
      (fun forests states' heeded => (ih.run ok states' heeded).prepend law forests) fun _ => .accept law.nil states
  | ahead r =>
    rw [run_ahead, run_ahead]
    exact (ih.run (r := r) ok states heeded).conclude (fun _ _ _ => .accept law.nil states) .refuse
  | absent r =>
    rw [run_absent, run_absent]
    exact (ih.run (r := r) ok states heeded).conclude (fun _ _ _ => .refuse) (.accept law.nil states)
  | within g r =>
    rw [run_within, run_within]
    exact (ih.run (r := r) ok (law.region g states) heeded).restore law (law.region_eq states)
  | node k r => exact ih.node law ok states heeded
  | inRole ro r =>
    simp only [Rule.isOrderly, Bool.and_eq_true, Bool.or_eq_true, Bool.not_eq_true'] at ok
    rw [run_inRole, run_inRole]
    refine (ih.run (r := r) ok.2 states heeded).conclude (fun read forests states' => ?_) .refuse
    refine .accept (law.assign ro (fun naming => ?_) forests) states'
    exact Rule.kind_ne_string (ok.1.resolve_left (by rw [naming]; exact Bool.noConfusion)) read
  | only ks r =>
    rw [run_only, run_only]
    refine (ih.run (r := r) ok states heeded).conclude (fun _ forests states' => ?_) .refuse
    rw [law.soleKind forests]
    split
    · exact .accept forests states'
    · exact .refuse
  | chain base steps =>
    simp only [Rule.isOrderly, Bool.and_eq_true] at ok
    rw [asked_chain, List.forall_mem_cons] at heeded
    rw [run_chain, run_chain]
    refine (Replies.lead law heeded.1 states).follow heeded.2 (fun extras states' heeded => ?_) fun _ => .refuse
    rw [List.forall_mem_append] at heeded
    refine (ih.run ok.1 states' heeded.1).follow heeded.2 (fun forests states'' heeded => ?_) fun _ => .refuse
    exact (ih.grow ok.2 states' forests states'' heeded).prepend law extras
  | choose front ends =>
    simp only [Rule.isOrderly, Bool.and_eq_true] at ok
    rw [asked_choose, List.forall_mem_cons] at heeded
    rw [run_choose, run_choose]
    refine (Replies.lead law heeded.1 states).follow heeded.2 (fun extras states' heeded => ?_) fun _ => .refuse
    rw [List.forall_mem_append] at heeded
    refine (ih.run ok.1 states' heeded.1).follow heeded.2 (fun forests states'' heeded => ?_) fun _ => .refuse
    exact (ih.finish ok.2 states' forests states'' heeded).prepend law extras

variable {start start' : State}

theorem grow_succ (ih : c.GoesAt rules P f) {steps : List (Kind × Option Role × Rule N)}
    (ok : Rule.stepsOrderly steps = true) (starts : c.states start start') (forests : c.forests ts us)
    (states : c.states s u) (heeded : ∀ x ∈ askedInGrowth rules (f + 1) steps start ts s, P x.1 x.2) :
    c.Replies (Syntax.grow rules (f + 1) steps start ts s) (Syntax.grow rules (f + 1) steps start' us u) := by
  rw [askedInGrowth_succ, List.forall_mem_append] at heeded
  rw [Syntax.grow_succ, Syntax.grow_succ]
  exact (ih.step ok starts forests states heeded.1).follow heeded.2
    (fun forests' states' heeded => ih.grow ok starts forests' states' heeded) fun _ => .accept forests states

theorem step_succ (law : c.Lawful rules P) (ih : c.GoesAt rules P f)
    {steps : List (Kind × Option Role × Rule N)} (ok : Rule.stepsOrderly steps = true)
    (starts : c.states start start') (forests : c.forests ts us) (states : c.states s u)
    (heeded : ∀ x ∈ askedAtSteps rules (f + 1) steps s, P x.1 x.2) :
    c.Replies (Syntax.step rules (f + 1) steps start ts s) (Syntax.step rules (f + 1) steps start' us u) := by
  cases steps with
  | nil => exact .refuse
  | cons p steps =>
    obtain ⟨k, ro, r⟩ := p
    simp only [Rule.stepsOrderly, Bool.and_eq_true, Bool.not_eq_true'] at ok
    obtain ⟨⟨⟨unspelled, noName⟩, okRule⟩, okSteps⟩ := ok
    rw [askedAtSteps_cons, List.forall_mem_append] at heeded
    rw [step_cons, step_cons]
    refine (ih.run okRule states heeded.1).follow heeded.2 (fun forests' states' _ => ?_)
      fun heeded => ih.step okSteps starts forests states heeded
    refine Replies.wrap law unspelled law.nil starts (.accept (law.append ?_ forests') states')
    cases ro with
    | none => exact forests
    | some ro => exact law.assign ro (fun naming => absurd (noName.symm.trans naming) Bool.false_ne_true) forests

theorem finish_succ (law : c.Lawful rules P) (ih : c.GoesAt rules P f) {ends : List (Kind × Rule N)}
    (ok : Rule.endsOrderly ends = true) (starts : c.states start start') (forests : c.forests ts us)
    (states : c.states s u) (heeded : ∀ x ∈ askedAtEnds rules (f + 1) ends s, P x.1 x.2) :
    c.Replies (Syntax.finish rules (f + 1) ends start ts s) (Syntax.finish rules (f + 1) ends start' us u) := by
  cases ends with
  | nil => exact .refuse
  | cons p ends =>
    obtain ⟨k, r⟩ := p
    simp only [Rule.endsOrderly, Bool.and_eq_true, Bool.not_eq_true'] at ok
    rw [askedAtEnds_cons, List.forall_mem_append] at heeded
    rw [finish_cons, finish_cons]
    exact (ih.run ok.1.2 states heeded.1).follow heeded.2
      (fun forests' states' _ => Replies.wrap law ok.1.1 law.nil starts (.accept (law.append forests forests') states'))
      fun heeded => ih.finish ok.2 starts forests states heeded

end GoesAt

theorem goesAt (law : c.Lawful rules P) (orderly : ∀ n, (rules n).isOrderly = true) (f : Nat) :
    c.GoesAt rules P f := by
  induction f with
  | zero => exact ⟨fun _ _ _ => .starve, fun _ _ _ _ _ => .starve, fun _ _ _ _ _ => .starve, fun _ _ _ _ _ => .starve⟩
  | succ f ih => exact ⟨ih.run_succ law orderly, ih.grow_succ, ih.step_succ law, ih.finish_succ law⟩

end Coupling

end Footprint.Syntax
