import Footprint.Proofs.Syntax.Asking

/-!
# All that is asked in a reading

What the grammar knows of its places is checked rule by rule, and each answer carries it over to the next place. So all
that is asked in a reading, in whatever alternatives, is asked at places of the cut that have it among their lexemes, or
where it is refused.
-/

namespace Footprint.Syntax

variable {source : List Char} {base : List Frame → Prop} {seen : Bool} {g : Ground} {σ τ : Stance} {s s' : State}

namespace Stance

theorem StandsAt.mono (h : σ.StandsAt source base seen s) (fits : ∀ fs, σ.Fits base fs → τ.Fits base fs)
    (behind : σ.behind = true → τ.behind = true) (spent : τ.spent = true → σ.spent = true)
    (lambda : τ.lambda = true → σ.lambda = true) : τ.StandsAt source base seen s := by
  obtain ⟨indented, ⟨p, holds⟩ | ⟨passed, astray⟩⟩ := h
  · refine ⟨indented, .inl ⟨p, holds.reached, holds.stands, fun fresh => holds.direct ?_, fits _ holds.fits,
      fun known => holds.spent (spent known), fun known => holds.lambda ?_⟩⟩
    · rw [← Bool.not_eq_true] at fresh ⊢
      exact mt behind fresh
    · rw [Bool.or_eq_true] at known ⊢
      exact known.imp_left lambda
  · exact ⟨indented, .inr ⟨behind passed, astray⟩⟩

theorem StandsAt.join_left (h : σ.StandsAt source base seen s) (τ : Stance) : (σ.join τ).StandsAt source base seen s := by
  apply h.mono
  · exact fun fs fits => fits.join_left τ
  · exact fun behind => Bool.or_eq_true_iff.mpr (.inl behind)
  · exact fun spent => (Bool.and_eq_true_iff.mp spent).1
  · exact fun lambda => (Bool.and_eq_true_iff.mp lambda).1

theorem StandsAt.join_right (h : τ.StandsAt source base seen s) (σ : Stance) : (σ.join τ).StandsAt source base seen s := by
  apply h.mono
  · exact fun fs fits => fits.join_right σ
  · exact fun behind => Bool.or_eq_true_iff.mpr (.inr behind)
  · exact fun spent => (Bool.and_eq_true_iff.mp spent).2
  · exact fun lambda => (Bool.and_eq_true_iff.mp lambda).2

theorem StandsAt.of_entails (h : σ.StandsAt source base seen s) (entails : σ.entails τ = true) :
    τ.StandsAt source base seen s := by
  have parts := entails
  simp only [Stance.entails, Bool.and_eq_true, Bool.or_eq_true, Bool.not_eq_true'] at parts
  obtain ⟨⟨⟨-, behind⟩, spent⟩, lambda⟩ := parts
  apply h.mono
  · exact fun fs fits => fits.of_entails entails
  · exact fun passed => behind.resolve_left (by rw [passed]; exact Bool.noConfusion)
  · exact fun known => spent.resolve_left (by rw [known]; exact Bool.noConfusion)
  · exact fun known => lambda.resolve_left (by rw [known]; exact Bool.noConfusion)

/-- Where a reading stands does not depend on what line breaks do there. -/
theorem StandsAt.within (h : σ.StandsAt source base seen s) (r : Region) :
    σ.StandsAt source base seen { s with region := r } := by
  obtain ⟨indented, ⟨p, holds⟩ | ⟨passed, astray⟩⟩ := h
  · exact ⟨indented, .inl ⟨p, holds.reached, ⟨holds.stands.text, holds.stands.quotes⟩, holds.direct, holds.fits, holds.spent,
      holds.lambda⟩⟩
  · refine ⟨indented, .inr ⟨passed, ?_⟩⟩
    cases astray with
    | letters reached code text some letters rest quote => exact .letters reached code text some letters rest quote
    | point reached code text rest digit => exact .point reached code text rest digit

/-! ### Phrases -/

/-- Where a phrase begins, its ground holds of all that is open, and its entry of the place. -/
theorem StandsAt.enter {n : Phrase} (h : σ.StandsAt source base seen s) (ground : g.Holds base)
    (may : σ.phrase g n = some τ) :
    ∃ outer : List Frame → Prop, n.profile.ground.Holds outer ∧ n.profile.entry.StandsAt source outer (σ.lambda || seen) s ∧
      ∀ s', n.profile.exit.StandsAt source outer (σ.lambda || seen) s' → τ.StandsAt source base seen s' := by
  rw [Stance.phrase, Option.ite_none_right_eq_some, Bool.and_eq_true, Bool.or_eq_true, Bool.not_eq_true'] at may
  obtain ⟨⟨admits, fresh⟩, same⟩ := may
  obtain rfl := Option.some.inj same
  obtain ⟨indented, ⟨p, holds⟩ | ⟨passed, astray⟩⟩ := h
  · have admitted : n.profile.ground.Admits p.frames := by
      generalize n.profile.ground = inner at admits
      cases inner with
      | outside => exact holds.fits.eq_nil ground admits
      | bracket =>
        obtain ⟨f, rest, frames, mem⟩ := holds.fits.exists_of_isIn ground admits
        rw [Ground.Admits, frames, List.mem_singleton.mp mem]
        rfl
      | code => exact holds.fits.isCode ground admits
      | content =>
        obtain ⟨f, rest, frames, mem⟩ := holds.fits.exists_of_isIn ground (Bool.and_eq_true_iff.mp admits).1
        rw [Ground.Admits, frames]
        rcases List.mem_cons.mp mem with rfl | mem
        · rfl
        · rw [List.mem_singleton.mp mem]
          rfl
    have spent : p.isSpent = true := by
      by_cases content : n.profile.ground = .content
      · rw [content] at admits
        exact holds.spent (Bool.and_eq_true_iff.mp admits).2
      · exact Place.isSpent_of_isCode (admitted.isCode content)
    refine ⟨(· = p.frames), fun fs same => same ▸ admitted, ⟨indented, .inl ⟨p, holds.reached, holds.stands, ?_, ?_,
      fun _ => spent, ?_⟩⟩, ?_⟩
    · intro begins
      refine holds.direct (fresh.resolve_left ?_)
      have begins : n.profile.begins = false := begins
      rw [begins]
      exact Bool.false_ne_true
    · exact fun _ => rfl
    · intro known
      rw [Profile.entry, Bool.false_or] at known
      exact holds.lambda known
    · intro s' ended
      obtain ⟨indented', ⟨q, there⟩ | ⟨ends, astray⟩⟩ := ended
      · have frames : q.frames = p.frames := there.fits rfl
        refine ⟨indented', .inl ⟨q, there.reached, there.stands, there.direct, frames ▸ holds.fits, ?_, ?_⟩⟩
        · intro code
          apply Place.isSpent_of_isCode
          rw [Place.isCode, frames]
          exact holds.isCode ground code
        · exact there.lambda
      · exact ⟨indented', .inr ⟨ends, astray⟩⟩
  · refine ⟨fun _ => False, fun _ => False.elim, ⟨indented, .inr ⟨?_, astray⟩⟩, ?_⟩
    · exact fresh.resolve_right (by rw [passed]; exact Bool.noConfusion)
    · intro s' ended
      obtain ⟨indented', ⟨q, there⟩ | ended⟩ := ended
      · exact (there.fits rfl).elim
      · exact ⟨indented', .inr ended⟩

/-! ### Refusals -/

/-- Where a text of a string or format has been refused, none is left. -/
theorem StandsAt.spent {t : Token} (text : t = .formattedText ∨ t = .formatText) (h : σ.StandsAt source base seen s)
    (ground : g.Holds base) (may : σ.token g t = some τ) (refused : t.read? s = none) :
    ({ σ with spent := true } : Stance).StandsAt source base seen s := by
  have unspaced : ¬t.isSpaced = true := by
    rcases text with rfl | rfl <;> exact Bool.false_ne_true
  obtain ⟨frame, content, spent, may⟩ : ∃ f : Frame, f.isCode = false ∧
      (∀ p : Place, p.frames.head? = some f → t.length? p.quotes p.rest = none → p.isSpent = true) ∧
      (if σ.isIn g [f] && !σ.behind then some ({ σ with spent := false } : Stance) else none) = some τ := by
    rcases text with rfl | rfl
    · exact ⟨.text, rfl, fun p head none => by rw [Place.isSpent, head]; exact none ▸ rfl, may⟩
    · exact ⟨.format, rfl, fun p head none => by rw [Place.isSpent, head]; exact none ▸ rfl, may⟩
  obtain ⟨inside, fresh, -⟩ := isIn_of_token may
  obtain ⟨indented, ⟨p, holds⟩ | ⟨passed, -⟩⟩ := h
  · have head := holds.head_of_isIn ground inside
    obtain ⟨rest, -⟩ := holds.direct fresh (by rw [Place.isCode, head]; exact content)
    have none : t.length? p.quotes p.rest = none := by
      rw [Token.read?_eq, if_neg unspaced, Option.bind_some, Option.map_eq_none_iff] at refused
      rwa [← rest, ← holds.stands.quotes]
    exact ⟨indented, .inl ⟨p, holds.reached, holds.stands, holds.direct, holds.fits, fun _ => spent p head none,
      holds.lambda⟩⟩
  · rw [fresh] at passed
    cases passed

theorem StandsAt.refused {f : Nat} {r : Rule Phrase} (h : σ.StandsAt source base seen s) (ground : g.Holds base)
    (may : r.stance g σ = some τ) (refused : run grammar f r s = .refuse) :
    (r.refused σ).StandsAt source base seen s := by
  induction f generalizing r σ τ with
  | zero => cases refused
  | succ f ih =>
    cases r with
    | token t =>
      have none : t.read? s = none := by
        rw [run] at refused
        cases read : t.read? s with
        | none => rfl
        | some p =>
          rw [read] at refused
          cases refused
      cases t with
      | formattedText => exact h.spent (.inl rfl) ground may none
      | formatText => exact h.spent (.inr rfl) ground may none
      | _ => exact h
    | first rs =>
      cases rs with
      | nil => exact h
      | cons r rs =>
        rw [run_first_cons] at refused
        cases first : run grammar f r s with
        | accept ts s' =>
          rw [first] at refused
          cases refused
        | refuse =>
          rw [first] at refused
          cases rs with
          | nil => exact ih (r := r) h may first
          | cons r' rs =>
            obtain ⟨τ₁, now, may⟩ := Option.bind_eq_some_iff.mp may
            obtain ⟨τ₂, later, -⟩ := Option.map_eq_some_iff.mp may
            exact ih (r := .first (r' :: rs)) (ih h now first) later refused
        | starve =>
          rw [first] at refused
          cases refused
    | _ => exact h

end Stance

/-! ### Readings -/

/-- All that is asked is asked where it may be, and behind what is read it is known where the reading stands. -/
structure Keeps (source : List Char) (base : List Frame → Prop) (seen : Bool) (τ : Stance)
    (questions : List (Question × State)) (reply : Reply) : Prop where
  asked : ∀ x ∈ questions, x.1.IsAsked source x.2
  stands : ∀ ts s', reply = .accept ts s' → τ.StandsAt source base seen s'

namespace Keeps

variable {qs rs : List (Question × State)} {reply : Reply}

theorem accept (h : τ.StandsAt source base seen s) (ts : List Tree) : Keeps source base seen τ [] (.accept ts s) := by
  refine ⟨nofun, fun ts' s' same => ?_⟩
  obtain ⟨-, rfl⟩ := Reply.accept.inj same
  exact h

theorem refuse : Keeps source base seen τ [] .refuse := ⟨nofun, nofun⟩

theorem starve : Keeps source base seen τ [] .starve := ⟨nofun, nofun⟩

theorem ofOption {x : Option (List Tree × State)} (stands : ∀ ts s', x = some (ts, s') → τ.StandsAt source base seen s') :
    Keeps source base seen τ [] (Reply.ofOption x) := by
  cases x with
  | none => exact .refuse
  | some p => exact .accept (stands p.1 p.2 rfl) p.1

theorem behind (first : ∀ x ∈ qs, x.1.IsAsked source x.2) (h : Keeps source base seen τ rs reply) :
    Keeps source base seen τ (qs ++ rs) reply :=
  ⟨List.forall_mem_append.mpr ⟨first, h.asked⟩, h.stands⟩

theorem cons {q : Question} (asks : q.IsAsked source s) (h : Keeps source base seen τ qs reply) :
    Keeps source base seen τ ((q, s) :: qs) reply := ⟨List.forall_mem_cons.mpr ⟨asks, h.asked⟩, h.stands⟩

theorem weaken {outer : List Frame → Prop} {known : Bool} (h : Keeps source outer known σ qs reply)
    (weaker : ∀ s, σ.StandsAt source outer known s → τ.StandsAt source base seen s) : Keeps source base seen τ qs reply :=
  ⟨h.asked, fun ts s' same => weaker s' (h.stands ts s' same)⟩

theorem prepend (h : Keeps source base seen τ qs reply) (ts : List Tree) :
    Keeps source base seen τ qs (reply.prepend ts) := by
  refine ⟨h.asked, fun us s' same => ?_⟩
  cases reply with
  | accept vs v =>
    obtain ⟨-, rfl⟩ := Reply.accept.inj same
    exact h.stands vs v rfl
  | refuse | starve => cases same

theorem wrap (h : Keeps source base seen τ qs reply) (k : Kind) (extras : List Tree) (s : State) :
    Keeps source base seen τ qs (reply.wrap k extras s) := by
  refine ⟨h.asked, fun us s' same => ?_⟩
  cases reply with
  | accept vs v =>
    obtain ⟨-, rfl⟩ := Reply.accept.inj same
    exact h.stands vs v rfl
  | refuse | starve => cases same

theorem restore (h : Keeps source base seen τ qs reply) (r : Region) : Keeps source base seen τ qs (reply.restore r) := by
  refine ⟨h.asked, fun us s' same => ?_⟩
  cases reply with
  | accept vs v =>
    obtain ⟨-, rfl⟩ := Reply.accept.inj same
    exact (h.stands vs v rfl).within r
  | refuse | starve => cases same

/-- What keeps to what is known behind each reply keeps to it behind all of them. -/
theorem follow {outer : List Frame → Prop} {known : Bool} {k : List Tree → State → Reply} {r : Reply}
    {accepted : List Tree → State → List (Question × State)} {refused : List (Question × State)}
    (h : Keeps source outer known σ qs reply)
    (goesOn : ∀ ts s', σ.StandsAt source outer known s' → Keeps source base seen τ (accepted ts s') (k ts s'))
    (stays : reply = .refuse → Keeps source base seen τ refused r) :
    Keeps source base seen τ (qs ++ reply.later accepted refused) (reply.follow k r) := by
  apply Keeps.behind h.asked
  cases reply with
  | accept ts s' => exact goesOn ts s' (h.stands ts s' rfl)
  | refuse => exact stays rfl
  | starve => exact .starve

theorem conclude {k : List Tree → State → Reply} {r : Reply} (h : Keeps source base seen σ qs reply)
    (goesOn : ∀ ts s', σ.StandsAt source base seen s' → Keeps source base seen τ [] (k ts s'))
    (stays : Keeps source base seen τ [] r) : Keeps source base seen τ qs (reply.follow k r) := by
  rw [← List.append_nil qs]
  apply Keeps.behind h.asked
  cases reply with
  | accept ts s' => exact goesOn ts s' (h.stands ts s' rfl)
  | refuse => exact stays
  | starve => exact .starve

end Keeps

/-- What the interpreter does with some fuel keeps to what is known. -/
structure KeepsAt (source : List Char) (f : Nat) : Prop where
  run : ∀ {r g base seen σ τ s}, Ground.Holds base g → r.stance g σ = some τ → σ.StandsAt source base seen s →
    Keeps source base seen τ (asked grammar f r s) (run grammar f r s)
  many : ∀ {r g base seen round again s}, Ground.Holds base g → r.stance g round = some again →
    again.entails round = true → round.StandsAt source base seen s →
    Keeps source base seen (r.refused round) (asked grammar f (.many r) s) (Syntax.run grammar f (.many r) s)
  grow : ∀ {steps start ts g base seen round again s}, Ground.Holds base g → Rule.stanceSteps g steps round = some again →
    again.entails round = true → round.StandsAt source base seen s →
    Keeps source base seen round (askedInGrowth grammar f steps start ts s) (Syntax.grow grammar f steps start ts s)
  step : ∀ {steps start ts g base seen σ τ s}, Ground.Holds base g → Rule.stanceSteps g steps σ = some τ →
    σ.StandsAt source base seen s →
    Keeps source base seen τ (askedAtSteps grammar f steps s) (Syntax.step grammar f steps start ts s)
  finish : ∀ {ends start ts g base seen σ τ s}, Ground.Holds base g → Rule.stanceEnds g ends σ = some τ →
    σ.StandsAt source base seen s →
    Keeps source base seen τ (askedAtEnds grammar f ends s) (Syntax.finish grammar f ends start ts s)

namespace KeepsAt

variable {f : Nat} {r : Rule Phrase} {rs : List (Rule Phrase)} {υ : Stance}

theorem each (ih : KeepsAt source f) (ground : g.Holds base) (may : Rule.stanceEach g rs σ = some τ)
    (h : σ.StandsAt source base seen s) :
    Keeps source base seen τ (asked grammar (f + 1) (.each rs) s) (Syntax.run grammar (f + 1) (.each rs) s) := by
  cases rs with
  | nil =>
    obtain rfl := Option.some.inj may
    exact .accept h []
  | cons r rs =>
    obtain ⟨ρ, first, then_⟩ := Option.bind_eq_some_iff.mp may
    rw [run_each_cons, asked_each_cons]
    exact (ih.run ground first h).follow (fun ts s' h => (ih.run (r := .each rs) ground then_ h).prepend ts) fun _ => .refuse

theorem first (ih : KeepsAt source f) (ground : g.Holds base) (may : Rule.stanceFirst g rs σ = some τ)
    (h : σ.StandsAt source base seen s) :
    Keeps source base seen τ (asked grammar (f + 1) (.first rs) s) (Syntax.run grammar (f + 1) (.first rs) s) := by
  cases rs with
  | nil => cases may
  | cons r rs =>
    rw [run_first_cons, asked_first_cons]
    cases rs with
    | nil =>
      refine (ih.run ground may h).follow (fun ts s' h => .accept h ts) fun _ => ?_
      cases f with
      | zero => exact .starve
      | succ f => exact .refuse
    | cons r' rs =>
      obtain ⟨ρ, now, may⟩ := Option.bind_eq_some_iff.mp may
      obtain ⟨υ, later, rfl⟩ := Option.map_eq_some_iff.mp may
      refine (ih.run ground now h).follow (fun ts s' h => .accept (h.join_left υ) ts) fun refused => ?_
      exact (ih.run (r := .first (r' :: rs)) ground later (h.refused ground now refused)).weaken fun _ h => h.join_right ρ

theorem round (ih : KeepsAt source f) {round again : Stance} (ground : g.Holds base) (may : r.stance g round = some again)
    (entails : again.entails round = true) (h : round.StandsAt source base seen s) :
    Keeps source base seen (r.refused round) (asked grammar (f + 1) (.many r) s) (Syntax.run grammar (f + 1) (.many r) s) := by
  rw [run_many, asked_many]
  refine (ih.run ground may h).follow (fun ts s' h => ?_) fun refused => .accept (h.refused ground may refused) []
  exact (ih.many ground may entails (h.of_entails entails)).prepend ts

/-- What holds behind any number of rounds holds before the first, and again behind each. -/
theorem exists_of_loop {body : Stance → Option Stance} (may : σ.loop body = some τ) :
    ∃ once again, τ = σ.join once ∧ body τ = some again ∧ again.entails τ = true := by
  obtain ⟨once, first, may⟩ := Option.bind_eq_some_iff.mp may
  obtain ⟨again, next, may⟩ := Option.bind_eq_some_iff.mp may
  obtain ⟨entails, same⟩ := Option.ite_none_right_eq_some.mp may
  obtain rfl := Option.some.inj same
  exact ⟨once, again, rfl, next, entails⟩

theorem lead {k : List Tree → State → Reply} {accepted : List Tree → State → List (Question × State)}
    (ground : g.Holds base) (may : (σ.layout g .lead).bind (r.stance g) = some τ) (h : σ.StandsAt source base seen s)
    (goesOn : ∀ ρ extras s', r.stance g ρ = some τ → ρ.StandsAt source base seen s' →
      Keeps source base seen υ (accepted extras s') (k extras s')) :
    Keeps source base seen υ ((.layout .lead, s) :: (Reply.ofOption s.lead?).later accepted [])
      ((Reply.ofOption s.lead?).follow k .refuse) := by
  obtain ⟨ρ, led, may⟩ := Option.bind_eq_some_iff.mp may
  obtain ⟨asks, stands⟩ := h.lead ground led
  apply Keeps.cons asks
  cases read : s.lead? with
  | none => exact .refuse
  | some p => exact goesOn ρ p.1 p.2 may (stands p.1 p.2 read)

theorem run_succ (ih : KeepsAt source f) (ground : g.Holds base) (may : r.stance g σ = some τ)
    (h : σ.StandsAt source base seen s) :
    Keeps source base seen τ (asked grammar (f + 1) r s) (Syntax.run grammar (f + 1) r s) := by
  cases r with
  | token t =>
    obtain ⟨asks, stands⟩ := h.token ground may
    exact .behind (List.forall_mem_singleton.mpr asks) (.ofOption stands)
  | layout l =>
    obtain ⟨asks, stands⟩ := h.layout ground may
    exact .behind (List.forall_mem_singleton.mpr asks) (.ofOption stands)
  | phrase n =>
    obtain ⟨outer, inside, entry, leave⟩ := h.enter ground may
    obtain ⟨ends, keeps, entails⟩ := (Option.any_eq_true _ _).mp (keepsTo_profile n)
    exact (ih.run inside keeps entry).weaken fun s' h => leave s' (h.of_entails entails)
  | each rs => exact ih.each ground may h
  | first rs => exact ih.first ground may h
  | many r =>
    obtain ⟨round, looped, rfl⟩ := Option.map_eq_some_iff.mp may
    obtain ⟨once, again, rfl, may, entails⟩ := exists_of_loop looped
    exact ih.round ground may entails (h.join_left once)
  | ahead r =>
    obtain ⟨ρ, inner, rfl⟩ := Option.map_eq_some_iff.mp may
    rw [run_ahead]
    exact (ih.run (r := r) ground inner h).conclude (fun _ _ _ => .accept h []) .refuse
  | absent r =>
    obtain ⟨ρ, inner, rfl⟩ := Option.map_eq_some_iff.mp may
    rw [run_absent]
    exact (ih.run (r := r) ground inner h).conclude (fun _ _ _ => .refuse) (.accept h [])
  | within k r => exact (ih.run (r := r) ground may (h.within k)).restore s.region
  | node k r =>
    rw [run_node, asked_node]
    exact lead ground may h fun ρ extras s' may h => (ih.run ground may h).wrap k extras s'
  | inRole ro r =>
    rw [run_inRole]
    exact (ih.run (r := r) ground may h).conclude (fun _ _ h => .accept h _) .refuse
  | only ks r =>
    rw [run_only]
    refine (ih.run (r := r) ground may h).conclude (fun ts s' h => ?_) .refuse
    split
    · exact .accept h ts
    · exact .refuse
  | chain front steps =>
    obtain ⟨σ', led, looped⟩ := Option.bind_eq_some_iff.mp may
    obtain ⟨once, again, rfl, next, entails⟩ := exists_of_loop looped
    rw [run_chain, asked_chain]
    refine lead ground led h fun ρ extras s' first h => ?_
    refine (ih.run ground first h).follow (fun ts t h => ?_) fun _ => .refuse
    exact (ih.grow ground next entails (h.join_left once)).prepend extras
  | choose front ends =>
    obtain ⟨σ', led, ended⟩ := Option.bind_eq_some_iff.mp may
    rw [run_choose, asked_choose]
    refine lead ground led h fun ρ extras s' first h => ?_
    exact (ih.run ground first h).follow (fun ts t h => (ih.finish ground ended h).prepend extras) fun _ => .refuse

variable {steps : List (Kind × Option Role × Rule Phrase)} {ends : List (Kind × Rule Phrase)} {start : State} {ts : List Tree}

theorem grow_succ (ih : KeepsAt source f) {round again : Stance} (ground : g.Holds base)
    (may : Rule.stanceSteps g steps round = some again) (entails : again.entails round = true)
    (h : round.StandsAt source base seen s) :
    Keeps source base seen round (askedInGrowth grammar (f + 1) steps start ts s)
      (Syntax.grow grammar (f + 1) steps start ts s) := by
  rw [Syntax.grow_succ, askedInGrowth_succ]
  exact (ih.step ground may h).follow (fun us s' h => ih.grow ground may entails (h.of_entails entails))
    fun _ => .accept h ts

theorem step_succ (ih : KeepsAt source f) (ground : g.Holds base) (may : Rule.stanceSteps g steps σ = some τ)
    (h : σ.StandsAt source base seen s) :
    Keeps source base seen τ (askedAtSteps grammar (f + 1) steps s) (Syntax.step grammar (f + 1) steps start ts s) := by
  cases steps with
  | nil => cases may
  | cons p steps =>
    obtain ⟨k, ro, r⟩ := p
    obtain ⟨ρ, first, now, later⟩ : ∃ ρ, r.stance g σ = some ρ ∧
        (∀ s, ρ.StandsAt source base seen s → τ.StandsAt source base seen s) ∧
        Keeps source base seen τ (askedAtSteps grammar f steps s) (Syntax.step grammar f steps start ts s) := by
      cases steps with
      | nil =>
        refine ⟨τ, may, fun _ => id, ?_⟩
        cases f with
        | zero => exact .starve
        | succ f => exact .refuse
      | cons q steps =>
        obtain ⟨ρ, now, may⟩ := Option.bind_eq_some_iff.mp may
        obtain ⟨υ, later, rfl⟩ := Option.map_eq_some_iff.mp may
        exact ⟨ρ, now, fun _ h => h.join_left υ, (ih.step ground later h).weaken fun _ h => h.join_right ρ⟩
    rw [step_cons, askedAtSteps_cons]
    exact (ih.run ground first h).follow (fun us s' h => (Keeps.accept (now s' h) _).wrap k [] start) fun _ => later

theorem finish_succ (ih : KeepsAt source f) (ground : g.Holds base) (may : Rule.stanceEnds g ends σ = some τ)
    (h : σ.StandsAt source base seen s) :
    Keeps source base seen τ (askedAtEnds grammar (f + 1) ends s) (Syntax.finish grammar (f + 1) ends start ts s) := by
  cases ends with
  | nil => cases may
  | cons p ends =>
    obtain ⟨k, r⟩ := p
    obtain ⟨ρ, first, now, later⟩ : ∃ ρ, r.stance g σ = some ρ ∧
        (∀ s, ρ.StandsAt source base seen s → τ.StandsAt source base seen s) ∧
        Keeps source base seen τ (askedAtEnds grammar f ends s) (Syntax.finish grammar f ends start ts s) := by
      cases ends with
      | nil =>
        refine ⟨τ, may, fun _ => id, ?_⟩
        cases f with
        | zero => exact .starve
        | succ f => exact .refuse
      | cons q ends =>
        obtain ⟨ρ, now, may⟩ := Option.bind_eq_some_iff.mp may
        obtain ⟨υ, later, rfl⟩ := Option.map_eq_some_iff.mp may
        exact ⟨ρ, now, fun _ h => h.join_left υ, (ih.finish ground later h).weaken fun _ h => h.join_right ρ⟩
    rw [finish_cons, askedAtEnds_cons]
    exact (ih.run ground first h).follow (fun us s' h => (Keeps.accept (now s' h) _).wrap k [] start) fun _ => later

end KeepsAt

theorem keepsAt (source : List Char) (f : Nat) : KeepsAt source f := by
  induction f with
  | zero =>
    exact ⟨fun _ _ _ => .starve, fun _ _ _ _ => .starve, fun _ _ _ _ => .starve, fun _ _ _ => .starve, fun _ _ _ => .starve⟩
  | succ f ih => exact ⟨ih.run_succ, ih.round, ih.grow_succ, ih.step_succ, ih.finish_succ⟩

/-- Whatever is asked in the reading of a cell is asked where it may be asked. -/
theorem isAsked (source : List Char) (fuel : Nat) :
    ∀ x ∈ asked grammar fuel cell { rest := source }, x.1.IsAsked source x.2 := by
  obtain ⟨τ, may⟩ := Option.isSome_iff_exists.mp keepsTo_cell
  have outside : Ground.outside.Holds (· = []) := fun fs same => same
  have start : ({} : Stance).StandsAt source (· = []) false { rest := source } := by
    refine ⟨fun n mem => absurd mem List.not_mem_nil, .inl ⟨_, .start, ⟨.inl ⟨rfl, rfl⟩, rfl⟩, ?_, ?_, ?_, ?_⟩⟩
    · exact fun _ _ => ⟨rfl, rfl⟩
    · exact fun _ => rfl
    · exact fun _ => rfl
    · exact fun known => absurd known Bool.false_ne_true
  exact ((keepsAt source fuel).run outside may start).asked

end Footprint.Syntax
