import Footprint.Syntax.Rule

/-!
# What rules say in the end

A rule says something of a text once some amount of fuel is enough to say it, and then more fuel makes
no difference. So the replies of parts, each with fuel of its own, make up the reply of the whole, rule
by rule, and no statement about a text needs to count fuel.
-/

namespace Footprint.Syntax

variable {N : Type} {rules : N → Rule N}

/-- Going on from a reply: behind what is read, or where nothing is. -/
def Reply.follow (reply : Reply) (accepted : List Tree → State → Reply) (refused : Reply) : Reply :=
  match reply with
  | accept ts s => accepted ts s
  | refuse => refused
  | starve => starve

@[simp] theorem Reply.follow_accept (k : List Tree → State → Reply) (r : Reply) (ts : List Tree) (s : State) :
    (accept ts s).follow k r = k ts s := rfl

@[simp] theorem Reply.follow_refuse (k : List Tree → State → Reply) (r : Reply) : refuse.follow k r = r := rfl

@[simp] theorem Reply.follow_starve (k : List Tree → State → Reply) (r : Reply) : starve.follow k r = starve := rfl

section Inversion

variable {reply r : Reply} {k : List Tree → State → Reply} {ts us : List Tree} {s : State}

theorem Reply.eq_some_of_ofOption {x : Option (List Tree × State)} (h : ofOption x = accept ts s) :
    x = some (ts, s) := by
  cases x with
  | none => cases h
  | some p =>
    obtain ⟨rfl, rfl⟩ := accept.inj h
    rfl

theorem Reply.follow_eq_accept (h : reply.follow k r = accept ts s) :
    (∃ us u, reply = accept us u ∧ k us u = accept ts s) ∨ reply = refuse ∧ r = accept ts s := by
  cases reply with
  | accept us u => exact .inl ⟨us, u, rfl, h⟩
  | refuse => exact .inr ⟨rfl, h⟩
  | starve => cases h

theorem Reply.exists_of_follow (h : reply.follow k refuse = accept ts s) :
    ∃ us u, reply = accept us u ∧ k us u = accept ts s := by
  rcases follow_eq_accept h with read | ⟨-, none⟩
  · exact read
  · cases none

theorem Reply.exists_of_prepend (h : reply.prepend us = accept ts s) : ∃ vs, reply = accept vs s ∧ ts = us ++ vs := by
  cases reply with
  | accept vs u =>
    obtain ⟨rfl, rfl⟩ := accept.inj h
    exact ⟨vs, rfl, rfl⟩
  | refuse => cases h
  | starve => cases h

end Inversion

/-! What a rule says follows from what its parts say, and first of all from what it finds before a token. -/

section Equations

variable (f : Nat) (r : Rule N) (s start : State) (ts : List Tree)

theorem run_each_cons (rs : List (Rule N)) :
    run rules (f + 1) (.each (r :: rs)) s =
      (run rules f r s).follow (fun ts s' => (run rules f (.each rs) s').prepend ts) .refuse := by
  -- One step of evaluation shows which part is asked.
  conv => lhs; whnf
  cases run rules f r s <;> rfl

theorem run_first_cons (rs : List (Rule N)) :
    run rules (f + 1) (.first (r :: rs)) s = (run rules f r s).follow .accept (run rules f (.first rs) s) := by
  conv => lhs; whnf
  cases run rules f r s <;> rfl

theorem run_many :
    run rules (f + 1) (.many r) s =
      (run rules f r s).follow (fun ts s' => (run rules f (.many r) s').prepend ts) (.accept [] s) := by
  conv => lhs; whnf
  cases run rules f r s <;> rfl

theorem run_ahead :
    run rules (f + 1) (.ahead r) s = (run rules f r s).follow (fun _ _ => .accept [] s) .refuse := by
  conv => lhs; whnf
  cases run rules f r s <;> rfl

theorem run_absent :
    run rules (f + 1) (.absent r) s = (run rules f r s).follow (fun _ _ => .refuse) (.accept [] s) := by
  conv => lhs; whnf
  cases run rules f r s <;> rfl

theorem run_within (g : Region) :
    run rules (f + 1) (.within g r) s = (run rules f r { s with region := g }).restore s.region := rfl

theorem run_node (k : Kind) :
    run rules (f + 1) (.node k r) s =
      (Reply.ofOption s.lead?).follow (fun extras s' => (run rules f r s').wrap k extras s') .refuse := by
  conv => lhs; whnf
  cases s.lead? <;> rfl

theorem run_inRole (ro : Role) :
    run rules (f + 1) (.inRole ro r) s =
      (run rules f r s).follow (fun ts s' => .accept (Tree.assign ro ts) s') .refuse := by
  conv => lhs; whnf
  cases run rules f r s <;> rfl

theorem run_only (ks : List Kind) :
    run rules (f + 1) (.only ks r) s =
      (run rules f r s).follow
        (fun ts s' => if (Tree.soleKind? ts).any ks.contains then .accept ts s' else .refuse) .refuse := by
  conv => lhs; whnf
  cases run rules f r s <;> rfl

theorem run_chain (steps : List (Kind × Option Role × Rule N)) :
    run rules (f + 1) (.chain r steps) s =
      (Reply.ofOption s.lead?).follow (fun extras s' =>
        (run rules f r s').follow (fun ts t => (grow rules f steps s' ts t).prepend extras) .refuse) .refuse := by
  conv => lhs; whnf
  cases s.lead? with
  | none => rfl
  | some p =>
    dsimp only [Reply.ofOption, Reply.follow_accept]
    cases run rules f r p.2 <;> rfl

theorem run_choose (ends : List (Kind × Rule N)) :
    run rules (f + 1) (.choose r ends) s =
      (Reply.ofOption s.lead?).follow (fun extras s' =>
        (run rules f r s').follow (fun ts t => (finish rules f ends s' ts t).prepend extras) .refuse) .refuse := by
  conv => lhs; whnf
  cases s.lead? with
  | none => rfl
  | some p =>
    dsimp only [Reply.ofOption, Reply.follow_accept]
    cases run rules f r p.2 <;> rfl

theorem grow_succ (steps : List (Kind × Option Role × Rule N)) :
    grow rules (f + 1) steps start ts s =
      (step rules f steps start ts s).follow (fun us s' => grow rules f steps start us s') (.accept ts s) := by
  conv => lhs; whnf
  cases step rules f steps start ts s <;> rfl

theorem step_cons (k : Kind) (ro : Option Role) (steps : List (Kind × Option Role × Rule N)) :
    step rules (f + 1) ((k, ro, r) :: steps) start ts s =
      (run rules f r s).follow
        (fun us s' => Reply.wrap k [] start (.accept ((ro.elim ts fun ro => Tree.assign ro ts) ++ us) s'))
        (step rules f steps start ts s) := by
  conv => lhs; whnf
  cases run rules f r s <;> rfl

theorem finish_cons (k : Kind) (ends : List (Kind × Rule N)) :
    finish rules (f + 1) ((k, r) :: ends) start ts s =
      (run rules f r s).follow (fun us s' => Reply.wrap k [] start (.accept (ts ++ us) s'))
        (finish rules f ends start ts s) := by
  conv => lhs; whnf
  cases run rules f r s <;> rfl

end Equations

section Fuel

/-- A reply stays as it is with more fuel, unless fuel was what it lacked. -/
def Reply.Stays (before after : Reply) : Prop := before ≠ .starve → after = before

namespace Reply.Stays

variable {a b : Reply}

theorem refl (reply : Reply) : reply.Stays reply := fun _ => rfl

theorem prepend (h : a.Stays b) (ts : List Tree) : (a.prepend ts).Stays (b.prepend ts) := by
  intro fed
  rw [h (by rintro rfl; exact fed rfl)]

theorem wrap (h : a.Stays b) (k : Kind) (extras : List Tree) (s : State) :
    (a.wrap k extras s).Stays (b.wrap k extras s) := by
  intro fed
  rw [h (by rintro rfl; exact fed rfl)]

theorem restore (h : a.Stays b) (g : Region) : (a.restore g).Stays (b.restore g) := by
  intro fed
  rw [h (by rintro rfl; exact fed rfl)]

theorem follow (h : a.Stays b) {k k' : List Tree → State → Reply} {r r' : Reply}
    (accepted : ∀ ts s, (k ts s).Stays (k' ts s)) (refused : r.Stays r') : (a.follow k r).Stays (b.follow k' r') := by
  intro fed
  rw [h (by rintro rfl; exact fed rfl)]
  cases a with
  | accept ts s => exact accepted ts s fed
  | refuse => exact refused fed
  | starve => exact absurd rfl fed

end Reply.Stays

/-- What the interpreter says with some fuel stays with one unit more. -/
structure StaysAt (rules : N → Rule N) (f : Nat) : Prop where
  run : ∀ r s, (run rules f r s).Stays (run rules (f + 1) r s)
  grow : ∀ steps start ts s, (grow rules f steps start ts s).Stays (grow rules (f + 1) steps start ts s)
  step : ∀ steps start ts s, (step rules f steps start ts s).Stays (step rules (f + 1) steps start ts s)
  finish : ∀ ends start ts s,
    (finish rules f ends start ts s).Stays (finish rules (f + 1) ends start ts s)

namespace StaysAt

variable {f : Nat}

theorem run_succ (ih : StaysAt rules f) (r : Rule N) (s : State) :
    (Syntax.run rules (f + 1) r s).Stays (Syntax.run rules (f + 2) r s) := by
  cases r with
  | token t => exact .refl _
  | layout l => exact .refl _
  | phrase n => exact ih.run (rules n) s
  | each rs =>
    cases rs with
    | nil => exact .refl _
    | cons r rs =>
      rw [run_each_cons, run_each_cons]
      exact (ih.run r s).follow (fun ts s' => (ih.run (.each rs) s').prepend ts) (.refl _)
  | first rs =>
    cases rs with
    | nil => exact .refl _
    | cons r rs =>
      rw [run_first_cons, run_first_cons]
      exact (ih.run r s).follow (fun _ _ => .refl _) (ih.run (.first rs) s)
  | many r =>
    rw [run_many, run_many]
    exact (ih.run r s).follow (fun ts s' => (ih.run (.many r) s').prepend ts) (.refl _)
  | ahead r =>
    rw [run_ahead, run_ahead]
    exact (ih.run r s).follow (fun _ _ => .refl _) (.refl _)
  | absent r =>
    rw [run_absent, run_absent]
    exact (ih.run r s).follow (fun _ _ => .refl _) (.refl _)
  | within g r => exact (ih.run r _).restore s.region
  | node k r =>
    rw [run_node, run_node]
    exact (Reply.Stays.refl _).follow (fun extras s' => (ih.run r s').wrap k extras s') (.refl _)
  | inRole ro r =>
    rw [run_inRole, run_inRole]
    exact (ih.run r s).follow (fun _ _ => .refl _) (.refl _)
  | only ks r =>
    rw [run_only, run_only]
    exact (ih.run r s).follow (fun _ _ => .refl _) (.refl _)
  | chain base steps =>
    rw [run_chain, run_chain]
    refine (Reply.Stays.refl _).follow (fun extras s' => ?_) (.refl _)
    exact (ih.run base s').follow (fun ts t => (ih.grow steps s' ts t).prepend extras) (.refl _)
  | choose front ends =>
    rw [run_choose, run_choose]
    refine (Reply.Stays.refl _).follow (fun extras s' => ?_) (.refl _)
    exact (ih.run front s').follow (fun ts t => (ih.finish ends s' ts t).prepend extras) (.refl _)

theorem grow_succ (ih : StaysAt rules f) (steps : List (Kind × Option Role × Rule N)) (start : State)
    (ts : List Tree) (s : State) :
    (Syntax.grow rules (f + 1) steps start ts s).Stays (Syntax.grow rules (f + 2) steps start ts s) := by
  rw [Syntax.grow_succ, Syntax.grow_succ]
  exact (ih.step steps start ts s).follow (fun us s' => ih.grow steps start us s') (.refl _)

theorem step_succ (ih : StaysAt rules f) (steps : List (Kind × Option Role × Rule N)) (start : State)
    (ts : List Tree) (s : State) :
    (Syntax.step rules (f + 1) steps start ts s).Stays (Syntax.step rules (f + 2) steps start ts s) := by
  cases steps with
  | nil => exact .refl _
  | cons p steps =>
    obtain ⟨k, ro, r⟩ := p
    rw [step_cons, step_cons]
    exact (ih.run r s).follow (fun _ _ => .refl _) (ih.step steps start ts s)

theorem finish_succ (ih : StaysAt rules f) (ends : List (Kind × Rule N)) (start : State)
    (ts : List Tree) (s : State) :
    (Syntax.finish rules (f + 1) ends start ts s).Stays
      (Syntax.finish rules (f + 2) ends start ts s) := by
  cases ends with
  | nil => exact .refl _
  | cons p ends =>
    obtain ⟨k, r⟩ := p
    rw [finish_cons, finish_cons]
    exact (ih.run r s).follow (fun _ _ => .refl _) (ih.finish ends start ts s)

end StaysAt

theorem staysAt (f : Nat) : StaysAt rules f := by
  induction f with
  | zero =>
    exact ⟨fun _ _ h => absurd rfl h, fun _ _ _ _ h => absurd rfl h, fun _ _ _ _ h => absurd rfl h,
      fun _ _ _ _ h => absurd rfl h⟩
  | succ f ih => exact ⟨ih.run_succ, ih.grow_succ, ih.step_succ, ih.finish_succ⟩

/-- What is said with some fuel is said with more. -/
theorem run_of_le {f g : Nat} (le : f ≤ g) {r : Rule N} {s : State} (fed : run rules f r s ≠ .starve) :
    run rules g r s = run rules f r s := by
  induction le with
  | refl => rfl
  | step _ ih => rw [(staysAt _).run r s (by rw [ih]; exact fed), ih]

end Fuel

/-- What holds with enough fuel, and with any more. -/
def Eventually (P : Nat → Prop) : Prop := ∃ f, ∀ g, f ≤ g → P g

theorem Eventually.of_succ {P : Nat → Prop} (h : ∀ f, P (f + 1)) : Eventually P := by
  refine ⟨1, fun g le => ?_⟩
  obtain ⟨f, rfl⟩ : ∃ f, g = f + 1 := ⟨g - 1, by omega⟩
  exact h f

theorem Eventually.succ {P Q : Nat → Prop} (first : Eventually P) (h : ∀ f, P f → Q (f + 1)) :
    Eventually Q := by
  obtain ⟨f, enough⟩ := first
  refine ⟨f + 1, fun g le => ?_⟩
  obtain ⟨g, rfl⟩ : ∃ g', g = g' + 1 := ⟨g - 1, by omega⟩
  exact h g (enough g (by omega))

theorem Eventually.succ₂ {P Q R : Nat → Prop} (first : Eventually P) (second : Eventually Q)
    (h : ∀ f, P f → Q f → R (f + 1)) : Eventually R := by
  obtain ⟨f, enough⟩ := first
  obtain ⟨f', enough'⟩ := second
  refine ⟨max f f' + 1, fun g le => ?_⟩
  obtain ⟨g, rfl⟩ : ∃ g', g = g' + 1 := ⟨g - 1, by omega⟩
  exact h g (enough g (by omega)) (enough' g (by omega))

variable (rules) in
/-- A rule reads a prefix of the text, as this forest, up to that state. -/
def Accepts (r : Rule N) (s : State) (ts : List Tree) (s' : State) : Prop :=
  Eventually fun f => run rules f r s = .accept ts s'

variable (rules) in
def Refuses (r : Rule N) (s : State) : Prop :=
  Eventually fun f => run rules f r s = .refuse

variable (rules) in
def Grows (steps : List (Kind × Option Role × Rule N)) (start : State) (ts : List Tree) (s : State)
    (us : List Tree) (s' : State) : Prop :=
  Eventually fun f => grow rules f steps start ts s = .accept us s'

/-- What is said with the fuel at hand, unless that is too little. -/
theorem Accepts.run_eq {r : Rule N} {s s' : State} {ts : List Tree} (h : Accepts rules r s ts s') {f : Nat}
    (fed : run rules f r s ≠ .starve) : run rules f r s = .accept ts s' := by
  obtain ⟨g, enough⟩ := h
  rw [← run_of_le (Nat.le_max_left f g) fed, enough _ (Nat.le_max_right f g)]

variable {r : Rule N} {rs : List (Rule N)} {s s' s'' t : State} {ts us extras : List Tree} {k : Kind}

section Accepts

theorem accepts_token {t : Token} (h : t.read? s = some (ts, s')) : Accepts rules (.token t) s ts s' :=
  .of_succ fun f => by rw [run, h, Reply.ofOption]

theorem accepts_layout {l : Layout} (h : l.read? s = some (ts, s')) : Accepts rules (.layout l) s ts s' :=
  .of_succ fun f => by rw [run, h, Reply.ofOption]

theorem accepts_phrase {n : N} (h : Accepts rules (rules n) s ts s') : Accepts rules (.phrase n) s ts s' :=
  h.succ fun _ h => h

theorem accepts_nil : Accepts rules (.each []) s [] s := .of_succ fun _ => rfl

theorem accepts_cons (head : Accepts rules r s ts s') (tail : Accepts rules (.each rs) s' us s'') :
    Accepts rules (.each (r :: rs)) s (ts ++ us) s'' :=
  head.succ₂ tail fun f head tail => by rw [run_each_cons, head, Reply.follow_accept, tail, Reply.prepend]

theorem accepts_singleton (h : Accepts rules r s ts s') : Accepts rules (.each [r]) s ts s' := by
  have := accepts_cons h accepts_nil
  rwa [List.append_nil] at this

theorem accepts_first (h : Accepts rules r s ts s') : Accepts rules (.first (r :: rs)) s ts s' :=
  h.succ fun f h => by rw [run_first_cons, h, Reply.follow_accept]

theorem accepts_later (head : Refuses rules r s) (tail : Accepts rules (.first rs) s ts s') :
    Accepts rules (.first (r :: rs)) s ts s' :=
  head.succ₂ tail fun f head tail => by rw [run_first_cons, head, Reply.follow_refuse, tail]

theorem accepts_many_end (h : Refuses rules r s) : Accepts rules (.many r) s [] s :=
  h.succ fun f h => by rw [run_many, h, Reply.follow_refuse]

theorem accepts_many_cons (head : Accepts rules r s ts s') (tail : Accepts rules (.many r) s' us s'') :
    Accepts rules (.many r) s (ts ++ us) s'' :=
  head.succ₂ tail fun f head tail => by rw [run_many, head, Reply.follow_accept, tail, Reply.prepend]

theorem accepts_ahead (h : Accepts rules r s ts s') : Accepts rules (.ahead r) s [] s :=
  h.succ fun f h => by rw [run_ahead, h, Reply.follow_accept]

theorem accepts_absent (h : Refuses rules r s) : Accepts rules (.absent r) s [] s :=
  h.succ fun f h => by rw [run_absent, h, Reply.follow_refuse]

theorem accepts_within {g : Region} (h : Accepts rules r { s with region := g } ts s') :
    Accepts rules (.within g r) s ts { s' with region := s.region } :=
  h.succ fun f h => by rw [run_within, h, Reply.restore]

theorem accepts_node (lead : s.lead? = some (extras, s')) (h : Accepts rules r s' ts t) :
    Accepts rules (.node k r) s (extras ++
      [.node k none s'.here (if k.isSpelled then s'.spelling t else []) ts]) t :=
  h.succ fun f h => by rw [run_node, lead, Reply.ofOption, Reply.follow_accept, h, Reply.wrap]

theorem accepts_inRole {ro : Role} (h : Accepts rules r s ts s') :
    Accepts rules (.inRole ro r) s (Tree.assign ro ts) s' :=
  h.succ fun f h => by rw [run_inRole, h, Reply.follow_accept]

theorem accepts_only {ks : List Kind} (h : Accepts rules r s ts s')
    (kind : (Tree.soleKind? ts).any ks.contains = true) : Accepts rules (.only ks r) s ts s' :=
  h.succ fun f h => by rw [run_only, h, Reply.follow_accept, if_pos kind]

theorem accepts_chain {steps : List (Kind × Option Role × Rule N)} (lead : s.lead? = some (extras, s'))
    (base : Accepts rules r s' ts t) (h : Grows rules steps s' ts t us s'') :
    Accepts rules (.chain r steps) s (extras ++ us) s'' :=
  base.succ₂ h fun f base h => by
    rw [run_chain, lead, Reply.ofOption, Reply.follow_accept, base, Reply.follow_accept, h, Reply.prepend]

variable {steps : List (Kind × Option Role × Rule N)} {start : State}

theorem accepts_chain_behind (lead : s.lead? = some (extras, s')) (again : s'.lead? = some ([], s'))
    (h : Accepts rules (.chain r steps) s' ts t) : Accepts rules (.chain r steps) s (extras ++ ts) t := by
  have prepended (f : Nat) :
      run rules (f + 1) (.chain r steps) s = (run rules (f + 1) (.chain r steps) s').prepend extras := by
    rw [run_chain, run_chain, lead, again, Reply.ofOption, Reply.ofOption, Reply.follow_accept, Reply.follow_accept]
    cases run rules f r s' with
    | accept us u =>
      rw [Reply.follow_accept, Reply.follow_accept]
      cases grow rules f steps s' us u <;> rfl
    | refuse => rfl
    | starve => rfl
  obtain ⟨f, enough⟩ := h
  refine ⟨f + 1, fun g le => ?_⟩
  obtain ⟨g, rfl⟩ : ∃ g', g = g' + 1 := ⟨g - 1, by omega⟩
  have accepted : run rules (g + 1) (.chain r steps) s' = .accept ts t := enough (g + 1) (by omega)
  rw [prepended, accepted, Reply.prepend]

def RefuseAll (rules : N → Rule N) (s : State) (rs : List (Rule N)) : Prop := ∀ r ∈ rs, Refuses rules r s

theorem accepts_first_append {before after : List (Rule N)} (refused : RefuseAll rules s before)
    (h : Accepts rules (.first after) s ts s') : Accepts rules (.first (before ++ after)) s ts s' := by
  induction before with
  | nil => exact h
  | cons r before ih =>
    rw [RefuseAll, List.forall_mem_cons] at refused
    exact accepts_later refused.1 (ih refused.2)

theorem eventually_step_refuse (h : RefuseAll rules s (steps.map (·.2.2))) :
    Eventually fun f => step rules f steps start ts s = .refuse := by
  induction steps with
  | nil => exact .of_succ fun _ => rfl
  | cons p steps ih =>
    rw [RefuseAll, List.map_cons, List.forall_mem_cons] at h
    exact h.1.succ₂ (ih h.2) fun f head tail => by rw [step_cons, head, Reply.follow_refuse, tail]

theorem grows_end (h : RefuseAll rules s (steps.map (·.2.2))) : Grows rules steps start ts s ts s :=
  (eventually_step_refuse h).succ fun f h => by rw [grow_succ, h, Reply.follow_refuse]

theorem grows_step (before : List (Kind × Option Role × Rule N)) {after : List (Kind × Option Role × Rule N)}
    {ro : Option Role}
    (refused : RefuseAll rules s (before.map (·.2.2))) (h : Accepts rules r s us s')
    (further : Grows rules (before ++ (k, ro, r) :: after) start
      [.node k none start.here (if k.isSpelled then start.spelling s' else [])
        ((ro.elim ts fun ro => Tree.assign ro ts) ++ us)] s' extras t) :
    Grows rules (before ++ (k, ro, r) :: after) start ts s extras t := by
  have taken : Eventually fun f => step rules f (before ++ (k, ro, r) :: after) start ts s =
      .accept [.node k none start.here (if k.isSpelled then start.spelling s' else [])
        ((ro.elim ts fun ro => Tree.assign ro ts) ++ us)] s' := by
    clear further
    induction before with
    | nil => exact h.succ fun f h => by rw [List.nil_append, step_cons, h]; rfl
    | cons p before ih =>
      rw [RefuseAll, List.map_cons, List.forall_mem_cons] at refused
      exact refused.1.succ₂ (ih refused.2) fun f head tail => by
        rw [List.cons_append, step_cons, head, Reply.follow_refuse, tail]
  exact taken.succ₂ further fun f taken further => by rw [grow_succ, taken, Reply.follow_accept, further]

variable {front : Rule N} {before after : List (Kind × Rule N)}

theorem accepts_choose (lead : s.lead? = some (extras, s')) (base : Accepts rules front s' ts t)
    (refused : RefuseAll rules t (before.map (·.2))) (h : Accepts rules r t us s'') :
    Accepts rules (.choose front (before ++ (k, r) :: after)) s
      (extras ++ [.node k none s'.here (if k.isSpelled then s'.spelling s'' else []) (ts ++ us)]) s'' := by
  have taken : Eventually fun f => finish rules f (before ++ (k, r) :: after) s' ts t =
      .accept [.node k none s'.here (if k.isSpelled then s'.spelling s'' else []) (ts ++ us)] s'' := by
    induction before with
    | nil => exact h.succ fun f h => by rw [List.nil_append, finish_cons, h]; rfl
    | cons p before ih =>
      rw [RefuseAll, List.map_cons, List.forall_mem_cons] at refused
      exact refused.1.succ₂ (ih refused.2) fun f head tail => by
        rw [List.cons_append, finish_cons, head, Reply.follow_refuse, tail]
  exact base.succ₂ taken fun f base taken => by
    rw [run_choose, lead, Reply.ofOption, Reply.follow_accept, base, Reply.follow_accept, taken, Reply.prepend]

end Accepts

section Refuses

theorem refuses_token {t : Token} (h : t.read? s = none) : Refuses rules (.token t) s :=
  .of_succ fun f => by rw [run, h, Reply.ofOption]

theorem refuses_layout {l : Layout} (h : l.read? s = none) : Refuses rules (.layout l) s :=
  .of_succ fun f => by rw [run, h, Reply.ofOption]

theorem refuses_phrase {n : N} (h : Refuses rules (rules n) s) : Refuses rules (.phrase n) s :=
  h.succ fun _ h => h

theorem refuses_head (h : Refuses rules r s) : Refuses rules (.each (r :: rs)) s :=
  h.succ fun f h => by rw [run_each_cons, h, Reply.follow_refuse]

theorem refuses_tail (head : Accepts rules r s ts s') (tail : Refuses rules (.each rs) s') :
    Refuses rules (.each (r :: rs)) s :=
  head.succ₂ tail fun f head tail => by
    rw [run_each_cons, head, Reply.follow_accept, tail]
    rfl

theorem refuses_none : Refuses rules (.first []) s := .of_succ fun _ => rfl

theorem refuses_first (head : Refuses rules r s) (tail : Refuses rules (.first rs) s) :
    Refuses rules (.first (r :: rs)) s :=
  head.succ₂ tail fun f head tail => by rw [run_first_cons, head, Reply.follow_refuse, tail]

theorem refuses_ahead (h : Refuses rules r s) : Refuses rules (.ahead r) s :=
  h.succ fun f h => by rw [run_ahead, h, Reply.follow_refuse]

theorem refuses_absent (h : Accepts rules r s ts s') : Refuses rules (.absent r) s :=
  h.succ fun f h => by rw [run_absent, h, Reply.follow_accept]

theorem refuses_within {g : Region} (h : Refuses rules r { s with region := g }) :
    Refuses rules (.within g r) s :=
  h.succ fun f h => by rw [run_within, h]; rfl

theorem refuses_node_stopped (stopped : s.lead? = none) : Refuses rules (.node k r) s :=
  .of_succ fun f => by rw [run_node, stopped, Reply.ofOption, Reply.follow_refuse]

theorem refuses_node (lead : s.lead? = some (extras, s')) (h : Refuses rules r s') :
    Refuses rules (.node k r) s :=
  h.succ fun f h => by
    rw [run_node, lead, Reply.ofOption, Reply.follow_accept, h]
    rfl

theorem refuses_inRole {ro : Role} (h : Refuses rules r s) : Refuses rules (.inRole ro r) s :=
  h.succ fun f h => by rw [run_inRole, h, Reply.follow_refuse]

theorem refuses_only {ks : List Kind} (h : Refuses rules r s) : Refuses rules (.only ks r) s :=
  h.succ fun f h => by rw [run_only, h, Reply.follow_refuse]

theorem refuses_only_kind {ks : List Kind} (h : Accepts rules r s ts s')
    (kind : (Tree.soleKind? ts).any ks.contains = false) : Refuses rules (.only ks r) s :=
  h.succ fun f h => by
    rw [run_only, h, Reply.follow_accept, kind, if_neg Bool.false_ne_true]

variable {steps : List (Kind × Option Role × Rule N)} {front : Rule N} {ends : List (Kind × Rule N)}

theorem refuses_chain_stopped (stopped : s.lead? = none) : Refuses rules (.chain r steps) s :=
  .of_succ fun f => by rw [run_chain, stopped, Reply.ofOption, Reply.follow_refuse]

theorem refuses_chain (lead : s.lead? = some (extras, s')) (base : Refuses rules r s') :
    Refuses rules (.chain r steps) s :=
  base.succ fun f base => by
    rw [run_chain, lead, Reply.ofOption, Reply.follow_accept, base, Reply.follow_refuse]

theorem refuses_choose_stopped (stopped : s.lead? = none) : Refuses rules (.choose front ends) s :=
  .of_succ fun f => by rw [run_choose, stopped, Reply.ofOption, Reply.follow_refuse]

theorem refuses_choose (lead : s.lead? = some (extras, s')) (h : Refuses rules front s') :
    Refuses rules (.choose front ends) s :=
  h.succ fun f h => by
    rw [run_choose, lead, Reply.ofOption, Reply.follow_accept, h, Reply.follow_refuse]

theorem refuses_choose_ends (lead : s.lead? = some (extras, s')) (h : Accepts rules front s' ts t)
    (refused : RefuseAll rules t (ends.map (·.2))) : Refuses rules (.choose front ends) s := by
  have none : Eventually fun f => finish rules f ends s' ts t = .refuse := by
    induction ends with
    | nil => exact .of_succ fun _ => rfl
    | cons p ends ih =>
      rw [RefuseAll, List.map_cons, List.forall_mem_cons] at refused
      exact refused.1.succ₂ (ih refused.2) fun f head tail => by rw [finish_cons, head, Reply.follow_refuse, tail]
  exact h.succ₂ none fun f h none => by
    rw [run_choose, lead, Reply.ofOption, Reply.follow_accept, h, Reply.follow_accept, none]
    rfl

end Refuses

end Footprint.Syntax
