import Footprint.Proofs.Syntax.Says

/-!
# Reading goes forward

No rule reads backward, and most rules read something. Which ones do can be told from the rule alone,
once it is known of the phrases.
-/

namespace Footprint.Syntax

/-- The induction is on how long the text is, since a scan passes two or three characters where lines are joined. -/
theorem Gap.length_rest_scanFrom (g : Gap.Progress) (here : Position) (cs : List Char) :
    (Gap.scanFrom g here cs).rest.length ≤ cs.length := by
  induction bound : cs.length using Nat.strongRecOn generalizing g here cs with
  | ind n ih =>
    have further (g' : Gap.Progress) (there : Position) (ds : List Char) (h : ds.length < n) :
        (Gap.scanFrom g' there ds).rest.length ≤ n := Nat.le_trans (ih _ h g' there ds rfl) (Nat.le_of_lt h)
    subst bound
    rw [Gap.scanFrom.eq_def]
    repeat' split
    all_goals
      first
      | exact further _ _ _ (by simp only [List.length_cons]; omega)
      | simp [Gap.Progress.finish, Gap.Progress.finishText]

theorem Gap.length_rest_scan (cs : List Char) (here : Position) :
    (Gap.scan cs here).rest.length ≤ cs.length := Gap.length_rest_scanFrom {} here cs

def State.left (s : State) : Nat := s.rest.length

variable {s s' : State} {ts extras : List Tree}

theorem State.left_past_gap (s : State) : (s.past s.gap).left ≤ s.left := Gap.length_rest_scan s.rest s.here

/-- Where a token may come next, the gap is passed. -/
theorem State.eq_past_of_lead (h : s.lead? = some (extras, s')) :
    extras = s.gap.extras ∧ s' = s.past s.gap := by
  simp only [State.lead?, Option.ite_none_left_eq_some, Option.some.injEq, Prod.mk.injEq] at h
  exact ⟨h.2.1.symm, h.2.2.symm⟩

theorem State.left_lead (h : s.lead? = some (extras, s')) : s'.left ≤ s.left := by
  obtain ⟨-, rfl⟩ := State.eq_past_of_lead h
  exact s.left_past_gap

theorem Layout.left_read {l : Layout} (h : l.read? s = some (ts, s')) : s'.left ≤ s.left := by
  cases l <;> simp only [Layout.read?] at h
  case lead => exact State.left_lead h
  case newline | indent | dedent =>
    simp only [State.newline?, State.indent?, State.dedent?] at h
    repeat' split at h
    all_goals
      first
      | cases h; done
      | obtain ⟨-, rfl⟩ := Prod.mk.inj (Option.some.inj h); exact Nat.le_refl _
  case glue | line | finish =>
    simp only [State.glue?, State.line?, State.finish?] at h
    split at h
    all_goals
      first
      | cases h; done
      | obtain ⟨-, rfl⟩ := Prod.mk.inj (Option.some.inj h); exact s.left_past_gap

/-- Whether a token has any text. -/
def Token.isSolid : Token → Bool
  | .mark m => !m.isEmpty
  | _ => true

theorem pos_of_nonempty {n m : Nat} (h : nonempty n = some m) : 0 < m := by
  cases n with
  | zero => cases h
  | succ n => obtain rfl := Option.some.inj h; exact Nat.succ_pos n

theorem Quote.length_opening {cs : List Char} {q : Quote} {n : Nat} (h : Quote.opening? cs = some (q, n)) :
    0 < n ∧ cs ≠ [] := by
  cases cs with
  | nil => cases h
  | cons c cs =>
    refine ⟨?_, List.cons_ne_nil c cs⟩
    rw [Quote.opening?] at h
    split at h
    · cases h
    · split at h
      · obtain ⟨-, rfl⟩ := Prod.mk.inj (Option.some.inj h)
        split <;> omega
      · cases h

theorem Quote.length_literal {cs : List Char} {n : Nat} (h : Quote.literalLength? cs = some n) :
    0 < n ∧ cs ≠ [] := by
  rw [Quote.literalLength?] at h
  split at h
  · rename_i q m opened
    split at h
    · cases h
    · split at h
      · obtain rfl := Option.some.inj h
        exact ⟨by have := (Quote.length_opening opened).1; omega, (Quote.length_opening opened).2⟩
      · cases h
  · cases h

theorem Quote.closingLength_pos (q : Quote) : 0 < q.closingLength := by
  rw [Quote.closingLength]
  split <;> omega

theorem ne_nil_of_wordLength {cs : List Char} (h : wordLength cs ≠ 0) : cs ≠ [] := by
  rintro rfl
  exact h rfl

theorem Token.length_pos {t : Token} (solid : t.isSolid = true) {quotes : List Quote} {cs : List Char} {n : Nat}
    (h : t.length? quotes cs = some n) : 0 < n ∧ cs ≠ [] := by
  cases t with
  | mark m =>
    rw [Token.isSolid, Bool.not_eq_true', List.isEmpty_eq_false_iff] at solid
    rw [Token.length?, Option.ite_none_right_eq_some, Bool.and_eq_true] at h
    obtain ⟨⟨isHead, -⟩, same⟩ := h
    obtain rfl := Option.some.inj same
    refine ⟨List.length_pos_iff.mpr solid, ?_⟩
    rintro rfl
    exact solid (List.prefix_nil.mp (List.isPrefixOf_iff_prefix.mp isHead))
  | keyword w =>
    rw [Token.length?, Option.ite_none_right_eq_some] at h
    have positive := pos_of_nonempty h.2
    refine ⟨positive, ?_⟩
    rintro rfl
    rw [List.take_nil] at h
    rw [← h.1] at h
    cases h.2
  | name except =>
    simp only [Token.length?, Option.ite_none_left_eq_some] at h
    obtain ⟨word, same⟩ := h
    obtain rfl := Option.some.inj same
    rw [Bool.or_eq_true, not_or, decide_eq_true_eq] at word
    exact ⟨Nat.pos_of_ne_zero word.1, ne_nil_of_wordLength word.1⟩
  | number =>
    refine ⟨pos_of_nonempty h, ?_⟩
    rintro rfl
    cases h
  | plainString => exact Quote.length_literal h
  | openFormatted =>
    simp only [Token.length?] at h
    split at h
    · rename_i opened
      rw [Option.ite_none_right_eq_some] at h
      obtain rfl := Option.some.inj h.2
      exact Quote.length_opening opened
    · cases h
  | formattedText =>
    simp only [Token.length?] at h
    split at h
    · obtain ⟨m, body, positive⟩ := Option.bind_eq_some_iff.mp h
      refine ⟨pos_of_nonempty positive, ?_⟩
      rintro rfl
      cases body
    · cases h
  | closeFormatted =>
    simp only [Token.length?] at h
    split at h
    · rw [Option.ite_none_right_eq_some] at h
      obtain rfl := Option.some.inj h.2
      exact ⟨Quote.closingLength_pos _, List.cons_ne_nil _ _⟩
    · cases h
  | conversion =>
    simp only [Token.length?] at h
    split at h
    · rw [Option.ite_none_right_eq_some] at h
      obtain rfl := Option.some.inj h.2
      exact ⟨Nat.succ_pos 1, List.cons_ne_nil _ _⟩
    · cases h
  | colon =>
    rw [Token.length?, Option.ite_none_right_eq_some] at h
    obtain rfl := Option.some.inj h.2
    refine ⟨Nat.succ_pos 0, ?_⟩
    rintro rfl
    cases h.1
  | formatText =>
    refine ⟨pos_of_nonempty h, ?_⟩
    rintro rfl
    cases h

theorem Token.read?_eq (t : Token) (s : State) :
    t.read? s = (if t.isSpaced then s.lead? else some ([], s)).bind fun p =>
      (t.length? p.2.quotes p.2.rest).map fun n =>
        (p.1, { p.2.advance n with quotes := t.track p.2.rest p.2.quotes }) := by
  cases h : t.isSpaced <;>
    simp only [Token.read?, h, Bool.false_eq_true, if_false, if_true, Option.bind_eq_bind, Option.map_eq_bind] <;>
    rfl

theorem Token.left_read {t : Token} (h : t.read? s = some (ts, s')) :
    s'.left ≤ s.left ∧ (t.isSolid = true → s'.left < s.left) := by
  rw [Token.read?_eq] at h
  obtain ⟨⟨extras, s₁⟩, lead, h⟩ := Option.bind_eq_some_iff.mp h
  obtain ⟨n, length, h⟩ := Option.map_eq_some_iff.mp h
  have passed : s₁.left ≤ s.left := by
    split at lead
    · exact State.left_lead lead
    · obtain ⟨-, rfl⟩ := Prod.mk.inj (Option.some.inj lead)
      exact Nat.le_refl _
  obtain ⟨-, rfl⟩ := Prod.mk.inj h
  have dropped : (s₁.advance n).left = s₁.left - n := List.length_drop
  constructor
  · exact Nat.le_trans (dropped ▸ Nat.sub_le _ _) passed
  · intro solid
    obtain ⟨positive, ne⟩ := Token.length_pos solid length
    have some_left : 0 < s₁.left := List.length_pos_iff.mpr ne
    have shorter : (s₁.advance n).left < s.left := by omega
    exact shorter

variable {N : Type}

mutual

/-- Whether all that a rule reads is some text at least, given which phrases are such. -/
def Rule.eats (e : N → Bool) : Rule N → Bool
  | .token t => t.isSolid
  | .phrase n => e n
  | .each rs => Rule.someEats e rs
  | .first rs => Rule.allEat e rs
  | .within _ r | .node _ r | .inRole _ r | .only _ r => r.eats e
  | .chain r _ | .choose r _ => r.eats e
  | .layout _ | .many _ | .ahead _ | .absent _ => false

def Rule.someEats (e : N → Bool) : List (Rule N) → Bool
  | [] => false
  | r :: rs => r.eats e || Rule.someEats e rs

def Rule.allEat (e : N → Bool) : List (Rule N) → Bool
  | [] => true
  | r :: rs => r.eats e && Rule.allEat e rs

end

/-- What a reply leaves is no more than this, and less if it is to have read something. -/
def Reply.Leaves (strictly : Bool) (n : Nat) : Reply → Prop
  | .accept _ s => s.left + strictly.toNat ≤ n
  | _ => True

namespace Reply.Leaves

variable {reply : Reply} {strictly : Bool} {n : Nat}

theorem prepend (h : reply.Leaves strictly n) (ts : List Tree) : (reply.prepend ts).Leaves strictly n := by
  cases reply <;> exact h

theorem wrap (h : reply.Leaves strictly n) (k : Kind) (extras : List Tree) (s : State) :
    (reply.wrap k extras s).Leaves strictly n := by
  cases reply <;> exact h

theorem restore (h : reply.Leaves strictly n) (g : Region) : (reply.restore g).Leaves strictly n := by
  cases reply <;> exact h

theorem mono {m : Nat} (h : reply.Leaves strictly n) (le : n ≤ m) : reply.Leaves strictly m := by
  cases reply with
  | accept ts s => exact Nat.le_trans h le
  | _ => trivial

theorem weaken (h : reply.Leaves strictly n) : reply.Leaves false n := by
  cases reply with
  | accept ts s => exact Nat.le_trans (Nat.add_le_add_left (Nat.zero_le _) _) h
  | _ => trivial

theorem strict {m : Nat} {first : Bool} (h : reply.Leaves strictly m) (le : m + first.toNat ≤ n) :
    reply.Leaves (first || strictly) n := by
  cases reply with
  | accept ts s =>
    have : s.left + strictly.toNat ≤ m := h
    have : (first || strictly).toNat ≤ first.toNat + strictly.toNat := by
      cases first <;> cases strictly <;> decide
    show s.left + (first || strictly).toNat ≤ n
    omega
  | _ => trivial

theorem behind {m : Nat} {first : Bool} (h : reply.Leaves false m) (le : m + first.toNat ≤ n) :
    reply.Leaves first n := by
  have forward := h.strict le
  rwa [Bool.or_false] at forward

theorem and_left (h : reply.Leaves strictly n) (other : Bool) : reply.Leaves (strictly && other) n := by
  cases other with
  | false =>
    rw [Bool.and_false]
    exact h.weaken
  | true => rwa [Bool.and_true]

theorem and_right (h : reply.Leaves strictly n) (other : Bool) : reply.Leaves (other && strictly) n :=
  Bool.and_comm other strictly ▸ h.and_left other

theorem follow {m : Nat} {first : Bool} {k : List Tree → State → Reply} {r : Reply} (h : reply.Leaves first m)
    (accepted : ∀ ts s, s.left + first.toNat ≤ m → (k ts s).Leaves strictly n) (refused : r.Leaves strictly n) :
    (reply.follow k r).Leaves strictly n := by
  cases reply with
  | accept ts s => exact accepted ts s h
  | refuse => exact refused
  | starve => trivial

theorem lead (s : State) : (Reply.ofOption s.lead?).Leaves false s.left := by
  cases h : s.lead? with
  | none => trivial
  | some p => exact State.left_lead h

end Reply.Leaves

variable (rules : N → Rule N) (e : N → Bool)

/-- With this much fuel, the interpreter goes forward only. -/
structure ForwardAt (f : Nat) : Prop where
  run : ∀ r s, (run rules f r s).Leaves (r.eats e) s.left
  grow : ∀ steps start ts s, (grow rules f steps start ts s).Leaves false s.left
  step : ∀ steps start ts s,
    (step rules f steps start ts s).Leaves (Rule.allEat e (steps.map (·.2.2))) s.left
  finish : ∀ ends start ts s, (finish rules f ends start ts s).Leaves false s.left

namespace ForwardAt

variable {rules e} {f : Nat}

theorem run_succ (known : ∀ n, e n = true → (rules n).eats e = true) (ih : ForwardAt rules e f)
    (r : Rule N) (s : State) : (Syntax.run rules (f + 1) r s).Leaves (r.eats e) s.left := by
  cases r with
  | token t =>
    rw [Syntax.run, Rule.eats]
    cases h : t.read? s with
    | none => trivial
    | some p =>
      obtain ⟨forward, solid⟩ := Token.left_read h
      cases ht : t.isSolid with
      | false => exact forward
      | true => exact solid ht
  | layout l =>
    rw [Syntax.run, Rule.eats]
    cases h : l.read? s with
    | none => trivial
    | some p => exact Layout.left_read h
  | phrase n =>
    rw [Rule.eats]
    have forward := ih.run (rules n) s
    cases h : e n with
    | false => exact forward.weaken
    | true => rwa [known n h] at forward
  | each rs =>
    cases rs with
    | nil => exact Nat.le_refl _
    | cons r rs =>
      rw [run_each_cons, Rule.eats, Rule.someEats]
      exact (ih.run r s).follow (fun ts s' le => ((ih.run (.each rs) s').strict le).prepend ts) trivial
  | first rs =>
    cases rs with
    | nil => trivial
    | cons r rs =>
      rw [run_first_cons, Rule.eats, Rule.allEat]
      refine (ih.run r s).follow (fun ts s' le => ?_) ((ih.run (.first rs) s).and_right _)
      have head : (Reply.accept ts s').Leaves (r.eats e) s.left := le
      exact head.and_left _
  | many r =>
    rw [run_many, Rule.eats]
    exact (ih.run r s).weaken.follow (fun ts s' le => ((ih.run (.many r) s').mono le).prepend ts) (Nat.le_refl _)
  | ahead r =>
    rw [run_ahead, Rule.eats]
    exact (ih.run r s).follow (fun _ _ _ => Nat.le_refl _) trivial
  | absent r =>
    rw [run_absent, Rule.eats]
    exact (ih.run r s).follow (fun _ _ _ => trivial) (Nat.le_refl _)
  | within g r => exact (ih.run r { s with region := g }).restore s.region
  | node k r =>
    rw [run_node, Rule.eats]
    exact (Reply.Leaves.lead s).follow (fun extras s' le => ((ih.run r s').mono le).wrap k extras s') trivial
  | inRole ro r =>
    rw [run_inRole, Rule.eats]
    exact (ih.run r s).follow (fun _ _ le => le) trivial
  | only ks r =>
    rw [run_only, Rule.eats]
    refine (ih.run r s).follow (fun ts s' le => ?_) trivial
    split
    · exact le
    · trivial
  | chain base steps =>
    rw [run_chain, Rule.eats]
    refine (Reply.Leaves.lead s).follow (fun extras s' le => ?_) trivial
    exact (ih.run base s').follow
      (fun ts t forward => (((ih.grow steps s' ts t).behind forward).mono le).prepend extras) trivial
  | choose front ends =>
    rw [run_choose, Rule.eats]
    refine (Reply.Leaves.lead s).follow (fun extras s' le => ?_) trivial
    exact (ih.run front s').follow
      (fun ts t forward => (((ih.finish ends s' ts t).behind forward).mono le).prepend extras) trivial

theorem grow_succ (ih : ForwardAt rules e f) (steps : List (Kind × Option Role × Rule N)) (start : State)
    (ts : List Tree) (s : State) : (Syntax.grow rules (f + 1) steps start ts s).Leaves false s.left := by
  rw [Syntax.grow_succ]
  exact (ih.step steps start ts s).weaken.follow (fun us s' le => (ih.grow steps start us s').mono le) (Nat.le_refl _)

theorem step_succ (ih : ForwardAt rules e f) (steps : List (Kind × Option Role × Rule N)) (start : State)
    (ts : List Tree) (s : State) :
    (Syntax.step rules (f + 1) steps start ts s).Leaves (Rule.allEat e (steps.map (·.2.2))) s.left := by
  cases steps with
  | nil => trivial
  | cons p steps =>
    obtain ⟨k, ro, r⟩ := p
    rw [step_cons, List.map_cons, Rule.allEat]
    refine (ih.run r s).follow (fun us s' le => ?_) ((ih.step steps start ts s).and_right _)
    have head : (Reply.accept us s').Leaves (r.eats e) s.left := le
    exact head.and_left _

theorem finish_succ (ih : ForwardAt rules e f) (ends : List (Kind × Rule N)) (start : State)
    (ts : List Tree) (s : State) : (Syntax.finish rules (f + 1) ends start ts s).Leaves false s.left := by
  cases ends with
  | nil => trivial
  | cons p ends =>
    obtain ⟨k, r⟩ := p
    rw [finish_cons]
    exact (ih.run r s).weaken.follow (fun _ _ le => le) (ih.finish ends start ts s)

end ForwardAt

theorem forwardAt (known : ∀ n, e n = true → (rules n).eats e = true) (f : Nat) : ForwardAt rules e f := by
  induction f with
  | zero => exact ⟨fun _ _ => trivial, fun _ _ _ _ => trivial, fun _ _ _ _ => trivial, fun _ _ _ _ => trivial⟩
  | succ f ih => exact ⟨ih.run_succ known, ih.grow_succ, ih.step_succ, ih.finish_succ⟩

end Footprint.Syntax
