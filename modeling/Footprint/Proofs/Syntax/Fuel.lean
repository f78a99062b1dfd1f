import Footprint.Proofs.Syntax.Consumption
import Footprint.Syntax.Grammar

/-!
# Enough fuel

The interpreter never gives up on a cell. Between two characters rules nest only so deep: how deep can be
told from the rule, given how deep the phrases nest, as long as no loop goes round without reading
something. Fuel for that depth at each character is therefore enough, and the grammar keeps to it.
-/

namespace Footprint.Syntax

variable {N : Type}

def depthLimit : Nat := 100

section Depth

variable (e : N → Bool) (d : N → Nat)

def Rule.behind (eats : Bool) (n : Nat) : Nat := if eats then n - depthLimit else n

mutual

/-- How deep rules nest before the first character is read. -/
def Rule.depth : Rule N → Nat
  | .token _ | .layout _ => 1
  | .phrase n => d n + 1
  | .each rs => Rule.depthEach rs
  | .first rs => Rule.depthFirst rs
  | .many r | .ahead r | .absent r | .within _ r | .node _ r | .inRole _ r | .only _ r => r.depth + 1
  | .chain base steps => max base.depth (Rule.behind (base.eats e) (Rule.depthSteps steps + 1)) + 1
  | .choose front ends => max front.depth (Rule.behind (front.eats e) (Rule.depthEnds ends)) + 1

def Rule.depthEach : List (Rule N) → Nat
  | [] => 1
  | r :: rs => max r.depth (Rule.behind (r.eats e) (Rule.depthEach rs)) + 1

def Rule.depthFirst : List (Rule N) → Nat
  | [] => 1
  | r :: rs => max r.depth (Rule.depthFirst rs) + 1

def Rule.depthSteps : List (Kind × Option Role × Rule N) → Nat
  | [] => 1
  | (_, _, r) :: steps => max r.depth (Rule.depthSteps steps) + 1

def Rule.depthEnds : List (Kind × Rule N) → Nat
  | [] => 1
  | (_, r) :: ends => max r.depth (Rule.depthEnds ends) + 1

end

mutual

/-- Whether each round of each loop reads something. -/
def Rule.advances : Rule N → Bool
  | .token _ | .layout _ | .phrase _ => true
  | .each rs | .first rs => Rule.allAdvance rs
  | .many r => r.eats e && r.advances
  | .ahead r | .absent r | .within _ r | .node _ r | .inRole _ r | .only _ r => r.advances
  | .chain base steps => base.advances && Rule.stepsAdvance steps
  | .choose front ends => front.advances && Rule.endsAdvance ends

def Rule.allAdvance : List (Rule N) → Bool
  | [] => true
  | r :: rs => r.advances && Rule.allAdvance rs

def Rule.stepsAdvance : List (Kind × Option Role × Rule N) → Bool
  | [] => true
  | (_, _, r) :: steps => r.eats e && r.advances && Rule.stepsAdvance steps

def Rule.endsAdvance : List (Kind × Rule N) → Bool
  | [] => true
  | (_, r) :: ends => r.advances && Rule.endsAdvance ends

end

theorem Rule.allEat_of_stepsAdvance {steps : List (Kind × Option Role × Rule N)}
    (h : Rule.stepsAdvance e steps = true) : Rule.allEat e (steps.map (·.2.2)) = true := by
  induction steps with
  | nil => rfl
  | cons p steps ih =>
    obtain ⟨k, ro, r⟩ := p
    simp only [Rule.stepsAdvance, Bool.and_eq_true] at h
    simp only [List.map_cons, Rule.allEat, Bool.and_eq_true]
    exact ⟨h.1.1, ih h.2⟩

theorem Rule.depthEach_pos (rs : List (Rule N)) : 0 < Rule.depthEach e d rs := by
  cases rs <;> simp [Rule.depthEach]

theorem Rule.depthFirst_pos (rs : List (Rule N)) : 0 < Rule.depthFirst e d rs := by
  cases rs <;> simp [Rule.depthFirst]

theorem Rule.depthSteps_pos (steps : List (Kind × Option Role × Rule N)) :
    0 < Rule.depthSteps e d steps := by
  cases steps <;> simp [Rule.depthSteps]

theorem Rule.depthEnds_pos (ends : List (Kind × Rule N)) : 0 < Rule.depthEnds e d ends := by
  cases ends <;> simp [Rule.depthEnds]

theorem Rule.depth_pos (r : Rule N) : 0 < r.depth e d := by
  cases r with
  | each rs => exact Rule.depthEach_pos e d rs
  | first rs => exact Rule.depthFirst_pos e d rs
  | _ => simp [Rule.depth]

end Depth

variable (rules : N → Rule N) (e : N → Bool) (d : N → Nat)

/-- What is known of the phrases of a grammar is borne out by their rules. -/
structure Measures : Prop where
  eats : ∀ n, e n = true → (rules n).eats e = true
  depth : ∀ n, (rules n).depth e d ≤ d n
  advances : ∀ n, (rules n).advances e = true

/-- With this much fuel, the interpreter gives up only on texts that ask for more. -/
structure FedAt (f : Nat) : Prop where
  run : ∀ r s, r.advances e = true → r.depth e d + depthLimit * s.left ≤ f → run rules f r s ≠ .starve
  grow : ∀ steps start ts s, Rule.stepsAdvance e steps = true →
    Rule.depthSteps e d steps + 1 + depthLimit * s.left ≤ f → grow rules f steps start ts s ≠ .starve
  step : ∀ steps start ts s, Rule.stepsAdvance e steps = true →
    Rule.depthSteps e d steps + depthLimit * s.left ≤ f → step rules f steps start ts s ≠ .starve
  finish : ∀ ends start ts s, Rule.endsAdvance e ends = true →
    Rule.depthEnds e d ends + depthLimit * s.left ≤ f → finish rules f ends start ts s ≠ .starve

theorem Reply.prepend_ne_starve {reply : Reply} (h : reply ≠ .starve) (ts : List Tree) :
    reply.prepend ts ≠ .starve := by
  cases reply with
  | starve => exact absurd rfl h
  | _ => rintro ⟨⟩

theorem Reply.wrap_ne_starve {reply : Reply} (h : reply ≠ .starve) (k : Kind) (extras : List Tree) (s : State) :
    reply.wrap k extras s ≠ .starve := by
  cases reply with
  | starve => exact absurd rfl h
  | _ => rintro ⟨⟩

theorem Reply.restore_ne_starve {reply : Reply} (h : reply ≠ .starve) (g : Region) :
    reply.restore g ≠ .starve := by
  cases reply with
  | starve => exact absurd rfl h
  | _ => rintro ⟨⟩

theorem Reply.refuse_ne_starve : Reply.refuse ≠ .starve := Reply.noConfusion

theorem Reply.accept_ne_starve (ts : List Tree) (s : State) : Reply.accept ts s ≠ .starve := Reply.noConfusion

theorem Reply.ofOption_ne_starve (x : Option (List Tree × State)) : Reply.ofOption x ≠ .starve := by
  cases x <;> exact Reply.noConfusion

theorem Reply.Leaves.follow_ne_starve {reply r : Reply} {strictly : Bool} {n : Nat} {k : List Tree → State → Reply}
    (moved : reply.Leaves strictly n) (fed : reply ≠ .starve)
    (accepted : ∀ ts s, s.left + strictly.toNat ≤ n → k ts s ≠ .starve) (refused : r ≠ .starve) :
    reply.follow k r ≠ .starve := by
  cases reply with
  | accept ts s => exact accepted ts s moved
  | refuse => exact refused
  | starve => exact absurd rfl fed

variable {rules e d} {f : Nat}

/-- The fuel left behind a rule is enough for what comes at the same character, or at a later one. -/
theorem Rule.behind_le {eats : Bool} {n left left' : Nat} (forward : left' + eats.toNat ≤ left)
    (enough : Rule.behind eats n + depthLimit * left ≤ f) : n + depthLimit * left' ≤ f := by
  unfold Rule.behind depthLimit at *
  cases eats with
  | false =>
    simp only [Bool.toNat_false, Bool.false_eq_true, if_false] at *
    omega
  | true =>
    simp only [Bool.toNat_true, if_true] at *
    omega

theorem fuel_le {left left' : Nat} (forward : left' + false.toNat ≤ left) : depthLimit * left' ≤ depthLimit * left :=
  Nat.mul_le_mul_left _ forward

/-- No fuel is needed before a node, and none is lost there. -/
theorem Reply.lead_ne_starve {s : State} {k : List Tree → State → Reply}
    (fed : ∀ extras s', depthLimit * s'.left ≤ depthLimit * s.left → k extras s' ≠ .starve) :
    (Reply.ofOption s.lead?).follow k .refuse ≠ .starve :=
  (Reply.Leaves.lead s).follow_ne_starve (Reply.ofOption_ne_starve _)
    (fun extras s' passed => fed extras s' (fuel_le passed)) Reply.refuse_ne_starve

namespace FedAt

/-- What goes on from a rule that there is enough fuel for needs as much as is left behind it. -/
theorem follow (measures : Measures rules e d) (ih : FedAt rules e d f) {r : Rule N} {s : State}
    {k : List Tree → State → Reply} {refused : Reply} (advances : r.advances e = true)
    (enough : r.depth e d + depthLimit * s.left ≤ f)
    (fed : ∀ ts s', s'.left + (r.eats e).toNat ≤ s.left → k ts s' ≠ .starve) (or : refused ≠ .starve) :
    (Syntax.run rules f r s).follow k refused ≠ .starve :=
  ((forwardAt rules e measures.eats f).run r s).follow_ne_starve (ih.run r s advances enough) fed or

theorem run_succ (measures : Measures rules e d) (ih : FedAt rules e d f) (r : Rule N) (s : State)
    (advances : r.advances e = true) (enough : r.depth e d + depthLimit * s.left ≤ f + 1) :
    Syntax.run rules (f + 1) r s ≠ .starve := by
  cases r with
  | token t => exact Reply.ofOption_ne_starve _
  | layout l => exact Reply.ofOption_ne_starve _
  | phrase n =>
    rw [Rule.depth] at enough
    have := measures.depth n
    exact ih.run (rules n) s (measures.advances n) (by omega)
  | each rs =>
    cases rs with
    | nil => exact Reply.accept_ne_starve _ _
    | cons r rs =>
      rw [run_each_cons]
      simp only [Rule.depth, Rule.depthEach] at enough
      simp only [Rule.advances, Rule.allAdvance, Bool.and_eq_true] at advances
      refine ih.follow measures advances.1 (by omega) (fun ts s' moved => ?_) Reply.refuse_ne_starve
      refine Reply.prepend_ne_starve (ih.run (.each rs) s' advances.2 ?_) ts
      exact Rule.behind_le moved (by rw [Rule.depth]; omega)
  | first rs =>
    cases rs with
    | nil => exact Reply.refuse_ne_starve
    | cons r rs =>
      rw [run_first_cons]
      simp only [Rule.depth, Rule.depthFirst] at enough
      simp only [Rule.advances, Rule.allAdvance, Bool.and_eq_true] at advances
      exact ih.follow measures advances.1 (by omega) (fun _ _ _ => Reply.accept_ne_starve _ _)
        (ih.run (.first rs) s advances.2 (by rw [Rule.depth]; omega))
  | many r =>
    rw [run_many]
    simp only [Rule.depth] at enough
    have again := advances
    simp only [Rule.advances, Bool.and_eq_true] at advances
    refine ih.follow measures advances.2 (by omega) (fun ts s' moved => ?_) (Reply.accept_ne_starve _ _)
    -- Each round reads something, and a character is worth the depth that the next round needs.
    rw [advances.1, Bool.toNat_true] at moved
    refine Reply.prepend_ne_starve (ih.run (.many r) s' again ?_) ts
    rw [Rule.depth]
    unfold depthLimit at *
    omega
  | ahead r =>
    rw [run_ahead]
    rw [Rule.depth] at enough
    exact ih.follow measures advances (by omega) (fun _ _ _ => Reply.accept_ne_starve _ _) Reply.refuse_ne_starve
  | absent r =>
    rw [run_absent]
    rw [Rule.depth] at enough
    exact ih.follow measures advances (by omega) (fun _ _ _ => Reply.refuse_ne_starve) (Reply.accept_ne_starve _ _)
  | within g r =>
    rw [run_within]
    rw [Rule.depth] at enough
    have same : ({ s with region := g } : State).left = s.left := rfl
    exact Reply.restore_ne_starve (ih.run r _ advances (by rw [same]; omega)) s.region
  | node k r =>
    rw [run_node]
    rw [Rule.depth] at enough
    exact Reply.lead_ne_starve fun extras s' fuel => Reply.wrap_ne_starve (ih.run r s' advances (by omega)) k extras s'
  | inRole ro r =>
    rw [run_inRole]
    rw [Rule.depth] at enough
    exact ih.follow measures advances (by omega) (fun _ _ _ => Reply.accept_ne_starve _ _) Reply.refuse_ne_starve
  | only ks r =>
    rw [run_only]
    rw [Rule.depth] at enough
    refine ih.follow measures advances (by omega) (fun ts s' _ => ?_) Reply.refuse_ne_starve
    split
    · exact Reply.accept_ne_starve _ _
    · exact Reply.refuse_ne_starve
  | chain base steps =>
    rw [run_chain]
    simp only [Rule.depth] at enough
    simp only [Rule.advances, Bool.and_eq_true] at advances
    refine Reply.lead_ne_starve fun extras s' fuel => ?_
    refine ih.follow measures advances.1 (by omega) (fun ts t moved => ?_) Reply.refuse_ne_starve
    exact Reply.prepend_ne_starve (ih.grow steps s' ts t advances.2 (Rule.behind_le moved (by omega))) extras
  | choose front ends =>
    rw [run_choose]
    simp only [Rule.depth] at enough
    simp only [Rule.advances, Bool.and_eq_true] at advances
    refine Reply.lead_ne_starve fun extras s' fuel => ?_
    refine ih.follow measures advances.1 (by omega) (fun ts t moved => ?_) Reply.refuse_ne_starve
    exact Reply.prepend_ne_starve (ih.finish ends s' ts t advances.2 (Rule.behind_le moved (by omega))) extras

theorem grow_succ (measures : Measures rules e d) (ih : FedAt rules e d f)
    (steps : List (Kind × Option Role × Rule N)) (start : State) (ts : List Tree) (s : State)
    (advance : Rule.stepsAdvance e steps = true)
    (enough : Rule.depthSteps e d steps + 1 + depthLimit * s.left ≤ f + 1) :
    Syntax.grow rules (f + 1) steps start ts s ≠ .starve := by
  rw [Syntax.grow_succ]
  have moved := (forwardAt rules e measures.eats f).step steps start ts s
  refine moved.follow_ne_starve (ih.step steps start ts s advance (by omega)) (fun us s' moved => ?_)
    (Reply.accept_ne_starve _ _)
  rw [Rule.allEat_of_stepsAdvance e advance, Bool.toNat_true] at moved
  exact ih.grow steps start us s' advance (by unfold depthLimit at *; omega)

theorem step_succ (measures : Measures rules e d) (ih : FedAt rules e d f)
    (steps : List (Kind × Option Role × Rule N)) (start : State) (ts : List Tree) (s : State)
    (advance : Rule.stepsAdvance e steps = true) (enough : Rule.depthSteps e d steps + depthLimit * s.left ≤ f + 1) :
    Syntax.step rules (f + 1) steps start ts s ≠ .starve := by
  cases steps with
  | nil => exact Reply.refuse_ne_starve
  | cons p steps =>
    obtain ⟨k, ro, r⟩ := p
    rw [step_cons]
    simp only [Rule.depthSteps] at enough
    simp only [Rule.stepsAdvance, Bool.and_eq_true] at advance
    exact ih.follow measures advance.1.2 (by omega) (fun _ _ _ => Reply.accept_ne_starve _ _)
      (ih.step steps start ts s advance.2 (by omega))

theorem finish_succ (measures : Measures rules e d) (ih : FedAt rules e d f) (ends : List (Kind × Rule N))
    (start : State) (ts : List Tree) (s : State) (advance : Rule.endsAdvance e ends = true)
    (enough : Rule.depthEnds e d ends + depthLimit * s.left ≤ f + 1) :
    Syntax.finish rules (f + 1) ends start ts s ≠ .starve := by
  cases ends with
  | nil => exact Reply.refuse_ne_starve
  | cons p ends =>
    obtain ⟨k, r⟩ := p
    rw [finish_cons]
    simp only [Rule.depthEnds] at enough
    simp only [Rule.endsAdvance, Bool.and_eq_true] at advance
    exact ih.follow measures advance.1 (by omega) (fun _ _ _ => Reply.accept_ne_starve _ _)
      (ih.finish ends start ts s advance.2 (by omega))

end FedAt

theorem fedAt (measures : Measures rules e d) (f : Nat) : FedAt rules e d f := by
  induction f with
  | zero =>
    refine ⟨fun r s _ enough => ?_, fun _ _ _ _ _ enough => ?_, fun steps _ _ _ _ enough => ?_,
      fun ends _ _ _ _ enough => ?_⟩
    · have := Rule.depth_pos e d r
      omega
    · omega
    · have := Rule.depthSteps_pos e d steps
      omega
    · have := Rule.depthEnds_pos e d ends
      omega
  | succ f ih => exact ⟨ih.run_succ measures, ih.grow_succ measures, ih.step_succ measures, ih.finish_succ measures⟩

def Phrase.eats : Phrase → Bool
  | .suite => false
  | _ => true

def Phrase.depth : Phrase → Nat
  | .statement => 65
  | .simpleLine => 52
  | .suite => 74
  | .assignment | .casePattern => 19
  | .rightSide | .element => 40
  | .expression => 33
  | .unconditional => 31
  | .disjunction => 25
  | .negation => 23
  | .comparison => 18
  | .unary | .target => 16
  | .primary => 12
  | .atom | .parameter => 10
  | .strings | .arguments => 7
  | .string | .clauses => 5
  | .interpolation | .splatGroup => 3
  | .expressionList => 36
  | .argument => 41
  | .simplePattern => 15

theorem measures_grammar : Measures grammar Phrase.eats Phrase.depth where
  eats := by
    intro n
    cases n <;> decide
  depth := by
    intro n
    cases n <;> decide +kernel
  advances := by
    intro n
    cases n <;> decide

/-- Whatever the cell, the interpreter comes to an end on it. -/
theorem run_cell_ne_starve (source : List Char) :
    run grammar (fuelFor source) cell { rest := source } ≠ .starve := by
  have depth : cell.depth Phrase.eats Phrase.depth ≤ 1000 := by decide
  refine (fedAt measures_grammar _).run cell _ (by decide) ?_
  show cell.depth Phrase.eats Phrase.depth + depthLimit * source.length ≤ fuelFor source
  unfold depthLimit fuelFor
  omega

/-- The tree of a cell is the module that the grammar reads in the end. -/
theorem Tree.ofSource?_of_accepts {source : List Char} {ts : List Tree} {s : State}
    (h : Accepts grammar cell { rest := source } ts s) :
    Tree.ofSource? source = ts.find? (·.kind = .module) := by
  rw [Tree.ofSource?, h.run_eq (run_cell_ne_starve source)]

end Footprint.Syntax
