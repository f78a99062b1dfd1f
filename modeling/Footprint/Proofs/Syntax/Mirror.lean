import Footprint.Proofs.Syntax.Fuel
import Footprint.Proofs.Syntax.Pairs

/-!
# Images of a text

A text may be changed so that what is between its tokens looks different, and the tokens do not. Where places of
the one correspond to places of the other, and tokens are read and gaps are passed alike from there on, the grammar
reads both alike: as trees with the same nodes in corresponding places.
-/

namespace Footprint.Syntax

/-- What of a text has to do with what of another. -/
structure Mirror where
  /-- The text before and behind a place, and the text before and behind the place that corresponds to it. -/
  cuts : List Char → List Char → List Char → List Char → Prop
  /-- How a literal is spelled, and how it is spelled in the image. -/
  literals : List Char → List Char → Prop
  /-- Whether there may be further line joins in the image. -/
  joins : Prop

namespace Mirror

variable (m : Mirror)

def Places (p q : Position) : Prop :=
  ∃ before behind before' behind', m.cuts before behind before' behind' ∧ p = ({} : Position).afterAll before ∧
    q = ({} : Position).afterAll before'

structure Nodes (t u : Tree) : Prop where
  kind : u.kind = t.kind
  role : u.role = t.role
  start : m.Places t.start u.start
  spelling : t.kind ≠ .string → u.spelling = t.spelling
  literal : t.kind = .string → m.literals t.spelling u.spelling
  naming : t.role.any Role.isNaming = true → t.kind ≠ .string

def Forests (ts us : List Tree) : Prop := Tree.Paired m.Nodes m.joins ts us

structure States (s u : State) : Prop where
  place : ∃ before before', m.cuts before s.rest before' u.rest ∧ s.here = ({} : Position).afterAll before ∧
    u.here = ({} : Position).afterAll before'
  suites : u.suites = s.suites
  quotes : u.quotes = s.quotes
  region : u.region = s.region
  marked : s.IsMarked

def coupling : Coupling := ⟨m.States, m.Forests⟩

variable {m} {s u : State} {ts us : List Tree}

theorem States.start (h : m.States s u) : m.Places s.here u.here := by
  obtain ⟨before, before', cut, here, here'⟩ := h.place
  exact ⟨before, _, before', _, cut, here, here'⟩

/-- What makes an image of a text, as long as what is asked is of this kind. -/
structure Keeps (m : Mirror) (P : Question → State → Prop) : Prop where
  token {q : Token} {s u : State} : q.isInline = true → P (.token q) s → m.States s u →
    m.coupling.Answers (q.read? s) (q.read? u)
  layout {l : Layout} {s u : State} : P (.layout l) s → m.States s u → m.coupling.Answers (l.read? s) (l.read? u)
  name {except : List (List Char)} {s u : State} {n n' : Nat} : P (.token (.name except)) s → m.States s u →
    Gap.Ends s.rest → Gap.Ends u.rest →
    (Token.name except).length? s.quotes s.rest = some n → (Token.name except).length? u.quotes u.rest = some n' →
    u.rest.take n' = s.rest.take n
  literal {s u : State} {n n' : Nat} : P (.token .plainString) s → m.States s u → Gap.Ends s.rest → Gap.Ends u.rest →
    Token.plainString.length? s.quotes s.rest = some n → Token.plainString.length? u.quotes u.rest = some n' →
    m.literals (s.rest.take n) (u.rest.take n')
  formatted {s s' u u' : State} {n n' : Nat} : P (.token .openFormatted) s → m.States s u → m.States s' u' →
    Gap.Ends s.rest → Gap.Ends u.rest →
    Token.openFormatted.length? s.quotes s.rest = some n → Token.openFormatted.length? u.quotes u.rest = some n' →
    s'.left ≤ s.left - n → u'.left ≤ u.left - n' → m.literals (s.spelling s') (u.spelling u')

variable {P : Question → State → Prop}

theorem read_of_run_token {f : Nat} {q : Token} (h : run grammar f (.token q) s = .accept ts u) :
    q.read? s = some (ts, u) := by
  cases f with
  | zero => cases h
  | succ f => exact Reply.eq_some_of_ofOption h

theorem read_of_run_each {f : Nat} {q : Token} {rs : List (Rule Phrase)}
    (h : run grammar f (.each (.token q :: rs)) s = .accept ts u) :
    ∃ us v, q.read? s = some (us, v) ∧ u.left ≤ v.left ∧
      (Question.token q, s) ∈ asked grammar f (.each (.token q :: rs)) s := by
  cases f with
  | zero => cases h
  | succ f =>
    rw [run_each_cons] at h
    obtain ⟨us, v, first, h⟩ := Reply.exists_of_follow h
    obtain ⟨vs, rest, -⟩ := Reply.exists_of_prepend h
    refine ⟨us, v, read_of_run_token first, ?_, ?_⟩
    · have forward := ((forwardAt grammar Phrase.eats measures_grammar.eats f).run (.each rs) v).weaken
      rw [rest] at forward
      exact forward
    · rw [asked_each_cons]
      cases f with
      | zero => cases first
      | succ f => exact List.mem_append_left _ (List.mem_singleton_self _)

theorem left_read_of_ends {q : Token} (ends : Gap.Ends s.rest) (read : q.read? s = some (ts, u)) :
    ∃ n, q.length? s.quotes s.rest = some n ∧ u.left = s.left - n := by
  obtain ⟨n, length, rfl⟩ := Token.read_of_ends ends read
  exact ⟨n, length, List.length_drop⟩

theorem Keeps.lawful (keeps : m.Keeps P) : m.coupling.Lawful grammar P where
  token := keeps.token
  layout := keeps.layout
  region g h := ⟨h.place, h.suites, h.quotes, rfl, h.marked⟩
  region_eq h := h.region.symm
  nil := .nil
  append := .append
  assign {ts us} ro naming h := h.assign (fun t u nodes => nodes.kind) fun t mem u nodes => by
    refine ⟨by rw [Tree.kind_withRole, Tree.kind_withRole, nodes.kind], by rw [Tree.role_withRole, Tree.role_withRole],
      ?_, ?_, ?_, ?_⟩
    · cases t; cases u
      exact nodes.start
    · cases t; cases u
      exact nodes.spelling
    · cases t; cases u
      exact nodes.literal
    · rw [Tree.role_withRole, Tree.kind_withRole]
      exact fun isNaming => naming isNaming t mem
  soleKind h := h.soleKind?_eq fun t u nodes => nodes.kind
  node {k s u ts us} unspelled states forests := by
    refine .singleton ⟨rfl, rfl, states.start, fun _ => rfl, fun isString => ?_, nofun⟩ forests
    have isString : k = .string := isString
    rw [isString] at unspelled
    cases unspelled
  spelled {k r f s₀ u₀ s u s' u' ts₀ us₀ ts us} spelled spells states heeded lead lead' read read' forests states' := by
    have ends := State.ends_of_lead lead
    have ends' := State.ends_of_lead lead'
    unfold Rule.spells at spells
    split at spells
    · rename_i except
      refine .singleton ⟨rfl, rfl, states.start, fun _ => ?_, nofun, nofun⟩ forests
      have heeded : P (.token (.name except)) s := by
        cases f with
        | zero => cases read
        | succ f => exact heeded _ (List.mem_singleton_self _)
      obtain ⟨n, length, rfl⟩ := Token.read_of_ends ends (read_of_run_token read)
      obtain ⟨n', length', rfl⟩ := Token.read_of_ends ends' (read_of_run_token read')
      show State.spelling _ _ = State.spelling _ _
      rw [State.spelling_advance, State.spelling_advance]
      exact keeps.name heeded states ends ends' length length'
    · refine .singleton ⟨rfl, rfl, states.start, fun other => absurd rfl other, fun _ => ?_, nofun⟩ forests
      have heeded : P (.token .plainString) s := by
        cases f with
        | zero => cases read
        | succ f => exact heeded _ (List.mem_singleton_self _)
      obtain ⟨n, length, rfl⟩ := Token.read_of_ends ends (read_of_run_token read)
      obtain ⟨n', length', rfl⟩ := Token.read_of_ends ends' (read_of_run_token read')
      show m.literals (State.spelling _ _) (State.spelling _ _)
      rw [State.spelling_advance, State.spelling_advance]
      exact keeps.literal heeded states ends ends' length length'
    · refine .singleton ⟨rfl, rfl, states.start, fun other => absurd rfl other, fun _ => ?_, nofun⟩ forests
      obtain ⟨_, v, first, forward, isAsked⟩ := read_of_run_each read
      obtain ⟨_, v', first', forward', _⟩ := read_of_run_each read'
      obtain ⟨n, length, left⟩ := left_read_of_ends ends first
      obtain ⟨n', length', left'⟩ := left_read_of_ends ends' first'
      exact keeps.formatted (heeded _ isAsked) states states' ends ends' length length' (by omega) (by omega)
    · rw [spelled] at spells
      cases spells

/-- A cell and its image are read as trees with the same nodes in corresponding places. -/
theorem Keeps.exists_ofSource? (keeps : m.Keeps P) {source image : List Char} (begins : m.cuts [] source [] image)
    (heeded : ∀ x ∈ asked grammar (fuelFor source) cell { rest := source }, P x.1 x.2) {t : Tree}
    (read : Tree.ofSource? source = some t) :
    ∃ u, Tree.ofSource? image = some u ∧ Tree.Matches m.Nodes m.joins t u := by
  have states : m.States { rest := source } { rest := image } := ⟨⟨[], [], begins, rfl, rfl⟩, rfl, rfl, rfl, nofun⟩
  have replies := (Coupling.goesAt keeps.lawful isOrderly_grammar (fuelFor source)).run isOrderly_cell states heeded
  rw [Tree.ofSource?] at read
  generalize hs : run grammar (fuelFor source) cell { rest := source } = a,
    hu : run grammar (fuelFor source) cell { rest := image } = b at replies read
  cases replies with
  | @accept ts us _ u' forests _ =>
    have accepted : Accepts grammar cell { rest := image } us u' := by
      refine ⟨fuelFor source, fun f le => ?_⟩
      dsimp only
      rw [run_of_le le (by rw [hu]; exact Reply.noConfusion), hu]
    have modules := Tree.Paired.find? (p := fun t => decide (t.kind = .module)) forests
      (fun t u nodes => by rw [nodes.kind]) (fun _ => by simp [Tree.kind])
    have read : ts.find? (fun t => decide (t.kind = .module)) = some t := read
    rw [Tree.ofSource?_of_accepts accepted]
    rw [read] at modules
    generalize us.find? (fun t => decide (t.kind = .module)) = x at modules
    cases modules with
    | some same => exact ⟨_, rfl, same⟩
  | refuse => cases read
  | starve => cases read

end Mirror

end Footprint.Syntax
