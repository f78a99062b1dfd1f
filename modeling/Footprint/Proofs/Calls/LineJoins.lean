import Footprint.Proofs.Syntax.Between
import Footprint.Proofs.Syntax.Concatenation
import Footprint.Proofs.Syntax.Validation

/-!
# Constructs with a further line join

A cell with a line join between two of its tokens has the same constructs, unless the join stands where it is taken for
something else: among the arguments of a call it is taken for an argument, and before the operand of parentheses for the
operand.
-/

namespace Footprint

open Text Syntax

def Construct.arity : Construct → Nat
  | .call _ as => as.length
  | _ => 0

namespace Syntax

/-! ### Literals -/

namespace BeginAlike

open StringLiteral

variable {w w' : List Char}

/-- The value of a formatted literal is told from its beginning. -/
theorem ofToken?_eq (h : BeginAlike w w') : ofToken? w' = ofToken? w := by
  obtain ⟨letters, mark, rest, rest', known, quote, formatted, rfl, rfl⟩ := h
  rcases quote with quote | rfl
  · rw [ofToken?_prefixed known quote, ofToken?_prefixed known quote, formatted]
    rfl
  · rw [ofToken?_backtick known, ofToken?_backtick known]

theorem find?_quote (h : BeginAlike w w') :
    (w'.find? fun c => c == '\'' || c == '"' || c == '`') = w.find? fun c => c == '\'' || c == '"' || c == '`' := by
  obtain ⟨letters, mark, rest, rest', -, quote, -, rfl, rfl⟩ := h
  have marked : (mark == '\'' || mark == '"' || mark == '`') = true := by
    rcases quote with (rfl | rfl) | rfl <;> decide
  rw [List.find?_append, List.find?_append, List.find?_cons, List.find?_cons, marked]

end BeginAlike

namespace Tree

def statements (t : Tree) : List Tree :=
  (t.preorder.filter fun n => n.kind = .module ∨ n.kind = .block).flatMap fun n => n.children.filter fun c => ¬c.IsExtra

theorem mem_statements {t n c : Tree} (mem : n ∈ t.preorder) (suite : n.kind = .module ∨ n.kind = .block)
    (child : c ∈ n.children) (noExtra : ¬c.IsExtra) : c ∈ t.statements :=
  List.mem_flatMap.mpr ⟨n, List.mem_filter.mpr ⟨mem, decide_eq_true suite⟩, List.mem_filter.mpr ⟨child, decide_eq_true noExtra⟩⟩

/-- Whether nothing but blanks stands between a place, so many characters into the text, and a node behind it. -/
def beginsBehind (k : Nat) (source : List Char) (t : Tree) : Bool :=
  decide (k ≤ t.start.offset) && ((source.take t.start.offset).drop k).all fun c => isBlank c && c != '\n'

variable {a post : List Char} {joins : Prop} {t u : Tree}

/-- Counterparts in a text and in the text with a line join. -/
def Joined (a post : List Char) (t u : Tree) : Prop := (Mirror.joined a post).Nodes t u ∧ u.shownJoins = t.shownJoins

namespace Joined

theorem agree (h : Joined a post t u) : Agree t u := .of_nodes h.1 h.2

theorem ofToken?_eq (h : Joined a post t u) (string : t.kind = .string) :
    StringLiteral.ofToken? u.spelling = StringLiteral.ofToken? t.spelling := by
  rcases h.1.literal string with same | alike
  · rw [same]
  · exact alike.ofToken?_eq

theorem backtick (h : Joined a post t u) (string : t.kind = .string) (opens : u.OpensWithBacktick) :
    t.OpensWithBacktick := by
  rw [← isBacktick_iff, isBacktick] at opens ⊢
  rcases h.1.literal string with same | alike
  · rwa [same] at opens
  · rwa [alike.find?_quote] at opens

theorem leadsLine (h : Joined a post t u) (apart : t.beginsBehind a.length (a ++ post) = false)
    (leads : u.LeadsLine (a ++ (joint ++ post))) : t.LeadsLine (a ++ post) ∧ u.start.column = t.start.column := by
  obtain ⟨before, behind, before', behind', cut, start, start'⟩ := h.1.start
  obtain ⟨noExtra, begins⟩ := leads
  have noExtra : ¬t.IsExtra := mt (isExtra_iff h.agree.kind).mpr noExtra
  rw [← opensLine_iff, opensLine_eq, start', Position.offset_afterAll, Nat.zero_add] at begins
  rw [LeadsLine, ← opensLine_iff, opensLine_eq, start, start', Position.column_afterAll, Position.column_afterAll,
    Position.offset_afterAll, Nat.zero_add]
  rcases cut with ⟨w, rfl, rfl, rfl, rfl⟩ | ⟨x, rfl, rfl, rfl, rfl⟩
  · rw [List.append_assoc, List.take_left] at begins ⊢
    exact ⟨⟨noExtra, begins⟩, rfl⟩
  · have text : a ++ (joint ++ (x ++ behind')) = a ++ (joint ++ x) ++ behind' := by simp only [List.append_assoc]
    rw [text, List.take_left] at begins
    rw [← List.append_assoc, List.take_left]
    by_cases feed : '\n' ∈ x
    · obtain ⟨y, z, rfl⟩ := List.append_of_mem feed
      have same : lastLine (a ++ (joint ++ (y ++ '\n' :: z))) = lastLine (a ++ (y ++ '\n' :: z)) := by
        rw [← List.append_assoc, ← List.append_assoc, ← List.append_assoc, lastLine_feed, lastLine_feed]
      rw [same] at begins
      exact ⟨⟨noExtra, begins⟩, by rw [same]⟩
    · rw [← List.append_assoc, lastLine_append _ _ feed, List.all_append, Bool.and_eq_true] at begins
      have behind : t.beginsBehind a.length (a ++ (x ++ behind')) = true := by
        rw [beginsBehind, start, Position.offset_afterAll, Nat.zero_add, ← List.append_assoc, List.take_left, List.drop_left,
          Bool.and_eq_true, decide_eq_true_eq, List.length_append, List.all_eq_true]
        refine ⟨Nat.le_add_right _ _, fun c mem => ?_⟩
        rw [List.all_eq_true.mp begins.2 c mem, Bool.true_and, bne_iff_ne]
        exact fun same => feed (same ▸ mem)
      exact absurd (apart.symm.trans behind) Bool.false_ne_true

end Joined

theorem kind_of_mem_literals {l : Tree} (mem : l ∈ t.literals) : l.kind = .string := by
  rw [literals] at mem
  split at mem
  · rename_i kind
    rw [List.mem_singleton.mp mem, kind]
  · simpa using (List.mem_filter.mp mem).2
  · cases mem

theorem positional_eq_of_joined (h : Matches (Joined a post) joins t u) : u.positional = t.positional := by
  have agree (t u : Tree) (related : Joined a post t u) : Agree t u := related.agree
  rw [positional_eq, positional_eq, comprehends_eq agree h]
  split
  · rfl
  · refine map_eq_of_forall₂ (given_forall₂ agree h) fun c _ d related => ?_
    refine bareArgument_eq agree (unparenthesized_matches agree related) fun l mem l' related => ?_
    exact related.ofToken?_eq (kind_of_mem_literals mem)

theorem construct?_eq_of_joined (h : Matches (Joined a post) joins t u) : u.construct? = t.construct? :=
  construct?_eq (fun _ _ related => related.agree) h fun _ => positional_eq_of_joined h

/-! ### Joins among arguments -/

def arity (t : Tree) : Nat := if t.kind = .call then t.positional.length else 0

def argumentJoins (t : Tree) : Nat :=
  if t.kind = .call then
    match t.child? .arguments with
    | some a => if a.kind = .argumentList then joinsIn a.children else 0
    | none => 0
  else 0

/-- How many line joins stand among the arguments of all calls of a forest. -/
def joinsGiven (ts : List Tree) : Nat := ((preorders ts).map argumentJoins).sum

theorem sum_arity (ts : List Tree) : ((ts.filterMap construct?).map Construct.arity).sum = (ts.map arity).sum := by
  induction ts with
  | nil => rfl
  | cons t ts ih =>
    have first : t.arity = ((t.construct?).map Construct.arity).getD 0 := by
      rw [arity, construct?]
      cases t.kind <;> rfl
    rw [List.map_cons, List.sum_cons, ← ih, first, List.filterMap_cons]
    cases t.construct? with
    | none => exact (Nat.zero_add _).symm
    | some c => rw [List.map_cons, List.sum_cons]; rfl

section Counts

variable {m : Mirror} {ts us : List Tree}

theorem length_filter_add_joinsIn (h : Paired m.Nodes joins ts us) (p : Tree → Bool)
    (respects : ∀ t u, u.kind = t.kind → p u = p t) (counts : ∀ q, p (.node .lineJoin none q [] []) = true) :
    (us.filter p).length + joinsIn ts = (ts.filter p).length + joinsIn us := by
  induction h with
  | nil => rfl
  | @cons t u ts us related _ _ _ ih =>
    rw [List.filter_cons, List.filter_cons, joinsIn_cons, joinsIn_cons, related.kind, respects t u related.kind]
    split
    · rw [List.length_cons, List.length_cons]
      omega
    · omega
  | @join q ts us _ _ ih =>
    rw [List.filter_cons_of_pos (counts q), joinsIn_cons, List.length_cons, kind, if_pos rfl]
    omega

theorem arity_add_argumentJoins (h : Matches m.Nodes joins t u) :
    u.arity + t.argumentJoins = t.arity + u.argumentJoins := by
  have arguments := h.2.find? (p := fun c => decide (c.role = some .arguments)) (fun t u related => by rw [related.role])
    (fun _ => by simp [role])
  rw [arity, arity, argumentJoins, argumentJoins, h.1.kind]
  by_cases call : t.kind = .call
  · rw [if_pos call, if_pos call, if_pos call, if_pos call, positional, positional]
    have arguments : Option.Rel (Matches m.Nodes joins) (t.child? .arguments) (u.child? .arguments) := arguments
    generalize t.child? .arguments = x, u.child? .arguments = y at arguments
    cases arguments with
    | none => rfl
    | some related =>
      dsimp only
      rw [related.1.kind]
      split
      · rw [List.length_map, List.length_map]
        exact length_filter_add_joinsIn related.2 _ (fun t u same => by rw [same]) fun _ => by simp [kind]
      · rfl
  · rw [if_neg call, if_neg call, if_neg call, if_neg call]

theorem sum_arity_add_joinsGiven (h : Paired m.Nodes joins ts us) :
    ((preorders us).map arity).sum + joinsGiven ts = ((preorders ts).map arity).sum + joinsGiven us := by
  induction h with
  | nil => rfl
  | @cons t u ts us related children _ ih ih' =>
    have here := arity_add_argumentJoins ⟨related, children⟩
    simp only [joinsGiven, preorders, preorder_eq, ← preorders_eq_flatMap, List.map_append, List.map_cons, List.sum_append,
      List.sum_cons] at ih ih' ⊢
    omega
  | @join q ts us _ _ ih =>
    have none : arity (.node .lineJoin none q [] []) = 0 ∧ argumentJoins (.node .lineJoin none q [] []) = 0 := ⟨rfl, rfl⟩
    simp only [joinsGiven, preorders, preorder_eq, children, List.flatMap_nil, List.map_append, List.map_cons, List.map_nil,
      List.sum_append, List.sum_cons, List.sum_nil, none] at ih ⊢
    omega

end Counts

end Tree

end Syntax

open Tree

/-- What a line join does to a cell that is accepted, as long as all that is asked in its reading is answered alike. -/
theorem constructsOf_joined_of_asked (a post : List Char) {cs : List Construct}
    (accepted : constructsOf (String.ofList (a ++ post)) = .ok cs)
    (bears : ∀ x ∈ asked grammar (fuelFor (a ++ post)) cell { rest := a ++ post }, x.1.bearsJoin post.length x.2 = true)
    (inside : ∀ t, Tree.ofSource? (a ++ post) = some t →
      ∀ s ∈ t.statements, s.beginsBehind a.length (a ++ post) = false) :
    ∃ t u, Tree.ofSource? (a ++ post) = some t ∧ Tree.ofSource? (a ++ (joint ++ post)) = some u ∧
      Matches (Mirror.joined a post).Nodes True t u ∧
      (joinsShown [u] = joinsShown [t] → constructsOf (String.ofList (a ++ (joint ++ post))) = .ok cs) ∧
      (constructsOf (String.ofList (a ++ (joint ++ post))) = .ok cs → joinsGiven [u] = joinsGiven [t]) := by
  obtain ⟨t, read, fine, rfl⟩ := constructsOf_eq_ok_iff.mp accepted
  rw [String.toList_ofList] at read fine
  obtain ⟨u, read', related, children⟩ := (Mirror.keeps_joined a post).exists_ofSource?
    (Mirror.cuts_before (List.nil_append a).symm) bears read
  refine ⟨t, u, read, read', ⟨related, children⟩, fun hidden => ?_, fun accepted' => ?_⟩
  case refine_2 =>
    obtain ⟨u', read'', -, same⟩ := constructsOf_eq_ok_iff.mp accepted'
    rw [String.toList_ofList, read', Option.some.injEq] at read''
    have counted := sum_arity_add_joinsGiven (Tree.Paired.singleton related children)
    rw [preorders_singleton, preorders_singleton, ← sum_arity, ← sum_arity] at counted
    rw [← read'', constructs, constructs] at same
    rw [same] at counted
    omega
  have kinds (t u : Tree) (related : (Mirror.joined a post).Nodes t u) : u.kind = t.kind := related.kind
  have same : Tree.Paired (Joined a post) True [t] [u] := (Tree.Paired.singleton related children).shown kinds hidden
  have agree (t u : Tree) (h : Joined a post t u) : Agree t u := h.agree
  have fine' : ∀ n ∈ u.preorder, n.Conforms (a ++ (joint ++ post)) := by
    have lines : ∀ n ∈ preorders [t], n.kind = .module ∨ n.kind = .block → ∀ c ∈ n.children, ∀ d, Joined a post c d →
        d.LeadsLine (a ++ (joint ++ post)) → c.LeadsLine (a ++ post) ∧ d.start.column = c.start.column := by
      intro n mem suite c memC d h leads
      rw [preorders_singleton] at mem
      exact h.leadsLine (inside t read c (mem_statements mem suite memC (mt (isExtra_iff h.agree.kind).mpr leads.1))) leads
    have all := same.conforms agree lines (fun a b h string => by rw [h.ofToken?_eq string])
      (fun a b h string => h.backtick string) (by rwa [preorders_singleton])
    rwa [preorders_singleton] at all
  refine constructsOf_eq_ok_iff.mpr ⟨u, ?_, ?_, ?_⟩
  · rw [String.toList_ofList, read']
  · rwa [String.toList_ofList]
  · rw [constructs, constructs]
    have all := same.filterMap_eq (f := construct?) (g := construct?) (fun _ _ _ h => construct?_eq_of_joined h) fun _ => rfl
    rwa [preorders_singleton, preorders_singleton] at all

/-- A cell that is accepted is read with a line join put in between two of its lexemes, where its line may be indented and
no statement begins. The nodes are the same but for the join; and unless that shows among arguments or before the operand
of parentheses, the cell is accepted with the same constructs. -/
theorem constructsOf_joined (a post : List Char) {cs : List Construct}
    (accepted : constructsOf (String.ofList (a ++ post)) = .ok cs)
    (bears : ∀ p ∈ places (a ++ post), p.bearsJoin post.length (indentations post.length (a ++ post)) = true)
    (inside : ∀ t, Tree.ofSource? (a ++ post) = some t →
      ∀ s ∈ t.statements, s.beginsBehind a.length (a ++ post) = false) :
    ∃ t u, Tree.ofSource? (a ++ post) = some t ∧ Tree.ofSource? (a ++ (joint ++ post)) = some u ∧
      Matches (Mirror.joined a post).Nodes True t u ∧
      (joinsShown [u] = joinsShown [t] → constructsOf (String.ofList (a ++ (joint ++ post))) = .ok cs) ∧
      (constructsOf (String.ofList (a ++ (joint ++ post))) = .ok cs → joinsGiven [u] = joinsGiven [t]) :=
  constructsOf_joined_of_asked a post accepted
    (fun x mem => (isAsked _ _ x mem).bearsJoin fun p reached => bears p (reached_iff_mem_places.mp reached)) inside

/-- Between two literals a join is passed over; before an argument it is not. -/
theorem constructsOf_joined_literals :
    constructsOf "f('x' 'y')" = .ok [.call (.name "f") [.text "xy"]] ∧
      constructsOf "f('x'  \\\n 'y')" = .ok [.call (.name "f") [.text "xy"]] ∧
      constructsOf "f(x)" = .ok [.call (.name "f") [.name "x"]] ∧
      constructsOf "f( \\\n x)" ≠ .ok [.call (.name "f") [.name "x"]] := by
  have counts (f : List Tree → Nat) (n k : Nat) {text joined : List Char} {t u : Tree}
      (read : Tree.ofSource? text = some t) (image : Tree.ofSource? joined = some u)
      (count : (Tree.ofSource? text).map (fun t => f [t]) = some n)
      (count' : (Tree.ofSource? joined).map (fun t => f [t]) = some k) : f [t] = n ∧ f [u] = k := by
    rw [read] at count
    rw [image] at count'
    exact ⟨Option.some.inj count, Option.some.inj count'⟩
  have inside {a post : List Char} (none : (Tree.ofSource? (a ++ post)).all (fun t =>
      t.statements.all fun s => !s.beginsBehind a.length (a ++ post)) = true) :
      ∀ t, Tree.ofSource? (a ++ post) = some t → ∀ s ∈ t.statements, s.beginsBehind a.length (a ++ post) = false := by
    intro t read s mem
    rw [read, Option.all_some, List.all_eq_true] at none
    simpa using none s mem
  have parts : constructsOf (String.ofList ("f('x' ".toList ++ "'y')".toList)) = .ok [.call (.name "f") [.text "xy"]] :=
    constructsOf_of_toOption (by decide +kernel)
  have single : constructsOf (String.ofList ("f(".toList ++ "x)".toList)) = .ok [.call (.name "f") [.name "x"]] :=
    constructsOf_of_toOption (by decide +kernel)
  refine ⟨parts, ?_, single, fun accepted => ?_⟩
  · obtain ⟨t, u, read, image, -, hidden, -⟩ := constructsOf_joined "f('x' ".toList "'y')".toList parts
      (List.all_eq_true.mp (by decide +kernel)) (inside (by decide +kernel))
    obtain ⟨shown, shown'⟩ := counts joinsShown 0 0 read image (by decide +kernel) (by decide +kernel)
    exact hidden (shown'.trans shown.symm)
  · obtain ⟨t, u, read, image, -, -, same⟩ := constructsOf_joined "f(".toList "x)".toList single
      (List.all_eq_true.mp (by decide +kernel)) (inside (by decide +kernel))
    obtain ⟨given, given'⟩ := counts joinsGiven 0 1 read image (by decide +kernel) (by decide +kernel)
    have := same accepted
    omega

end Footprint
