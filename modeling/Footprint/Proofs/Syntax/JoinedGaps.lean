import Footprint.Proofs.Syntax.GapImages
import Footprint.Proofs.Syntax.Literals

/-!
# Gaps with a further line join

Lines may be joined explicitly wherever a gap may stand. The gap is passed as before, up to the same place, with a node
more for the join unless a string literal follows, and its last line may be indented more.
-/

namespace Footprint.Syntax

open Text StringLiteral

variable {a post u v w x cs : List Char}

def joint : List Char := [' ', '\\', '\n', ' ']

/-- A text with a line join put in, so many characters before its end. -/
def withJoin (k : Nat) (cs : List Char) : List Char := cs.take (cs.length - k) ++ (joint ++ cs.drop (cs.length - k))

theorem withJoin_append (u post : List Char) : withJoin post.length (u ++ post) = u ++ (joint ++ post) := by
  rw [withJoin, List.length_append, Nat.add_sub_cancel, List.take_left, List.drop_left]

def BeginAlike (w w' : List Char) : Prop :=
  ∃ letters mark rest rest', (∀ c ∈ letters, c ∈ prefixLetters) ∧ IsAnyMark mark ∧ hasLetter letters 'f' = true ∧
    w = letters ++ mark :: rest ∧ w' = letters ++ mark :: rest'

/-- A text with a line join put in at one place, as its image. -/
def Mirror.joined (a post : List Char) : Mirror where
  cuts before behind before' behind' :=
    (∃ u, a = before ++ u ∧ behind = u ++ post ∧ before' = before ∧ behind' = u ++ (joint ++ post)) ∨
    ∃ x, before = a ++ x ∧ post = x ++ behind ∧ before' = a ++ (joint ++ x) ∧ behind' = behind
  literals w w' := w' = w ∨ BeginAlike w w'
  joins := True

theorem Mirror.cuts_before (split : a = v ++ u) :
    (Mirror.joined a post).cuts v (u ++ post) v (u ++ (joint ++ post)) := .inl ⟨u, split, rfl, rfl, rfl⟩

theorem Mirror.cuts_behind (split : post = x ++ cs) :
    (Mirror.joined a post).cuts (a ++ x) cs (a ++ (joint ++ x)) cs := .inr ⟨x, rfl, split, rfl, rfl⟩

/-! ### Gaps -/

namespace Gap

variable {g g' : Progress} {c : Comparison}

/-- Texts that a line join may begin with. -/
def SplitsJoin (u : List Char) : Prop := u = ['\\'] ∨ u = ['\\', '\r']

theorem joinLength?_append (more : u ≠ []) (whole : u ≠ ['\r']) (x y : List Char) :
    joinLength? (u ++ x) = joinLength? (u ++ y) := by
  rcases u with _ | ⟨d, _ | ⟨e, u⟩⟩
  · exact absurd rfl more
  · have ret : d ≠ '\r' := fun same => whole (by rw [same])
    show joinLength? (d :: x) = joinLength? (d :: y)
    unfold joinLength?
    split <;> simp_all
  · show joinLength? (d :: e :: (u ++ x)) = joinLength? (d :: e :: (u ++ y))
    unfold joinLength?
    split <;> simp_all

/-- What is passed next is settled before the end of a text that no join is split by. -/
theorem next?_append (more : u ≠ []) (whole : ¬SplitsJoin u) (x y : List Char) : next? (u ++ x) = next? (u ++ y) := by
  obtain ⟨c, cs, rfl⟩ := List.exists_cons_of_ne_nil more
  rw [List.cons_append, List.cons_append, next?, next?]
  cases passOf? c with
  | some => rfl
  | none =>
    dsimp only
    split
    · rename_i backslash
      rw [joinLength?_append (fun none => whole (.inl (by rw [backslash, none])))
        (fun ret => whole (.inr (by rw [backslash, ret]))) x y]
    · rfl

/-- A join that is split is none, unless what follows goes on with it. -/
theorem next?_of_splits (splits : SplitsJoin u) {d : Char} (other : d ∉ ['\n', '\r', '\x00']) (cs : List Char) :
    next? (u ++ d :: cs) = none := by
  simp only [List.mem_cons, List.not_mem_nil, or_false, not_or] at other
  rcases splits with rfl | rfl
  · show ((joinLength? (d :: cs)).map fun n => (Pass.join, n + 1)) = none
    unfold joinLength?
    split <;> simp_all
  · show ((joinLength? ('\r' :: d :: cs)).map fun n => (Pass.join, n + 1)) = none
    unfold joinLength?
    split <;> simp_all

theorem le_of_next_splits {pass : Pass} {n : Nat} (splits : SplitsJoin u) (next : next? (u ++ x) = some (pass, n)) :
    u.length ≤ n := by
  rcases splits with rfl | rfl
  · exact (length_of_next next).1
  · have joined : ((joinLength? ('\r' :: x)).map fun n => (Pass.join, n + 1)) = some (pass, n) := next
    unfold joinLength? at joined
    split at joined <;> simp_all
    omega

/-- Behind the join the text is the same, and so is what a scan makes of it. -/
theorem scanFrom_behind (h : g.Like (.joined a post) c g') (split : post = x ++ cs) :
    (scanFrom g (({} : Position).afterAll (a ++ x)) cs).Like (.joined a post) c
        (scanFrom g' (({} : Position).afterAll (a ++ (joint ++ x))) cs) ∧
      (scanFrom g' (({} : Position).afterAll (a ++ (joint ++ x))) cs).rest =
        (scanFrom g (({} : Position).afterAll (a ++ x)) cs).rest := by
  induction bound : cs.length using Nat.strongRecOn generalizing g g' x cs with
  | ind n ih =>
    have further {g g' : Progress} (passed ds : List Char) (h : g.Like (.joined a post) c g') (some : 0 < passed.length)
        (same : cs = passed ++ ds) :
        (scanFrom g ((({} : Position).afterAll (a ++ x)).afterAll passed) ds).Like (.joined a post) c
            (scanFrom g' ((({} : Position).afterAll (a ++ (joint ++ x))).afterAll passed) ds) ∧
          (scanFrom g' ((({} : Position).afterAll (a ++ (joint ++ x))).afterAll passed) ds).rest =
            (scanFrom g ((({} : Position).afterAll (a ++ x)).afterAll passed) ds).rest := by
      rw [← Position.afterAll_append, ← Position.afterAll_append, List.append_assoc, List.append_assoc, List.append_assoc]
      refine ih ds.length ?_ h (by rw [split, same, List.append_assoc]) rfl
      rw [← bound, same, List.length_append]
      omega
    have places : (Mirror.joined a post).Places (({} : Position).afterAll (a ++ x))
        (({} : Position).afterAll (a ++ (joint ++ x))) := ⟨_, _, _, _, Mirror.cuts_behind split, rfl, rfl⟩
    cases cs with
    | nil => exact ⟨h.finishText (Mirror.cuts_behind split), rfl⟩
    | cons d cs =>
      have comment := h.comment
      generalize open_ : g.comment = p, open_' : g'.comment = p' at comment
      cases comment with
      | some began =>
        rw [scanFrom_inside open_, scanFrom_inside open_']
        split
        · exact further [d] cs (h.endComment began).breakLine Nat.one_pos rfl
        split
        · exact ⟨(h.endComment began).finish (Mirror.cuts_behind split) rfl, rfl⟩
        · exact further [d] cs h Nat.one_pos rfl
      | none =>
        rw [scanFrom_next open_ (List.cons_ne_nil d cs), scanFrom_next open_' (List.cons_ne_nil d cs)]
        split
        · rename_i pass k next
          have reach := length_of_next next
          refine further _ _ (h.apply pass places) ?_ (List.take_append_drop k (d :: cs)).symm
          rw [List.length_take, Nat.min_eq_left reach.2]
          exact reach.1
        · exact ⟨h.finish (Mirror.cuts_behind split) rfl, rfl⟩

/-- How far a scan comes in the text before the join: through all of it, whatever follows, or to a token or a split join. -/
inductive Crossing (a post : List Char) (g : Progress) (v u : List Char) : Prop
  | through {g' : Progress} : g'.Like (.joined a post) .equal g' →
    (∀ y, scanFrom g (({} : Position).afterAll v) (u ++ y) = scanFrom g' (({} : Position).afterAll a) y) →
    Crossing a post g v u
  | upTo {x w : List Char} {g' : Progress} : u = x ++ w → w ≠ [] → a = v ++ x ++ w → g'.Like (.joined a post) .equal g' →
    g'.comment = none → SplitsJoin w ∨ (∀ y, next? (w ++ y) = none) →
    (∀ y, scanFrom g (({} : Position).afterAll v) (u ++ y) =
      scanFrom g' (({} : Position).afterAll (v ++ x)) (w ++ y)) → Crossing a post g v u

theorem Crossing.after (passed : List Char) (h : Crossing a post g' (v ++ passed) u)
    (scan : ∀ y, scanFrom g (({} : Position).afterAll v) (passed ++ (u ++ y)) =
      scanFrom g' ((({} : Position).afterAll v).afterAll passed) (u ++ y)) : Crossing a post g v (passed ++ u) := by
  simp only [← Position.afterAll_append] at scan
  cases h with
  | through like through => exact .through like fun y => by rw [List.append_assoc, scan, through]
  | upTo parts more split like out stops upTo =>
    refine .upTo (x := passed ++ _) (by rw [parts, List.append_assoc]) more (by rw [split]; simp only [List.append_assoc])
      like out stops fun y => ?_
    rw [List.append_assoc, scan, upTo, List.append_assoc]

theorem crossing (post : List Char) (h : g.Like (.joined a post) .equal g) (split : a = v ++ u) : Crossing a post g v u := by
  induction bound : u.length using Nat.strongRecOn generalizing g v u with
  | ind n ih =>
    have further {g' : Progress} (passed us : List Char) (h : g'.Like (.joined a post) .equal g') (some : 0 < passed.length)
        (same : u = passed ++ us)
        (scan : ∀ y, scanFrom g (({} : Position).afterAll v) (u ++ y) =
          scanFrom g' ((({} : Position).afterAll v).afterAll passed) (us ++ y)) : Crossing a post g v u := by
      have shorter : us.length < n := by
        rw [← bound, same, List.length_append]
        omega
      have rest := ih us.length shorter h (v := v ++ passed) (by rw [split, same, List.append_assoc]) rfl
      rw [same]
      exact rest.after passed fun y => by rw [← scan, same, List.append_assoc]
    have places : (Mirror.joined a post).Places (({} : Position).afterAll v) (({} : Position).afterAll v) :=
      ⟨_, _, _, _, Mirror.cuts_before split, rfl, rfl⟩
    by_cases none : u = []
    · subst none
      rw [List.append_nil] at split
      subst split
      exact .through h fun _ => rfl
    cases open_ : g.comment with
    | some p =>
      obtain ⟨d, us, rfl⟩ := List.exists_cons_of_ne_nil none
      have began := h.comment
      rw [open_] at began
      cases began with
      | some began =>
        by_cases feed : d = '\n'
        · refine further [d] us (h.endComment began).breakLine Nat.one_pos rfl fun y => ?_
          rw [List.cons_append, scanFrom_inside open_, if_pos feed]
          rfl
        by_cases null : d = '\x00'
        · subst null
          refine .upTo (x := []) rfl none (by rw [List.append_nil, split]) (h.endComment began) rfl
            (.inr fun y => rfl) fun y => ?_
          rw [List.append_nil, List.cons_append, scanFrom_inside open_, if_neg feed, if_pos rfl,
            scanFrom_solid rfl (by decide)]
        · refine further [d] us h Nat.one_pos rfl fun y => ?_
          rw [List.cons_append, scanFrom_inside open_, if_neg feed, if_neg null]
          rfl
    | none =>
      have here (stops : SplitsJoin u ∨ ∀ y, next? (u ++ y) = Option.none) : Crossing a post g v u :=
        .upTo (x := []) rfl none (by rw [List.append_nil, split]) h open_ stops fun y => by rw [List.append_nil]
      by_cases splits : SplitsJoin u
      · exact here (.inl splits)
      cases next : next? u with
      | none => exact here (.inr fun y => by rw [next?_append none splits y [], List.append_nil, next])
      | some p =>
        obtain ⟨pass, k⟩ := p
        have reach := length_of_next next
        refine further (u.take k) (u.drop k) (h.apply pass places) ?_ (List.take_append_drop k u).symm fun y => ?_
        · rw [List.length_take, Nat.min_eq_left reach.2]
          exact reach.1
        · rw [scanFrom_next open_ (by simp [none]), next?_append none splits y [], List.append_nil, next]
          dsimp only
          rw [List.take_append_of_le_length reach.2, List.drop_append_of_le_length reach.2]


theorem Crossing.next?_of_stops (stops : SplitsJoin w ∨ ∀ y, next? (w ++ y) = none) {d : Char}
    (other : d ∉ ['\n', '\r', '\x00']) (cs : List Char) : next? (w ++ d :: cs) = none := by
  rcases stops with splits | stops
  · exact next?_of_splits splits other cs
  · exact stops _

theorem Progress.Like.joint (h : g.Like (.joined a post) .equal g) (p : Position) :
    g.Like (.joined a post) .atMost (((g.indentBy 1).join p).indentBy 1) := by
  have joins : (Mirror.joined a post).Forests g.joins (g.joins ++ [.node .lineJoin none p [] []]) := by
    have all : (Mirror.joined a post).Forests (g.joins ++ []) _ := h.joins.append (.join (p := p) trivial .nil)
    rwa [List.append_nil] at all
  have stops : List.Forall₂ Comparison.atMost.holds g.stops g.stops := h.atMost.stops
  cases frozen : g.frozen with
  | true =>
    simp only [Progress.indentBy, Progress.join, frozen, if_true]
    exact ⟨h.extras, joins, stops, Nat.le_refl _, rfl, frozen ▸ rfl, h.comment⟩
  | false =>
    simp only [Progress.indentBy, Progress.join, frozen, Bool.false_eq_true, if_false]
    exact ⟨h.extras, joins, stops, Nat.le_trans (Nat.le_add_right _ 1) (Nat.le_add_right _ 1), rfl, frozen ▸ rfl, h.comment⟩

/-- Whether a text is passed as a whole: a bracket behind it is what comes next. -/
def covers (u : List Char) (here : Position) : Bool := (scan (u ++ [')']) here).rest == [')']

theorem scanFrom_joint (out : g.comment = none) (here : Position) (cs : List Char) :
    scanFrom g here (joint ++ cs) =
      scanFrom (((g.indentBy 1).join (here.after ' ')).indentBy 1) (here.afterAll joint) cs := by
  have out' : (g.indentBy 1).comment = none := by
    rw [Progress.indentBy]
    split <;> exact out
  show scanFrom g here (' ' :: ('\\' :: ('\n' :: (' ' :: cs)))) = _
  rw [scanFrom_blank out, scanFrom_next out' (List.cons_ne_nil _ _)]
  exact scanFrom_blank (g := (g.indentBy 1).join _) out'

/-- A scan that passes the text before the join passes the join too. -/
theorem scan_through (post : List Char) (split : a = v ++ u) (covered : covers u (({} : Position).afterAll v) = true) :
    (scan (u ++ post) (({} : Position).afterAll v)).Like (.joined a post) .atMost
        (scan (u ++ (joint ++ post)) (({} : Position).afterAll v)) ∧
      (scan (u ++ (joint ++ post)) (({} : Position).afterAll v)).rest =
        (scan (u ++ post) (({} : Position).afterAll v)).rest := by
  rw [covers, beq_iff_eq, scan] at covered
  cases crossing (g := {}) post .empty split with
  | @through g like through =>
    have out : g.comment = none := by
      rw [through] at covered
      cases open_ : g.comment with
      | none => rfl
      | some p =>
        rw [scanFrom_inside open_, if_neg (by decide), if_neg (by decide)] at covered
        cases covered
    have joined : scanFrom g (({} : Position).afterAll a) (joint ++ post) =
        scanFrom (((g.indentBy 1).join (({} : Position).afterAll (a ++ [' ']))).indentBy 1)
          (({} : Position).afterAll (a ++ joint)) post := by
      rw [Position.afterAll_append, Position.afterAll_append]
      exact scanFrom_joint out _ post
    have behind := scanFrom_behind (like.joint (({} : Position).afterAll (a ++ [' ']))) (List.nil_append post).symm
    rw [List.append_nil, List.append_nil] at behind
    rw [scan, scan, through, through, joined]
    exact behind
  | @upTo x w g parts more split like out stops upTo =>
    rw [upTo, scanFrom_next out (by simp), Crossing.next?_of_stops stops (by decide)] at covered
    exact absurd (List.append_left_eq_self.mp covered) more

/-- A scan that stops before the join does so with it too. -/
theorem scan_apart (split : a = v ++ u)
    (apart : post.length < (scan (u ++ post) (({} : Position).afterAll v)).rest.length)
    (string : beginsString (withJoin post.length (scan (u ++ post) (({} : Position).afterAll v)).rest) =
      beginsString (scan (u ++ post) (({} : Position).afterAll v)).rest) :
    (scan (u ++ post) (({} : Position).afterAll v)).Alike (.joined a post)
      (scan (u ++ (joint ++ post)) (({} : Position).afterAll v)) := by
  cases crossing (g := {}) post .empty split with
  | @through g like through =>
    rw [scan, through] at apart
    have := length_rest_scanFrom g (({} : Position).afterAll a) post
    omega
  | @upTo x w g parts more split like out stops upTo =>
    have joined : scanFrom g (({} : Position).afterAll (v ++ x)) (w ++ (joint ++ post)) =
        g.finish (w ++ (joint ++ post)) (({} : Position).afterAll (v ++ x)) := by
      rw [scanFrom_next out (by simp [joint]), joint, List.cons_append, Crossing.next?_of_stops stops (by decide)]
    have bare : scanFrom g (({} : Position).afterAll (v ++ x)) (w ++ post) =
        g.finish (w ++ post) (({} : Position).afterAll (v ++ x)) := by
      rw [scan, upTo, scanFrom_next out (by simp [more])] at apart
      rw [scanFrom_next out (by simp [more])]
      cases next : next? (w ++ post) with
      | none => rfl
      | some p =>
        obtain ⟨pass, n⟩ := p
        rw [next] at apart
        have splits : SplitsJoin w := stops.resolve_right fun stops => by rw [stops] at next; cases next
        have reach := le_of_next_splits splits next
        have rest := length_rest_scanFrom (pass.apply (({} : Position).afterAll (v ++ x)) g)
          ((({} : Position).afterAll (v ++ x)).afterAll ((w ++ post).take n)) ((w ++ post).drop n)
        rw [List.length_drop, List.length_append] at rest
        dsimp only at apart
        omega
    rw [scan, upTo, bare] at string
    rw [scan, scan, upTo, upTo, joined, bare]
    have string : beginsString (w ++ (joint ++ post)) = beginsString (w ++ post) := by
      rw [← withJoin_append]
      exact string
    refine ⟨like.finish (Mirror.cuts_before split) string, ?_, ?_⟩
    · show (w ++ (joint ++ post)).isEmpty = (w ++ post).isEmpty
      rw [List.isEmpty_eq_false_iff.mpr (List.append_ne_nil_of_left_ne_nil more _),
        List.isEmpty_eq_false_iff.mpr (List.append_ne_nil_of_left_ne_nil more _)]
    · show (w ++ (joint ++ post)).head?.any isQuoteMark = (w ++ post).head?.any isQuoteMark
      rw [List.head?_append_of_ne_nil _ more, List.head?_append_of_ne_nil _ more]

end Gap

end Footprint.Syntax
