import Footprint.Toml.Node

/-!
# What a tree of tables shows along its paths

What a tree shows along a path is told apart from how the tree is made. A change at the end of a path shows there, and
along the path where a table was missing, and nowhere else.
-/

namespace Footprint.Toml

/-- What a node shows from outside. -/
inductive Sight where
  | value (n : Node)
  | table (origin : Origin)
  | array

def Node.sight : Node → Sight
  | .table .inline fs => .value (.table .inline fs)
  | .table o _ => .table o
  | .tables _ _ => .array
  | n => .value n

def Node.inside? : Node → Option Fields
  | .table .inline _ => none
  | .table _ fs => some fs
  | .tables fs _ => some fs
  | _ => none

def Node.see (n : Node) : List String → Option Sight
  | [] => some n.sight
  | k :: ks => n.inside?.bind fun fs => (fs.lookup k).bind fun m => m.see ks

def Fields.see (fs : Fields) : List String → Option Sight
  | [] => none
  | k :: ks => (fs.lookup k).bind fun n => n.see ks

variable {fs fs' gs gs' : Fields} {n : Node} {k name : String} {ks path key p q r : List String} {o : Origin}
  {way : Sight} {below : List String → Option Sight} {dotted : Bool}

theorem Node.see_of_inside (h : n.inside? = some fs) (nonempty : p ≠ []) : n.see p = fs.see p := by
  cases p with
  | nil => exact absurd rfl nonempty
  | cons k ks => rw [Node.see, h, Option.bind_some, Fields.see]

theorem Node.see_of_not_inside (h : n.inside? = none) (nonempty : p ≠ []) : n.see p = none := by
  cases p with
  | nil => exact absurd rfl nonempty
  | cons k ks => rw [Node.see, h, Option.bind_none]

theorem Node.sight_table (h : o ≠ .inline) (fs : Fields) : (Node.table o fs).sight = .table o := by
  cases o with
  | inline => exact absurd rfl h
  | header => rfl
  | implied => rfl
  | dotted => rfl

theorem Node.inside?_table (h : o ≠ .inline) : (Node.table o fs).inside? = some fs := by
  cases o with
  | inline => exact absurd rfl h
  | header => rfl
  | implied => rfl
  | dotted => rfl

namespace Fields

theorem see_empty (p : List String) : Fields.see [] p = none := by
  cases p <;> rfl

theorem see_cons (fs : Fields) (k : String) (ks : List String) :
    fs.see (k :: ks) = (fs.lookup k).bind fun n => n.see ks := rfl

@[simp] theorem see_put_self (fs : Fields) (k : String) (n : Node) (ks : List String) :
    (fs.put k n).see (k :: ks) = n.see ks := by
  rw [see_cons, lookup_put_self, Option.bind_some]

theorem see_put_of_ne (h : k ≠ name) (n : Node) (ks : List String) :
    (fs.put name n).see (k :: ks) = fs.see (k :: ks) := by
  rw [see_cons, lookup_put_of_ne h, see_cons]

/-- A table differs from another one at a path and below, and by tables on the way there that were missing. -/
structure Puts (way : Sight) (path : List String) (below : List String → Option Sight) (fs fs' : Fields) : Prop where
  under : ∀ r, fs'.see (path ++ r) = below r
  along : ∀ q r, q ≠ [] → r ≠ [] → q ++ r = path → fs'.see q = (fs.see q).or (some way)
  apart : ∀ q, ¬path <+: q → ¬q <+: path → fs'.see q = fs.see q

theorem puts_put (way : Sight) (name : String) (n : Node) (fs : Fields) : Puts way [name] n.see fs (fs.put name n) where
  under r := see_put_self fs name n r
  along q r hq hr same := by
    cases q with
    | nil => exact absurd rfl hq
    | cons k ks =>
      rw [List.cons_append, List.cons.injEq, List.append_eq_nil_iff] at same
      exact absurd same.2.2 hr
  apart q hq _ := by
    cases q with
    | nil => rfl
    | cons k ks =>
      refine see_put_of_ne ?_ n ks
      rintro rfl
      exact hq ⟨ks, rfl⟩

theorem Puts.cons (inner : Puts way path below gs gs') (nonempty : path ≠ [])
    (old : ∀ p, p ≠ [] → fs.see (k :: p) = gs.see p) (inside : n.inside? = some gs')
    (sight : some n.sight = (fs.see [k]).or (some way)) : Puts way (k :: path) below fs (fs.put k n) where
  under r := by
    rw [List.cons_append, see_put_self, Node.see_of_inside inside (by simp [nonempty])]
    exact inner.under r
  along q r hq hr same := by
    cases q with
    | nil => exact absurd rfl hq
    | cons j js =>
      rw [List.cons_append, List.cons.injEq] at same
      obtain ⟨rfl, same⟩ := same
      rw [see_put_self]
      by_cases last : js = []
      · rw [last]
        exact sight
      · rw [Node.see_of_inside inside last, inner.along js r last hr same, old js last]
  apart q hq hp := by
    cases q with
    | nil => rfl
    | cons j js =>
      by_cases same : j = k
      · subst same
        rw [List.cons_prefix_cons] at hq hp
        have last : js ≠ [] := by
          rintro rfl
          exact hp ⟨rfl, List.nil_prefix⟩
        rw [see_put_self, Node.see_of_inside inside last, old js last]
        exact inner.apart js (fun h => hq ⟨rfl, h⟩) fun h => hp ⟨rfl, h⟩
      · exact see_put_of_ne same n js

/-! ### Changes at the end of a path -/

def made (dotted : Bool) : Origin := if dotted then .dotted else .implied

def Passable (dotted : Bool) (way : Sight) : Option Sight → Prop
  | none => way = .table (made dotted)
  | some (.table o) => dotted = true → o ≠ .header
  | some .array => True
  | some (.value _) => False

def originOf? (dotted : Bool) : Option Sight → Option Origin
  | none => some (made dotted)
  | some (.table o) => some o
  | some .array => some .header
  | some (.value _) => none

structure Target (dotted : Bool) (path : List String) (o : Origin) (fs : Fields) (o' : Origin) (gs : Fields) :
    Prop where
  sees : ∀ r, r ≠ [] → gs.see r = fs.see (path ++ r)
  first : path = [] → o' = o
  origin : path ≠ [] → originOf? dotted (fs.see path) = some o'

theorem Target.cons {o₀ o₁ o₂ : Origin} (inner : Target dotted path o₁ gs o₂ gs')
    (old : ∀ p, p ≠ [] → fs.see (k :: p) = gs.see p) (here : originOf? dotted (fs.see [k]) = some o₁) :
    Target dotted (k :: path) o₀ fs o₂ gs' where
  sees r hr := by rw [inner.sees r hr, List.cons_append, old _ (by simp [hr])]
  first none := by cases none
  origin _ := by
    by_cases last : path = []
    · rw [last, here, inner.first last]
    · rw [old path last]
      exact inner.origin last

/-- A change at the end of a path shows there. The induction is on the path; where no table is yet, it goes on in an
empty one. -/
theorem within_puts {change : Origin → Fields → Option (Origin × Fields)}
    (passes : ∀ p r, p ≠ [] → p ++ r = path → Passable dotted way (fs.see p)) (nonempty : key ≠ [])
    (changes : ∀ o' gs, Target dotted path o fs o' gs →
      ∃ gs', change o' gs = some (o', gs') ∧ Puts way key below gs gs') :
    ∃ fs', within dotted change path o fs = some (o, fs') ∧ Puts way (path ++ key) below fs fs' := by
  induction path generalizing o fs with
  | nil =>
    obtain ⟨fs', changed, puts⟩ := changes o fs ⟨fun r _ => rfl, fun _ => rfl, fun h => absurd rfl h⟩
    exact ⟨fs', changed, puts⟩
  | cons k path ih =>
    have first := passes [k] path (by simp) rfl
    have later : path ++ key ≠ [] := by simp [nonempty]
    cases held : fs.lookup k with
    | none =>
      have absent (p : List String) : fs.see (k :: p) = none := by rw [see_cons, held, Option.bind_none]
      have old (p : List String) (_ : p ≠ []) : fs.see (k :: p) = Fields.see [] p := by rw [absent, see_empty]
      rw [absent] at first
      obtain ⟨gs', changed, puts⟩ := ih
        (fun p r _ _ => by rw [see_empty]; exact first)
        (fun o' gs (target : Target dotted path (made dotted) [] o' gs) =>
          changes o' gs (target.cons old (by rw [absent]; rfl)))
      refine ⟨fs.put k (.table (made dotted) gs'), ?_, ?_⟩
      · rw [made] at changed
        simp only [within, held, changed, made]
        rfl
      · cases dotted <;> exact puts.cons later old rfl (by rw [absent, first]; rfl)
    | some n =>
      have sight : fs.see [k] = some n.sight := by rw [see_cons, held]; rfl
      rw [sight] at first
      cases n with
      | text s => exact absurd first id
      | scalar => exact absurd first id
      | moment => exact absurd first id
      | list items => exact absurd first id
      | table o' gs =>
        by_cases inline : o' = .inline
        · subst inline
          exact absurd first id
        have old (p : List String) (hp : p ≠ []) : fs.see (k :: p) = Fields.see gs p := by
          rw [see_cons, held, Option.bind_some, Node.see_of_inside (Node.inside?_table inline) hp]
        rw [Node.sight_table inline] at first sight
        obtain ⟨gs', changed, puts⟩ := ih
          (fun p r hp same => by rw [← old p hp]; exact passes (k :: p) r (by simp) (by simp [same]))
          (fun o'' hs (target : Target dotted path o' gs o'' hs) =>
            changes o'' hs (target.cons old (by rw [sight]; rfl)))
        refine ⟨fs.put k (.table o' gs'), ?_, puts.cons later old (Node.inside?_table inline) ?_⟩
        · have open' : ¬(o' = .inline ∨ (dotted = true ∧ o' = .header)) := by
            rintro (same | ⟨isDotted, same⟩)
            · exact inline same
            · exact first isDotted same
          simp only [within, held, changed, if_neg open']
          rfl
        · rw [sight, Node.sight_table inline]
          rfl
      | tables gs earlier =>
        have old (p : List String) (hp : p ≠ []) : fs.see (k :: p) = Fields.see gs p := by
          rw [see_cons, held, Option.bind_some, Node.see_of_inside rfl hp]
        obtain ⟨gs', changed, puts⟩ := ih
          (fun p r hp same => by rw [← old p hp]; exact passes (k :: p) r (by simp) (by simp [same]))
          (fun o' hs (target : Target dotted path .header gs o' hs) =>
            changes o' hs (target.cons old (by rw [sight]; rfl)))
        refine ⟨fs.put k (.tables gs' earlier), ?_, puts.cons later old rfl (by rw [sight]; rfl)⟩
        simp only [within, held, changed]
        rfl

/-! ### Fields and headers -/

theorem see_singleton (fs : Fields) (k : String) : fs.see [k] = (fs.lookup k).map Node.sight := by
  rw [see_cons, Option.map_eq_bind]
  rfl

theorem lookup_of_see_none (h : fs.see [k] = none) : fs.lookup k = none := by
  rw [see_singleton] at h
  exact Option.map_eq_none_iff.mp h

theorem exists_further (same : p ++ r = path) (name : String) : ∃ k ks, p ++ k :: ks = path ++ [name] := by
  rw [← same]
  cases r with
  | nil => exact ⟨name, [], by simp⟩
  | cons k ks => exact ⟨k, ks ++ [name], by simp⟩

/-- A field may be inserted in a table: it is new, and on the way there are only tables that dotted keys made, or before
the last one also tables that are implied. -/
structure MayInsert (fs : Fields) (key : List String) : Prop where
  nonempty : key ≠ []
  new : fs.see key = none
  way : ∀ p k ks, p ++ k :: ks = key → p ≠ [] →
    fs.see p = none ∨ fs.see p = some (.table .dotted) ∨ (fs.see p = some (.table .implied) ∧ ks ≠ [])

theorem insert_puts (h : MayInsert fs key) (base : o ≠ .dotted) (n : Node) :
    ∃ fs', insert key n o fs = some (o, fs') ∧ Puts (.table .dotted) key n.see fs fs' := by
  rcases List.eq_nil_or_concat key with rfl | ⟨path, name, rfl⟩
  · exact absurd rfl h.nonempty
  rw [List.concat_eq_append] at h ⊢
  have passes (p r : List String) (hp : p ≠ []) (same : p ++ r = path) :
      Passable true (.table .dotted) (fs.see p) := by
    obtain ⟨k, ks, further⟩ := exists_further same name
    rcases h.way p k ks further hp with absent | dotted | ⟨implied, -⟩
    · rw [absent]
      rfl
    · rw [dotted]
      exact fun _ => Origin.noConfusion
    · rw [implied]
      exact fun _ => Origin.noConfusion
  have changes (o' : Origin) (gs : Fields) (target : Target true path o fs o' gs) :
      ∃ gs', add (!path.isEmpty) name n o' gs = some (o', gs') ∧ Puts (.table .dotted) [name] n.see gs gs' := by
    refine ⟨gs.put name n, ?_, puts_put _ name n gs⟩
    have absent : gs.lookup name = none := lookup_of_see_none (by rw [target.sees _ (by simp)]; exact h.new)
    have origin : ((o' == .dotted) != !path.isEmpty) = false := by
      cases path with
      | nil =>
        rw [target.first rfl]
        cases o with
        | dotted => exact absurd rfl base
        | _ => rfl
      | cons k ks =>
        have origin := target.origin (by simp)
        rcases h.way (k :: ks) name [] rfl (by simp) with absent | dotted | ⟨-, far⟩
        · rw [absent] at origin
          cases origin
          rfl
        · rw [dotted] at origin
          cases origin
          rfl
        · exact absurd rfl far
    rw [add, origin, absent]
    rfl
  obtain ⟨fs', changed, puts⟩ := within_puts passes (List.cons_ne_nil name []) changes
  refine ⟨fs', ?_, puts⟩
  rw [insert, List.dropLast_concat, List.getLastD_concat]
  exact changed

/-- A header leads through tables, which may be missing. -/
def MayPass (fs : Fields) (path : List String) : Prop :=
  ∀ p k ks, p ++ k :: ks = path → p ≠ [] → ∀ n, fs.see p ≠ some (.value n)

theorem MayPass.passes (h : MayPass fs (path ++ [name])) (p r : List String) (hp : p ≠ []) (same : p ++ r = path) :
    Passable false (.table .implied) (fs.see p) := by
  obtain ⟨k, ks, further⟩ := exists_further same name
  have noValue := h p k ks further hp
  cases sight : fs.see p with
  | none => rfl
  | some s =>
    cases s with
    | value n => exact absurd sight (noValue n)
    | table o => exact fun isDotted => by cases isDotted
    | array => exact trivial

/-- What shows at and below a path, when a table is opened there. -/
def opened (fs : Fields) (path : List String) : List String → Option Sight
  | [] => some (.table .header)
  | r => fs.see (path ++ r)

theorem open_puts (h : MayPass fs (path ++ [name]))
    (new : fs.see (path ++ [name]) = none ∨ fs.see (path ++ [name]) = some (.table .implied)) :
    ∃ fs', within false (open? name) path o fs = some (o, fs') ∧
      Puts (.table .implied) (path ++ [name]) (opened fs (path ++ [name])) fs fs' := by
  refine within_puts h.passes (by simp) fun o' gs target => ?_
  have sees (r : List String) : gs.see (name :: r) = fs.see (path ++ [name] ++ r) := by
    rw [target.sees _ (by simp), List.append_assoc]
    rfl
  have here := sees []
  rw [List.append_nil] at here
  rw [← here] at new
  rcases new with absent | implied
  · have free := lookup_of_see_none absent
    refine ⟨gs.put name (.table .header []), by rw [open?, free], ?_⟩
    have below : (Node.table .header []).see = opened fs (path ++ [name]) := by
      funext r
      cases r with
      | nil => rfl
      | cons k ks =>
        rw [Node.see_of_inside rfl (by simp), see_empty, opened, ← sees, see_cons, free, Option.bind_none]
        simp
    rw [← below]
    exact puts_put _ _ _ _
  · rw [see_singleton] at implied
    obtain ⟨n, held, sight⟩ := Option.map_eq_some_iff.mp implied
    have table : ∃ hs, n = .table .implied hs := by
      cases n with
      | table o hs =>
        cases o with
        | implied => exact ⟨hs, rfl⟩
        | _ => cases sight
      | _ => cases sight
    obtain ⟨hs, rfl⟩ := table
    refine ⟨gs.put name (.table .header hs), by rw [open?, held], ?_⟩
    have below : (Node.table .header hs).see = opened fs (path ++ [name]) := by
      funext r
      cases r with
      | nil => rfl
      | cons k ks =>
        have inner : gs.see (name :: k :: ks) = Fields.see hs (k :: ks) := by
          rw [see_cons, held, Option.bind_some, Node.see_of_inside (Node.inside?_table (by simp)) (by simp)]
        rw [Node.see_of_inside rfl (by simp), opened, ← sees, inner]
        simp
    rw [← below]
    exact puts_put _ _ _ _

/-- What shows at and below a path, when an array has one more table there. -/
def openedNext : List String → Option Sight
  | [] => some .array
  | _ => none

theorem openNext_puts (h : MayPass fs (path ++ [name]))
    (new : fs.see (path ++ [name]) = none ∨ fs.see (path ++ [name]) = some .array) :
    ∃ fs', within false (openNext? name) path o fs = some (o, fs') ∧
      Puts (.table .implied) (path ++ [name]) openedNext fs fs' := by
  refine within_puts h.passes (by simp) fun o' gs target => ?_
  have here : gs.see [name] = fs.see (path ++ [name]) := target.sees _ (by simp)
  have below (earlier : List Fields) : (Node.tables [] earlier).see = openedNext := by
    funext r
    cases r with
    | nil => rfl
    | cons k ks => exact (Node.see_of_inside rfl (by simp)).trans (see_empty _)
  rw [← here] at new
  rcases new with absent | array
  · refine ⟨gs.put name (.tables [] []), by rw [openNext?, lookup_of_see_none absent], ?_⟩
    rw [← below []]
    exact puts_put _ _ _ _
  · rw [see_singleton] at array
    obtain ⟨n, held, sight⟩ := Option.map_eq_some_iff.mp array
    cases n with
    | tables hs earlier =>
      refine ⟨gs.put name (.tables [] (hs :: earlier)), by rw [openNext?, held], ?_⟩
      rw [← below (hs :: earlier)]
      exact puts_put _ _ _ _
    | table o hs => cases o <;> cases sight
    | text s => cases sight
    | scalar => cases sight
    | moment => cases sight
    | list items => cases sight

end Fields

end Footprint.Toml
