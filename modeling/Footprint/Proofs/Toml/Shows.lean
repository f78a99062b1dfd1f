import Footprint.Proofs.Toml.Meaning
import Footprint.Proofs.Toml.Tables
import Footprint.Toml.Reader

/-!
# Trees show what paths lead to

A tree that shows what paths lead to keeps showing what the rules say that they lead to, and no rule that is kept stops
the reader.
-/

namespace Footprint.Toml

variable {fs fs' gs : Fields} {n : Node} {path key p q : List String} {o : Origin} {way : Sight}
  {below : List String → Option Sight}

mutual

inductive Denotes : Value → Node → Prop
  | text (s : String) : Denotes (.text s) (.text s)
  | scalar : Denotes .scalar .scalar
  | moment : Denotes .moment .moment
  | list {vs : List Value} {ns : List Node} : DenoteItems vs ns → Denotes (.list vs) (.list ns)
  | table {fs : List (List String × Value)} {gs : List (List String × Node)} {n : Node} : DenoteFields fs gs →
      inlineTable gs = some n → Denotes (.table fs) n

inductive DenoteItems : List Value → List Node → Prop
  | nil : DenoteItems [] []
  | cons {v : Value} {vs : List Value} {n : Node} {ns : List Node} : Denotes v n → DenoteItems vs ns →
      DenoteItems (v :: vs) (n :: ns)

inductive DenoteFields : List (List String × Value) → List (List String × Node) → Prop
  | nil : DenoteFields [] []
  | cons {k : List String} {v : Value} {n : Node} {fs : List (List String × Value)} {gs : List (List String × Node)} :
      Denotes v n → DenoteFields fs gs → DenoteFields ((k, v) :: fs) ((k, n) :: gs)

end

theorem Node.see_append (h : n.see p = none) (r : List String) : n.see (p ++ r) = none := by
  induction p generalizing n with
  | nil => cases h
  | cons k ks ih =>
    rw [List.cons_append]
    unfold Node.see at h ⊢
    cases inside : n.inside? with
    | none => rfl
    | some fs =>
      rw [inside, Option.bind_some] at h
      rw [Option.bind_some]
      cases held : fs.lookup k with
      | none => rfl
      | some m =>
        rw [held] at h
        exact ih h

theorem Fields.see_append (h : fs.see p = none) (hp : p ≠ []) (r : List String) : fs.see (p ++ r) = none := by
  cases p with
  | nil => exact absurd rfl hp
  | cons k ks =>
    rw [List.cons_append]
    rw [see_cons] at h ⊢
    cases held : fs.lookup k with
    | none => rfl
    | some m =>
      rw [held] at h
      exact Node.see_append h r

inductive Shown : Option Sight → Option Item → Prop
  | none : Shown none none
  | value {v : Value} {n : Node} : Denotes v n → Shown (some (.value n)) (some (.value v))
  | header : Shown (some (.table .header)) (some .header)
  | implied : Shown (some (.table .implied)) (some .implied)
  | dotted : Shown (some (.table .dotted)) (some .dotted)
  | array : Shown (some .array) (some .array)

section

variable {s : Option Sight} {i : Option Item}

theorem Shown.eq_none_iff (h : Shown s i) : s = .none ↔ i = .none := by
  cases h <;> simp

theorem Shown.eq_header (h : Shown s (some .header)) : s = some (.table .header) := by
  cases h
  rfl

theorem Shown.eq_implied (h : Shown s (some .implied)) : s = some (.table .implied) := by
  cases h
  rfl

theorem Shown.eq_dotted (h : Shown s (some .dotted)) : s = some (.table .dotted) := by
  cases h
  rfl

theorem Shown.eq_array (h : Shown s (some .array)) : s = some .array := by
  cases h
  rfl

theorem Shown.value_of (h : Shown (some (.value n)) i) : ∃ v, i = some (.value v) := by
  cases h
  exact ⟨_, rfl⟩

end

def Shows (fs : Fields) (m : Places) : Prop := ∀ p, p ≠ [] → Shown (fs.see p) (m p)

variable {m : Places} {v : Value} {base : List String}

theorem shows_none : Shows [] .none := fun p _ => by
  rw [Fields.see_empty]
  exact .none

theorem inlineTable_eq_some {fields : List (List String × Node)} (h : inlineTable fields = some n) :
    ∃ o gs, fields.foldlM (fun (o, fs) (k, n) => Fields.insert k n o fs) (Origin.inline, []) = some (o, gs) ∧
      n = .table .inline gs := by
  unfold inlineTable at h
  cases all : fields.foldlM (fun (o, fs) (k, n) => Fields.insert k n o fs) (Origin.inline, []) with
  | none =>
    rw [all] at h
    cases h
  | some p =>
    rw [all] at h
    cases h
    exact ⟨p.1, p.2, rfl, rfl⟩

theorem Denotes.closed (h : Denotes v n) : n.sight = .value n ∧ n.inside? = none := by
  cases h with
  | table _ made =>
    obtain ⟨o, gs, -, rfl⟩ := inlineTable_eq_some made
    exact ⟨rfl, rfl⟩
  | _ => exact ⟨rfl, rfl⟩

theorem Denotes.see_nil (h : Denotes v n) : n.see [] = some (.value n) := congrArg some h.closed.1

theorem isBelow_iff : Places.isBelow p q = true ↔ p <+: q ∧ p ≠ q := by
  simp [Places.isBelow]

/-- A table that differs at a path from one that shows places shows the places that differ there. -/
theorem Fields.Puts.shows {wayItem new : Item} (puts : Puts way (base ++ key) below fs fs')
    (outside : ∀ q, q ≠ [] → ¬(base ++ key) <+: q → Shown (fs.see q) (m q)) (here : Shown (below []) (some new))
    (under : ∀ r, r ≠ [] → Shown (below r) (m (base ++ key ++ r))) (made : Shown (some way) (some wayItem))
    (held : ∀ q, q ≠ [] → q <+: base → m q ≠ none) : Shows fs' (m.set base key wayItem new) := by
  intro q hq
  unfold Places.set
  by_cases extends' : (base ++ key) <+: q
  · obtain ⟨r, rfl⟩ := extends'
    rw [puts.under r]
    by_cases last : r = []
    · rw [last, List.append_nil, if_pos rfl]
      exact here
    · have apart : ¬base ++ key ++ r = base ++ key := by simp [last]
      have notBelow : ¬Places.isBelow (base ++ key ++ r) (base ++ key) = true := by
        rw [isBelow_iff]
        rintro ⟨pre, -⟩
        have := pre.length_le
        have := List.length_pos_iff.mpr last
        simp only [List.length_append] at *
        omega
      rw [if_neg apart, Bool.eq_false_iff.mpr notBelow, Bool.and_false, Bool.false_and, if_neg Bool.false_ne_true]
      exact under r last
  · have other : ¬q = base ++ key := by
      rintro rfl
      exact extends' (List.prefix_refl _)
    have shown := outside q hq extends'
    rw [if_neg other]
    by_cases along : q <+: base ++ key
    · obtain ⟨r, same⟩ := along
      have more : r ≠ [] := by
        rintro rfl
        exact other (by rw [← same, List.append_nil])
      rw [puts.along q r hq more same]
      cases item : m q with
      | none =>
        have inside : Places.isBelow base q = true := by
          rw [isBelow_iff]
          have far : ¬q <+: base := fun pre => held q hq pre item
          rcases List.prefix_or_prefix_of_prefix ⟨r, same⟩ (List.prefix_append base key) with pre | pre
          · exact absurd pre far
          · refine ⟨pre, ?_⟩
            rintro rfl
            exact far (List.prefix_refl _)
        have next : Places.isBelow q (base ++ key) = true := isBelow_iff.mpr ⟨⟨r, same⟩, other⟩
        rw [item] at shown
        rw [shown.eq_none_iff.mpr rfl, inside, next]
        exact made
      | some i =>
        rw [item] at shown
        cases sight : fs.see q with
        | none => exact absurd (shown.eq_none_iff.mp sight) (Option.some_ne_none i)
        | some s =>
          rw [sight] at shown
          simpa using shown
    · have notBelow : ¬Places.isBelow q (base ++ key) = true := fun h => along (isBelow_iff.mp h).1
      rw [puts.apart q extends' along, if_neg (by simp [notBelow])]
      exact shown

/-! ### Rules that are kept -/

/-- The table at a path stands: all tables on the way are there. -/
structure Stands (m : Places) (base : List String) : Prop where
  way : ∀ p, p ≠ [] → p <+: base → m p ≠ none ∧ ∀ v, m p ≠ some (.value v)
  own : base = [] ∨ m base = some .header ∨ m base = some .array

theorem stands_nil (m : Places) : Stands m [] := ⟨fun _ hp pre => absurd (List.prefix_nil.mp pre) hp, .inl rfl⟩

namespace Shows

variable (shows : Shows fs m)

include shows

/-- In the table at a path, a field may be inserted if the rules let it be told there. -/
theorem mayInsert (sees : ∀ p, p ≠ [] → gs.see p = fs.see (base ++ p)) (may : m.MayTell base key) :
    Fields.MayInsert gs key := by
  obtain ⟨nonempty, new, way⟩ := may
  refine ⟨nonempty, ?_, fun p k ks same hp => ?_⟩
  · rw [sees key nonempty]
    exact (shows _ (by simp [nonempty])).eq_none_iff.mpr new
  · have shown := shows (base ++ p) (by simp [hp])
    rw [sees p hp]
    rcases way p k ks same hp with absent | dotted | ⟨implied, more⟩
    · exact .inl (shown.eq_none_iff.mpr absent)
    · rw [dotted] at shown
      exact .inr (.inl shown.eq_dotted)
    · rw [implied] at shown
      exact .inr (.inr ⟨shown.eq_implied, more⟩)

theorem eq_none_below (hp : p ≠ []) (h : m p = none) (r : List String) : m (p ++ r) = none := by
  have absent := (shows p hp).eq_none_iff.mpr h
  have below : fs.see (p ++ r) = none := Fields.see_append absent hp r
  exact (shows (p ++ r) (by simp [hp])).eq_none_iff.mp below

theorem set_value (may : m.MayTell base key) (denotes : Denotes v n) (held : ∀ q, q ≠ [] → q <+: base → m q ≠ none)
    (puts : Fields.Puts (.table .dotted) (base ++ key) n.see fs fs') :
    Shows fs' (m.set base key .dotted (.value v)) := by
  obtain ⟨nonempty, new, -⟩ := may
  refine puts.shows (fun q hq _ => shows q hq) ?_ (fun r hr => ?_) .dotted held
  · rw [denotes.see_nil]
    exact .value denotes
  · rw [Node.see_of_not_inside denotes.closed.2 hr, shows.eq_none_below (by simp [nonempty]) new]
    exact .none

/-- A field is told in a table of any origin but a dotted key. -/
theorem insert (may : m.MayTell [] key) (denotes : Denotes v n) (origin : o ≠ .dotted) :
    ∃ fs', Fields.insert key n o fs = some (o, fs') ∧ Shows fs' (m.set [] key .dotted (.value v)) := by
  obtain ⟨fs', inserted, puts⟩ := Fields.insert_puts (shows.mayInsert (fun p _ => rfl) may) origin n
  exact ⟨fs', inserted, shows.set_value may denotes (fun q hq pre => absurd (List.prefix_nil.mp pre) hq) puts⟩

/-- A field is told in the table that stands at a path. -/
theorem tell (stands : Stands m base) (may : m.MayTell base key) (denotes : Denotes v n) :
    ∃ fs', Fields.within false (Fields.insert key n) base .header fs = some (.header, fs') ∧
      Shows fs' (m.set base key .dotted (.value v)) := by
  have passes (p r : List String) (hp : p ≠ []) (same : p ++ r = base) :
      Fields.Passable false (.table .dotted) (fs.see p) := by
    obtain ⟨held, noValue⟩ := stands.way p hp ⟨r, same⟩
    have shown := shows p hp
    cases sight : fs.see p with
    | none => exact absurd (shown.eq_none_iff.mp sight) held
    | some s =>
      cases s with
      | value n =>
        rw [sight] at shown
        obtain ⟨v, item⟩ := shown.value_of
        exact absurd item (noValue v)
      | table o => exact fun isDotted => by cases isDotted
      | array => exact trivial
  obtain ⟨fs', inserted, puts⟩ := Fields.within_puts (o := .header) passes may.1 fun o gs target => by
    refine Fields.insert_puts (shows.mayInsert target.sees may) ?_ n
    by_cases root : base = []
    · rw [target.first root]
      exact Origin.noConfusion
    · have origin := target.origin root
      have shown := shows base root
      rcases stands.own with none | header | array
      · exact absurd none root
      · rw [header] at shown
        rw [shown.eq_header] at origin
        cases origin
        exact Origin.noConfusion
      · rw [array] at shown
        rw [shown.eq_array] at origin
        cases origin
        exact Origin.noConfusion
  exact ⟨fs', inserted, shows.set_value may denotes (fun q hq pre => (stands.way q hq pre).1) puts⟩

theorem mayPass (passes : m.Passes path) : Fields.MayPass fs path := by
  intro p k ks same hp n sight
  have shown := shows p hp
  rw [sight] at shown
  obtain ⟨v, item⟩ := shown.value_of
  exact passes p k ks same hp v item

/-- A table is opened for a header. -/
theorem opens (may : m.MayOpen path) :
    ∃ fs', Fields.within false (Fields.open? (path.getLastD "")) path.dropLast .header fs = some (.header, fs') ∧
      Shows fs' (m.set [] path .implied .header) := by
  obtain ⟨nonempty, passes, new⟩ := may
  rcases List.eq_nil_or_concat path with rfl | ⟨front, name, rfl⟩
  · exact absurd rfl nonempty
  rw [List.concat_eq_append] at *
  have shown := shows _ nonempty
  obtain ⟨fs', opened, puts⟩ := Fields.open_puts (o := .header) (shows.mayPass passes) (by
    rcases new with absent | implied
    · exact .inl (shown.eq_none_iff.mpr absent)
    · rw [implied] at shown
      exact .inr shown.eq_implied)
  rw [List.dropLast_concat, List.getLastD_concat]
  have puts : Fields.Puts _ ([] ++ (front ++ [name])) _ fs fs' := puts
  refine ⟨fs', opened, puts.shows (fun q hq _ => shows q hq) .header (fun r hr => ?_) .implied ?_⟩
  · cases r with
    | nil => exact absurd rfl hr
    | cons k ks => exact shows _ (by simp)
  · exact fun q hq pre => absurd (List.prefix_nil.mp pre) hq

/-- One more table is opened for a header in double brackets. -/
theorem opensNext (may : m.MayOpenNext path) :
    ∃ fs', Fields.within false (Fields.openNext? (path.getLastD "")) path.dropLast .header fs = some (.header, fs') ∧
      Shows fs' ((m.clear path).set [] path .implied .array) := by
  obtain ⟨nonempty, passes, new⟩ := may
  rcases List.eq_nil_or_concat path with rfl | ⟨front, name, rfl⟩
  · exact absurd rfl nonempty
  rw [List.concat_eq_append] at *
  have shown := shows _ nonempty
  obtain ⟨fs', opened, puts⟩ := Fields.openNext_puts (o := .header) (shows.mayPass passes) (by
    rcases new with absent | array
    · exact .inl (shown.eq_none_iff.mpr absent)
    · rw [array] at shown
      exact .inr shown.eq_array)
  rw [List.dropLast_concat, List.getLastD_concat]
  have puts : Fields.Puts _ ([] ++ (front ++ [name])) _ fs fs' := puts
  refine ⟨fs', opened, puts.shows (fun q hq apart => ?_) .array (fun r hr => ?_) .implied ?_⟩
  · have outside : ¬Places.isBelow (front ++ [name]) q = true := fun h => apart (isBelow_iff.mp h).1
    rw [Places.clear, if_neg outside]
    exact shows q hq
  · have inside : Places.isBelow (front ++ [name]) (front ++ [name] ++ r) = true :=
      isBelow_iff.mpr ⟨List.prefix_append _ _, by simp [hr]⟩
    have cleared : (m.clear (front ++ [name])) ([] ++ (front ++ [name]) ++ r) = none := if_pos inside
    rw [cleared]
    cases r with
    | nil => exact absurd rfl hr
    | cons k ks => exact .none
  · exact fun q hq pre => absurd (List.prefix_nil.mp pre) hq

/-- Fields in braces are told one after the other. -/
theorem foldl_insert {fields : List (List String × Value)} {nodes : List (List String × Node)} {m' : Places}
    (tells : Tells [] m fields m') (denote : DenoteFields fields nodes) :
    ∃ fs', nodes.foldlM (fun (o, fs) (k, n) => Fields.insert k n o fs) (Origin.inline, fs) = some (.inline, fs') ∧
      Shows fs' m' := by
  induction tells generalizing fs nodes with
  | nil =>
    cases denote
    exact ⟨fs, rfl, shows⟩
  | cons may _ ih =>
    cases denote with
    | cons first others =>
      obtain ⟨gs, inserted, next⟩ := shows.insert may first (o := .inline) Origin.noConfusion
      obtain ⟨fs', all, last⟩ := ih next others
      refine ⟨fs', ?_, last⟩
      rw [List.foldlM_cons]
      simp only [inserted]
      exact all

end Shows

/-- A table in braces shows what its fields tell. -/
theorem exists_inlineTable {fields : List (List String × Value)} {nodes : List (List String × Node)}
    (tells : Tells [] .none fields m) (denote : DenoteFields fields nodes) :
    ∃ fs, inlineTable nodes = some (.table .inline fs) ∧ Shows fs m := by
  obtain ⟨fs, all, shows⟩ := shows_none.foldl_insert tells denote
  refine ⟨fs, ?_, shows⟩
  rw [inlineTable, all]
  rfl

/-! ### Tables that stand -/

namespace Stands

theorem tell (stands : Stands m base) (nonempty : key ≠ []) (way new : Item) :
    Stands (m.set base key way new) base := by
  have same (p : List String) (pre : p <+: base) : m.set base key way new p = m p := by
    have short : ¬p = base ++ key := by
      rintro rfl
      have := pre.length_le
      have := List.length_pos_iff.mpr nonempty
      simp only [List.length_append] at *
      omega
    have notBelow : Places.isBelow base p = false := by
      rw [Bool.eq_false_iff]
      intro h
      obtain ⟨pre', other⟩ := isBelow_iff.mp h
      exact other (pre'.eq_of_length_le pre.length_le)
    rw [Places.set, if_neg short, notBelow, Bool.false_and, Bool.false_and, if_neg Bool.false_ne_true]
  constructor
  · intro p hp pre
    rw [same p pre]
    exact stands.way p hp pre
  · rw [same base (List.prefix_refl _)]
    exact stands.own

/-- A header makes its table stand. -/
theorem header {new : Item} (passes : m.Passes path) (own : new = .header ∨ new = .array) :
    Stands (m.set [] path .implied new) path := by
  have here : m.set [] path .implied new path = some new := if_pos rfl
  constructor
  · intro p hp pre
    by_cases last : p = path
    · rw [last, here]
      rcases own with rfl | rfl
      · exact ⟨Option.some_ne_none _, fun v same => by cases same⟩
      · exact ⟨Option.some_ne_none _, fun v same => by cases same⟩
    · have along : Places.isBelow p ([] ++ path) = true := isBelow_iff.mpr ⟨pre, last⟩
      have root : Places.isBelow [] p = true := isBelow_iff.mpr ⟨List.nil_prefix, Ne.symm hp⟩
      have notLast : ¬p = [] ++ path := last
      rw [Places.set, if_neg notLast, along, root]
      cases item : m p with
      | none => exact ⟨Option.some_ne_none _, fun v same => by cases same⟩
      | some i =>
        obtain ⟨r, same⟩ := pre
        cases r with
        | nil => exact absurd (by simpa using same) last
        | cons k ks =>
          have noValue := passes p k ks same hp
          rw [item] at noValue
          exact ⟨Option.some_ne_none _, noValue⟩
  · rw [here]
    rcases own with rfl | rfl
    · exact .inr (.inl rfl)
    · exact .inr (.inr rfl)

theorem passes_clear (passes : m.Passes path) : (m.clear path).Passes path := by
  intro p k ks same hp v item
  unfold Places.clear at item
  split at item
  · cases item
  · exact passes p k ks same hp v item

end Stands

end Footprint.Toml
