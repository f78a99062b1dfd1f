import Footprint.FileTree
import Footprint.Proofs.Path.Below

/-!
# What a tree holds

The entry at the end of names, from any entry on. Trees are compared by these entries, so the order in which
a directory lists its entries does not count. Where a path leads depends on directories and links alone: if
two trees differ in nothing but what files hold, a path leads to the same names in both.
-/

namespace Footprint

namespace Entry

mutual

/-- What holds of files and links, and of a directory if it holds of its entries, holds of every entry. -/
@[elab_as_elim]
theorem induction {motive : Entry → Prop} (file : ∀ c, motive (.file c)) (link : ∀ target, motive (.link target))
    (directory : ∀ es, (∀ n e, (n, e) ∈ es → motive e) → motive (.directory es)) : ∀ e, motive e
  | .file c => file c
  | .link target => link target
  | .directory es => directory es fun _ _ mem => induction_of_mem file link directory es _ mem

theorem induction_of_mem {motive : Entry → Prop} (file : ∀ c, motive (.file c))
    (link : ∀ target, motive (.link target))
    (directory : ∀ es, (∀ n e, (n, e) ∈ es → motive e) → motive (.directory es)) :
    ∀ es : List (String × Entry), ∀ x ∈ es, motive x.2
  | [] => fun _ mem => absurd mem List.not_mem_nil
  | (_, e) :: es => List.forall_mem_cons.mpr
    ⟨induction file link directory e, induction_of_mem file link directory es⟩

end

def at? (e : Entry) : List String → Option Entry
  | [] => some e
  | n :: ns => (e.child? n).bind (·.at? ns)

variable {e x : Entry} {n : String} {ms ns : List String} {es : List (String × Entry)}

@[simp] theorem at?_nil : e.at? [] = some e := rfl

theorem at?_cons : e.at? (n :: ns) = (e.child? n).bind (·.at? ns) := rfl

theorem at?_append : e.at? (ms ++ ns) = (e.at? ms).bind (·.at? ns) := by
  induction ms generalizing e with
  | nil => rfl
  | cons m ms ih =>
    rw [List.cons_append, at?_cons, at?_cons, Option.bind_assoc]
    exact Option.bind_congr fun d _ => ih

/-- What an entry is, without what it holds. -/
inductive Kind where
  | file
  | link (target : Path)
  | directory
  deriving DecidableEq

def kind : Entry → Kind
  | .file _ => .file
  | .link target => .link target
  | .directory _ => .directory

mutual

/-- No directory in a tree has two entries of one name. -/
def IsDistinct : Entry → Prop
  | .directory es => (es.map Prod.fst).Nodup ∧ AreDistinct es
  | _ => True

def AreDistinct : List (String × Entry) → Prop
  | [] => True
  | (_, e) :: es => e.IsDistinct ∧ AreDistinct es

end

theorem lookup_eq_some_iff (nodup : (es.map Prod.fst).Nodup) : es.lookup n = some e ↔ (n, e) ∈ es := by
  induction es with
  | nil => simp
  | cons x es ih =>
    obtain ⟨m, d⟩ := x
    rw [List.map_cons, List.nodup_cons] at nodup
    rw [List.lookup_cons]
    by_cases same : n = m
    · subst same
      have absent (d : Entry) : (n, d) ∉ es := fun mem => nodup.1 (List.mem_map.mpr ⟨(n, d), mem, rfl⟩)
      simp [absent, eq_comm]
    · have other : (n == m) = false := by simpa using same
      simp [other, same, ih nodup.2]

theorem AreDistinct.of_mem (distinct : AreDistinct es) (mem : (n, e) ∈ es) : e.IsDistinct := by
  induction es with
  | nil => cases mem
  | cons x es ih =>
    obtain ⟨m, d⟩ := x
    rw [AreDistinct] at distinct
    rcases List.mem_cons.mp mem with same | mem
    · obtain ⟨rfl, rfl⟩ := Prod.mk.inj same
      exact distinct.1
    · exact ih distinct.2 mem

end Entry

namespace FileTree

variable {t u : FileTree} {p : Path} {names : List String} {n : String} {follow : Bool} {changed : List String → Prop}

theorem at?_eq (t : FileTree) (names : List String) : t.at? names = t.root.at? names := by
  have from_any (o : Option Entry) : names.foldl (fun e n => e.bind (·.child? n)) o = o.bind (·.at? names) := by
    induction names generalizing o with
    | nil => cases o <;> rfl
    | cons n names ih => rw [List.foldl_cons, ih, Option.bind_assoc]; rfl
  exact from_any (some t.root)

theorem at?_append (t : FileTree) (ms ns : List String) : t.at? (ms ++ ns) = (t.at? ms).bind (·.at? ns) := by
  rw [at?_eq, at?_eq, Entry.at?_append]

theorem at?_concat (t : FileTree) (names : List String) (n : String) :
    t.at? (names ++ [n]) = (t.at? names).bind (·.child? n) := by
  rw [at?_append]
  refine Option.bind_congr fun e _ => ?_
  cases h : e.child? n <;> simp [Entry.at?_cons, h]

/-- Two trees differ in nothing but what files at some names hold, and in the order of their entries. -/
structure DifferAt (changed : List String → Prop) (t u : FileTree) : Prop where
  kinds : ∀ names, (t.at? names).map Entry.kind = (u.at? names).map Entry.kind
  contents : ∀ names, ¬changed names → ∀ c, t.at? names = some (.file c) → u.at? names = some (.file c)

namespace DifferAt

theorem present (differ : DifferAt changed t u) {e : Entry} (h : t.at? names = some e) :
    ∃ d, u.at? names = some d ∧ d.kind = e.kind := by
  have same := differ.kinds names
  rw [h, Option.map_some, eq_comm, Option.map_eq_some_iff] at same
  exact same

theorem directory (differ : DifferAt changed t u) {es : List (String × Entry)}
    (h : t.at? names = some (.directory es)) : ∃ es', u.at? names = some (.directory es') := by
  obtain ⟨d, hu, same⟩ := differ.present h
  cases d with
  | directory es' => exact ⟨es', hu⟩
  | file _ => cases same
  | link _ => cases same

theorem link (differ : DifferAt changed t u) {target : Path} (h : t.at? names = some (.link target)) :
    u.at? names = some (.link target) := by
  obtain ⟨d, hu, same⟩ := differ.present h
  cases d with
  | link _ => cases same; exact hu
  | file _ => cases same
  | directory _ => cases same

theorem file (differ : DifferAt changed t u) {c : Content} (h : t.at? names = some (.file c)) :
    ∃ c', u.at? names = some (.file c') := by
  obtain ⟨d, hu, same⟩ := differ.present h
  cases d with
  | file c' => exact ⟨c', hu⟩
  | link _ => cases same
  | directory _ => cases same

theorem absent (differ : DifferAt changed t u) (h : t.at? names = none) : u.at? names = none := by
  have same := differ.kinds names
  rw [h, Option.map_none, eq_comm, Option.map_eq_none_iff] at same
  exact same

end DifferAt

/-! ### Other contents of a file -/

theorem lookup_cons_eq_ite {es : List (String × Entry)} {m : String} {e : Entry} :
    ((n, e) :: es).lookup m = if m = n then some e else es.lookup m := by
  rw [List.lookup_cons]
  by_cases same : m = n
  · simp [same]
  · simp [same, beq_false_of_ne same]

theorem lookup_put {es : List (String × Entry)} {m : String} {e : Entry} :
    (Entry.put n e es).lookup m = if m = n then some e else es.lookup m := by
  induction es with
  | nil => exact lookup_cons_eq_ite
  | cons x es ih =>
    obtain ⟨k, d⟩ := x
    rw [Entry.put, lookup_cons_eq_ite]
    by_cases here : k = n
    · subst here
      rw [if_pos rfl, lookup_cons_eq_ite]
      split <;> rfl
    · rw [if_neg here, lookup_cons_eq_ite, ih]
      by_cases other : m = k
      · simp [other, here]
      · simp [other]

/-- What following a path comes to in two trees: the same failure, the same vacant name, or entries at the
end of the same names. -/
inductive Agree (t u : FileTree) : Except FileError Place → Except FileError Place → Prop
  | error {e : FileError} : Agree t u (.error e) (.error e)
  | vacant {directory : List String} {n : String} : Agree t u (.ok (.vacant directory n)) (.ok (.vacant directory n))
  | found {names : List String} {e d : Entry} : t.at? names = some e → u.at? names = some d →
    Agree t u (.ok (.found names e)) (.ok (.found names d))

variable {onLink onLink' : List String → Path → List Step → Except FileError Place}

/-- A walk agrees if what is left to links does. The induction is on the steps of the walk. -/
theorem DifferAt.agree_walkFrom (differ : DifferAt changed t u)
    (links : ∀ names target ss, Agree t u (onLink names target ss) (onLink' names target ss)) (ss : List Step) :
    Agree t u (walkFrom t follow onLink names ss) (walkFrom u follow onLink' names ss) := by
  induction ss generalizing names with
  | nil =>
    rw [walkFrom, walkFrom]
    cases ht : t.at? names with
    | none => rw [differ.absent ht]; exact .error
    | some e =>
      obtain ⟨d, hu, -⟩ := differ.present ht
      rw [hu]
      exact .found ht hu
  | cons step ss ih =>
    cases step with
    | here => exact ih
    | up => exact ih
    | child n =>
      rw [walkFrom, walkFrom]
      split
      · exact .error
      rw [← at?_concat, ← at?_concat]
      cases ht : t.at? (names ++ [n]) with
      | none =>
        rw [differ.absent ht]
        cases ss.isEmpty
        · exact .error
        · exact .vacant
      | some e =>
        cases e with
        | directory es =>
          obtain ⟨es', hu⟩ := differ.directory ht
          rw [hu]
          exact ih
        | file c =>
          obtain ⟨c', hu⟩ := differ.file ht
          rw [hu]
          cases ss.isEmpty
          · exact .error
          · exact .found ht hu
        | link target =>
          have hu := differ.link ht
          rw [hu]
          cases ss.isEmpty && !follow
          · exact links _ _ _
          · exact .found ht hu

theorem DifferAt.agree_locateFrom (differ : DifferAt changed t u) (links : Nat) (ss : List Step) :
    Agree t u (locateFrom t follow links names ss) (locateFrom u follow links names ss) := by
  induction links generalizing names ss with
  | zero => exact differ.agree_walkFrom (fun _ _ _ => .error) ss
  | succ links ih =>
    refine differ.agree_walkFrom (fun names target ss => ?_) ss
    split
    · exact .error
    · exact ih _

/-- In trees that differ only in what files hold, a path leads to the same names. -/
theorem DifferAt.agree_locate (differ : DifferAt changed t u) (follow : Bool) (p : Path) :
    Agree t u (t.locate follow p) (u.locate follow p) := by
  unfold locate
  split
  · exact .error
  split
  · exact .error
  · exact differ.agree_locateFrom _ _

def names? (t : FileTree) (follow : Bool) (p : Path) : Option (List String) :=
  match t.locate follow p with
  | .ok (.found names _) => some names
  | _ => none

/-- What is found at a path, in two trees that differ only in what files hold. -/
theorem DifferAt.entry (differ : DifferAt changed t u) (follow : Bool) (p : Path) :
    (∃ e, t.entry follow p = .error e ∧ u.entry follow p = .error e) ∨
      ∃ names d e, t.names? follow p = some names ∧ t.entry follow p = .ok d ∧ t.at? names = some d ∧
        u.entry follow p = .ok e ∧ u.at? names = some e := by
  have agree := differ.agree_locate follow p
  unfold FileTree.entry names?
  generalize t.locate follow p = r at agree
  generalize u.locate follow p = r' at agree
  cases agree with
  | error => exact .inl ⟨_, rfl, rfl⟩
  | vacant => exact .inl ⟨_, rfl, rfl⟩
  | found ht hu => exact .inr ⟨_, _, _, rfl, rfl, ht, rfl, hu⟩

theorem DifferAt.refl (t : FileTree) : DifferAt changed t t := ⟨fun _ => rfl, fun _ _ _ h => h⟩

theorem locate_of_entry {e : Entry} (h : t.entry follow p = .ok e) :
    ∃ names, t.locate follow p = .ok (.found names e) ∧ t.at? names = some e := by
  have agree := (DifferAt.refl t : DifferAt (fun _ => False) t t).agree_locate follow p
  unfold FileTree.entry at h
  split at h
  · rename_i names d found
    obtain rfl := Except.ok.inj h
    rw [found] at agree
    cases agree with
    | found there _ => exact ⟨names, found, there⟩
  · cases h
  · cases h

/-- A path that does not lead to a changed file is read as before. -/
theorem DifferAt.read_eq (differ : DifferAt changed t u)
    (other : ∀ names, t.names? true p = some names → ¬changed names) : t.read p = u.read p := by
  unfold read
  rcases differ.entry true p with ⟨e, ht, hu⟩ | ⟨names, d, e, leads, ht, there, hu, there'⟩
  · rw [ht, hu]
  · rw [ht, hu]
    cases d with
    | file c =>
      have same := there'.symm.trans (differ.contents names (other names leads) c there)
      obtain rfl := Option.some.inj same
      rfl
    | link target =>
      obtain rfl := Option.some.inj (there'.symm.trans (differ.link there))
      rfl
    | directory es =>
      obtain ⟨es', hes⟩ := differ.directory there
      obtain rfl := Option.some.inj (there'.symm.trans hes)
      rfl

/-! ### A link at the end -/

/-- What is found comes to the same when a link at the end is not followed, unless there is one. -/
def Unfollowed (followed unfollowed : Except FileError Place) : Prop :=
  ∀ names e, followed = .ok (.found names e) →
    unfollowed = .ok (.found names e) ∨ ∃ names target, unfollowed = .ok (.found names (.link target))

theorem Unfollowed.refl (r : Except FileError Place) : Unfollowed r r := fun _ _ found => .inl found

theorem unfollowed_walkFrom {t : FileTree}
    (links : ∀ names target ss, Unfollowed (onLink names target ss) (onLink' names target ss)) (ss : List Step) :
    Unfollowed (walkFrom t true onLink names ss) (walkFrom t false onLink' names ss) := by
  induction ss generalizing names with
  | nil => exact .refl _
  | cons step ss ih =>
    cases step with
    | here => exact ih
    | up => exact ih
    | child n =>
      rw [walkFrom, walkFrom]
      split
      · exact .refl _
      cases child : (t.at? names).bind (·.child? n) with
      | none => exact .refl _
      | some e =>
        cases e with
        | directory es => exact ih
        | file c => exact .refl _
        | link target =>
          simp only [Bool.not_true, Bool.and_false, Bool.false_eq_true, if_false]
          split
          · exact fun _ _ _ => .inr ⟨_, _, rfl⟩
          · exact links _ _ _

theorem unfollowed_locateFrom (t : FileTree) (links : Nat) (ss : List Step) :
    Unfollowed (locateFrom t true links names ss) (locateFrom t false links names ss) := by
  induction links generalizing names ss with
  | zero => exact unfollowed_walkFrom (fun _ _ _ => .refl _) ss
  | succ links ih =>
    refine unfollowed_walkFrom (fun names target ss => ?_) ss
    split
    · exact .refl _
    · exact ih _

theorem unfollowed_locate (t : FileTree) (p : Path) : Unfollowed (t.locate true p) (t.locate false p) := by
  unfold locate
  split
  · exact .refl _
  split
  · exact .refl _
  · exact unfollowed_locateFrom t _ _

/-- An entry that is found with links followed is found without, or else a link is. -/
theorem entry_false_of_entry_true {e : Entry} (h : t.entry true p = .ok e) :
    t.entry false p = .ok e ∨ ∃ target, t.entry false p = .ok (.link target) := by
  unfold FileTree.entry at h ⊢
  split at h
  · rename_i found
    obtain rfl := Except.ok.inj h
    rcases unfollowed_locate t p _ _ found with same | ⟨names, target, link⟩
    · exact .inl (by rw [same])
    · exact .inr ⟨target, by rw [link]⟩
  · cases h
  · cases h

end FileTree

end Footprint
