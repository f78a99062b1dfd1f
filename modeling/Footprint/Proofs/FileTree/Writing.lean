import Footprint.Proofs.FileTree.Entries

/-!
# What writing a file changes

A file that is written holds the text from then on, and the path that it was written by leads to it. Nothing else in
the tree changes: not what other files hold, not where links lead, not which names there are. If the name was vacant,
the way there is walked once more, in the tree that has the file.
-/

namespace Footprint

open Entry

variable {t u : FileTree} {p : Path} {names ns : List String} {n : String} {new : Content}

namespace Entry

variable {e : Entry} {es : List (String × Entry)}

/-- Two ways to look names up come to the same but for some names: there are the same directories, links and files, and
the files hold the same. -/
structure SameBut (names : List String) (before after : List String → Option Entry) : Prop where
  kinds : ∀ ns, ns ≠ names → (after ns).map kind = (before ns).map kind
  contents : ∀ ns, ns ≠ names → ∀ c, after ns = some (.file c) ↔ before ns = some (.file c)

theorem SameBut.put {d d' : Entry} (child : es.lookup n = some d) (same : SameBut names d.at? d'.at?) :
    SameBut (n :: names) (directory es).at? (directory (put n d' es)).at? := by
  have below (m : String) (ms : List String) : (directory (Entry.put n d' es)).at? (m :: ms) =
      if m = n then d'.at? ms else (directory es).at? (m :: ms) := by
    rw [at?_cons, at?_cons, child?, child?, FileTree.lookup_put]
    split <;> rfl
  have above (ms : List String) : (directory es).at? (n :: ms) = d.at? ms := by
    rw [at?_cons, child?, child, Option.bind_some]
  constructor
  · intro ns other
    cases ns with
    | nil => rfl
    | cons m ms =>
      rw [below]
      split
      · rename_i here
        subst here
        rw [above]
        exact same.kinds ms fun eq => other (congrArg _ eq)
      · rfl
  · intro ns other c
    cases ns with
    | nil => exact iff_of_false (by simp) (by simp)
    | cons m ms =>
      rw [below]
      split
      · rename_i here
        subst here
        rw [above]
        exact same.contents ms (fun eq => other (congrArg _ eq)) c
      · rfl

end Entry

namespace FileTree

/-- A tree and the same tree with a file of this content at the end of some names, in the place of another file or of
nothing. -/
structure GainsFile (names : List String) (new : Content) (t u : FileTree) : Prop where
  before : t.at? names = none ∨ ∃ c, t.at? names = some (.file c)
  after : u.at? names = some (.file new)
  same : SameBut names t.at? u.at?

/-- Following a path leads to a file at the end of some names, or to where one may be put. -/
def Reaches (names : List String) (r : Except FileError Place) : Prop :=
  (∃ ms n, r = .ok (.vacant ms n) ∧ ms ++ [n] = names) ∨ ∃ c, r = .ok (.found names (.file c))

theorem not_reaches_error {e : FileError} : ¬Reaches names (.error e) := by
  rintro (⟨ms, n, none, -⟩ | ⟨c, none⟩) <;> cases none

variable {onLink onLink' : List String → Path → List Step → Except FileError Place} {ms : List String}

section

variable {follow : Bool} {k : String} {ss : List Step} (short : ¬255 < k.utf8ByteSize)

include short

theorem walkFrom_absent (held : t.at? (ms ++ [k]) = none) :
    t.walkFrom follow onLink ms (.child k :: ss) = if ss.isEmpty then .ok (.vacant ms k) else .error .missing := by
  rw [FileTree.walkFrom, if_neg short, ← at?_concat, held]

theorem walkFrom_directory {es : List (String × Entry)} (held : t.at? (ms ++ [k]) = some (.directory es)) :
    t.walkFrom follow onLink ms (.child k :: ss) = t.walkFrom follow onLink (ms ++ [k]) ss := by
  rw [FileTree.walkFrom, if_neg short, ← at?_concat, held]

theorem walkFrom_file {c : Content} (held : t.at? (ms ++ [k]) = some (.file c)) :
    t.walkFrom follow onLink ms (.child k :: ss) =
      if ss.isEmpty then .ok (.found (ms ++ [k]) (.file c)) else .error .notDirectory := by
  rw [FileTree.walkFrom, if_neg short, ← at?_concat, held]

theorem walkFrom_link {target : Path} (held : t.at? (ms ++ [k]) = some (.link target)) :
    t.walkFrom follow onLink ms (.child k :: ss) =
      if ss.isEmpty && !follow then .ok (.found (ms ++ [k]) (.link target)) else onLink ms target ss := by
  rw [FileTree.walkFrom, if_neg short, ← at?_concat, held]

end

theorem walkFrom_long {follow : Bool} {k : String} {ss : List Step} (long : 255 < k.utf8ByteSize) :
    t.walkFrom follow onLink ms (.child k :: ss) = .error .nameTooLong := by
  rw [FileTree.walkFrom, if_pos long]

theorem GainsFile.walkFrom_here (gained : GainsFile names new t u) {k : String} {ss : List Step}
    (short : ¬255 < k.utf8ByteSize) (here : ms ++ [k] = names)
    (reaches : Reaches names (t.walkFrom true onLink ms (.child k :: ss))) :
    u.walkFrom true onLink' ms (.child k :: ss) = .ok (.found names (.file new)) := by
  have last : ss.isEmpty = true := by
    rcases gained.before with absent | ⟨c, file⟩
    · rw [walkFrom_absent short (here ▸ absent)] at reaches
      split at reaches
      · assumption
      · exact absurd reaches not_reaches_error
    · rw [walkFrom_file short (here ▸ file)] at reaches
      split at reaches
      · assumption
      · exact absurd reaches not_reaches_error
  rw [walkFrom_file short (here ▸ gained.after), if_pos last, here]

/-- The way to where a file is put leads to that file. The induction is on the steps of the walk. -/
theorem GainsFile.walkFrom (gained : GainsFile names new t u)
    (links : ∀ ms target ss, Reaches names (onLink ms target ss) →
      onLink' ms target ss = .ok (.found names (.file new)))
    {ss : List Step} (reaches : Reaches names (t.walkFrom true onLink ms ss)) :
    u.walkFrom true onLink' ms ss = .ok (.found names (.file new)) := by
  induction ss generalizing ms with
  | nil =>
    rw [FileTree.walkFrom] at reaches ⊢
    rcases reaches with ⟨d, n, vacant, -⟩ | ⟨c, found⟩
    · split at vacant <;> cases vacant
    · split at found
      · cases found
        rw [gained.after]
      · cases found
  | cons step ss ih =>
    cases step with
    | here => exact ih reaches
    | up => exact ih reaches
    | child k =>
      by_cases long : 255 < k.utf8ByteSize
      · rw [walkFrom_long long] at reaches
        exact absurd reaches not_reaches_error
      by_cases here : ms ++ [k] = names
      · exact gained.walkFrom_here long here reaches
      have kind := gained.same.kinds (ms ++ [k]) here
      cases held : t.at? (ms ++ [k]) with
      | none =>
        rw [walkFrom_absent long held] at reaches
        rcases reaches with ⟨d, n, vacant, there⟩ | ⟨c, found⟩
        · split at vacant
          · cases vacant
            exact absurd there here
          · cases vacant
        · split at found <;> cases found
      | some e =>
        rw [held] at kind
        obtain ⟨e', there, kind⟩ := Option.map_eq_some_iff.mp kind
        cases e with
        | directory es =>
          cases e' with
          | directory es' =>
            rw [walkFrom_directory long held] at reaches
            rw [walkFrom_directory long there]
            exact ih reaches
          | file c => cases kind
          | link target => cases kind
        | file c =>
          rw [walkFrom_file long held] at reaches
          rcases reaches with ⟨d, n, vacant, -⟩ | ⟨c, found⟩
          · split at vacant <;> cases vacant
          · split at found
            · cases found
              exact absurd rfl here
            · cases found
        | link target =>
          cases e' with
          | link target' =>
            cases kind
            rw [walkFrom_link long held, Bool.not_true, Bool.and_false, if_neg Bool.false_ne_true] at reaches
            rw [walkFrom_link long there, Bool.not_true, Bool.and_false, if_neg Bool.false_ne_true]
            exact links _ _ _ reaches
          | file c => cases kind
          | directory es => cases kind

theorem GainsFile.locateFrom (gained : GainsFile names new t u) {limit : Nat} {ss : List Step}
    (reaches : Reaches names (t.locateFrom true limit ms ss)) :
    u.locateFrom true limit ms ss = .ok (.found names (.file new)) := by
  induction limit generalizing ms ss with
  | zero => exact gained.walkFrom (fun _ _ _ reaches => absurd reaches not_reaches_error) reaches
  | succ limit ih =>
    refine gained.walkFrom (fun ms target ss reaches => ?_) reaches
    split at reaches
    · exact absurd reaches not_reaches_error
    · rename_i relative
      rw [if_neg relative]
      exact ih reaches

theorem GainsFile.locate (gained : GainsFile names new t u) (reaches : Reaches names (t.locate true p)) :
    u.locate true p = .ok (.found names (.file new)) := by
  unfold FileTree.locate at reaches ⊢
  split at reaches
  · exact absurd reaches not_reaches_error
  rename_i clean
  rw [if_neg clean]
  split at reaches
  · exact absurd reaches not_reaches_error
  rename_i relative
  rw [if_neg relative]
  exact gained.locateFrom reaches

end FileTree

end Footprint
