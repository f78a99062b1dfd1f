import Footprint.Proofs.Json.Skip

/-!
# Lists and objects that are read

What a reader of items yields on a list, and a reader of entries on an object, from what it yields on
each item or entry. Entries are read with a state, so an object is read if each entry in turn has a
state to go to.
-/

namespace Footprint.Json

variable {α β σ : Type} {text w u lead cs fuel : List Char} {first : Bool}

section Items

theorem reads_nextItem_close (hw : IsSpacing w) :
    Reads (nextItem first) (w ++ ']' :: text) false (']' :: text) :=
  (reads_peekToken_cons hw rfl).bind reads_pure

/-- What stands before an item lets it come next. -/
def OpensItem (first : Bool) (lead : List Char) : Prop :=
  ∀ u a text, IsSpacing u → Cursor.isSpace a = false → a ≠ ']' →
    Reads (nextItem first) (lead ++ (u ++ a :: text)) true (a :: text)

theorem opensItem_first : OpensItem true [] := by
  intro u a text hu solid notCloser
  refine (reads_peekToken_cons hu solid).bind ?_
  split
  · rename_i none
    cases none
  · rename_i closer
    exact absurd (Option.some.inj closer) notCloser
  · simp only [Bool.not_true, Bool.and_false, Bool.false_eq_true, if_false, if_true]
    exact reads_pure

theorem opensItem_comma (hw : IsSpacing w) : OpensItem false (w ++ [',']) := by
  intro u a text hu solid notCloser
  rw [List.append_assoc]
  refine (reads_peekToken_cons hw rfl).bind ((reads_advance ',').bind
    ((reads_peekToken_cons hu solid).bind ?_))
  split
  · rename_i closer
    exact absurd (Option.some.inj closer) notCloser
  · exact reads_pure
  · rename_i none
    cases none

variable {Spells : α → List Char → Prop} {item : Reader β} {f : α → β}

/-- A reader yields something on each spelling of a thing, which no bracket begins. -/
structure ReadsItems (Spells : α → List Char → Prop) (item : Reader β) (f : α → β) : Prop where
  head : ∀ {x v}, Spells x v → ∃ a as, v = a :: as ∧ Cursor.isSpace a = false ∧ a ≠ ']'
  reads : ∀ {x v text}, Spells x v → Stops text → Reads item (v ++ text) (f x) text

theorem ReadsItems.reads_cons (readsItems : ReadsItems Spells item f) (opens : OpensItem first lead)
    (hu : IsSpacing u) {x : α} {v : List Char} (spelled : Spells x v) (stops : Stops text) {ys : List β}
    {left : List Char} {a : Char} (behind : Reads (itemsFrom item fuel false) text ys left) :
    Reads (itemsFrom item (a :: fuel) first) (lead ++ (u ++ (v ++ text))) (f x :: ys) left := by
  obtain ⟨b, bs, rfl, solid, notCloser⟩ := readsItems.head spelled
  refine (opens u b (bs ++ text) hu solid notCloser).bind ?_
  rw [if_pos rfl]
  exact (readsItems.reads spelled stops).bind (behind.bind reads_pure)

theorem reads_itemsFrom_end (hw : IsSpacing w) (ne : fuel ≠ []) :
    Reads (itemsFrom item fuel first) (w ++ ']' :: text) [] (']' :: text) := by
  obtain ⟨a, f, rfl⟩ := List.exists_cons_of_ne_nil ne
  exact (reads_nextItem_close hw).bind reads_pure

theorem ReadsItems.reads_itemsFrom (readsItems : ReadsItems Spells item f) {xs : List α}
    (h : SpellsAll Spells xs cs) (ne : xs ≠ []) (opens : OpensItem first lead)
    (enough : cs.length < fuel.length) :
    Reads (itemsFrom item fuel first) (lead ++ (cs ++ ']' :: text)) (xs.map f) (']' :: text) := by
  induction h generalizing first lead fuel with
  | nil _ => exact absurd rfl ne
  | @one x u v w hu spelled hw =>
    obtain ⟨b, bs, rfl, -, -⟩ := readsItems.head spelled
    simp only [List.length_append, List.length_cons] at enough
    obtain ⟨a, g, rfl⟩ := List.exists_cons_of_length_pos (show 0 < fuel.length by omega)
    rw [List.length_cons] at enough
    have left : g ≠ [] := List.length_pos_iff.mp (show 0 < g.length by omega)
    have stops : Stops (w ++ ']' :: text) := stops_append hw Frame.list.stops_closer
    have read := readsItems.reads_cons (a := a) opens hu spelled stops (reads_itemsFrom_end hw left)
    simp only [List.append_assoc] at read ⊢
    exact read
  | @cons x y xs u v w cs hu spelled hw _ ih =>
    obtain ⟨b, bs, rfl, -, -⟩ := readsItems.head spelled
    simp only [List.length_append, List.length_cons] at enough
    obtain ⟨a, g, rfl⟩ := List.exists_cons_of_length_pos (show 0 < fuel.length by omega)
    rw [List.length_cons] at enough
    have stops : Stops (w ++ ',' :: (cs ++ ']' :: text)) :=
      stops_append hw (stops_cons (.inr (.inl rfl)))
    have behind := ih (List.cons_ne_nil _ _) (opensItem_comma hw) (show cs.length < g.length by omega)
    rw [List.append_assoc] at behind
    have read := readsItems.reads_cons (a := a) opens hu spelled stops behind
    simp only [List.append_assoc, List.cons_append] at read ⊢
    exact read

theorem ReadsItems.reads_items (readsItems : ReadsItems Spells item f) {xs : List α}
    (h : SpellsAll Spells xs cs) : Reads (items item) (cs ++ ']' :: text) (xs.map f) (']' :: text) := by
  refine Reads.remaining_bind ?_
  cases xs with
  | nil =>
    cases h with
    | nil hw => exact reads_itemsFrom_end hw (by simp)
  | cons x xs => exact readsItems.reads_itemsFrom h (List.cons_ne_nil x xs) opensItem_first (by simp)

theorem reads_enclosed_list {body : Reader α} {x : α}
    (h : Reads body (cs ++ ']' :: text) x (']' :: text)) :
    Reads (enclosed closeList body) ('[' :: (cs ++ ']' :: text)) x text := by
  intro c hc
  have inside : c.next.rest = cs ++ ']' :: text := by simp [Cursor.next, hc]
  obtain ⟨d, hd, read⟩ := h c.next inside
  have closed : d.skipSpace.rest = ']' :: text :=
    rest_skipSpace (w := []) .nil (startsSolid_cons rfl) hd
  refine ⟨d.skipSpace.next, by simp [Cursor.next, closed], ?_⟩
  simp only [enclosed, read, closeList, closed]

/-- A list is read from any of its spellings. -/
theorem ReadsItems.reads_list (readsItems : ReadsItems Spells item f) {xs : List α} {v : List Char}
    (h : SpellsList Spells xs v) : Reads (enclosed closeList (items item)) (v ++ text) (xs.map f) text := by
  cases h with
  | brackets all =>
    simp only [List.cons_append, List.append_assoc, List.nil_append]
    exact reads_enclosed_list (readsItems.reads_items all)

end Items

section Entries

theorem reads_nextKey_close (hw : IsSpacing w) :
    Reads (nextKey first) (w ++ '\x7d' :: text) false ('\x7d' :: text) :=
  (reads_peekToken_cons hw rfl).bind reads_pure

/-- What stands before a key lets it come next. -/
def OpensKey (first : Bool) (lead : List Char) : Prop :=
  ∀ u text, IsSpacing u → Reads (nextKey first) (lead ++ (u ++ '"' :: text)) true text

theorem opensKey_first : OpensKey true [] := fun _ _ hu =>
  (reads_peekToken_cons hu rfl).bind (reads_pure.bind ((reads_advance '"').bind reads_pure))

theorem opensKey_comma (hw : IsSpacing w) : OpensKey false (w ++ [',']) := by
  intro u text hu
  rw [List.append_assoc]
  refine (reads_peekToken_cons hw rfl).bind ((reads_advance ',').bind ((reads_peekToken_cons hu rfl).bind ?_))
  exact (reads_advance '"').bind reads_pure

variable {Spells : α → List Char → Prop} {entry : String → σ → Reader σ} {step : σ → α → Option σ}

/-- Behind the quote that opens its key, each spelling of a field takes a state to the next one, if there
is one. -/
structure ReadsEntries (Spells : α → List Char → Prop) (entry : String → σ → Reader σ)
    (step : σ → α → Option σ) : Prop where
  reads : ∀ {x v}, Spells x v → ∃ vs, v = '"' :: vs ∧ ∀ {s s' text}, step s x = some s' → Stops text →
    Reads (Json.text >>= fun key => entry key s) (vs ++ text) s' text

theorem ReadsEntries.reads_cons (readsEntries : ReadsEntries Spells entry step)
    (opens : OpensKey first lead) (hu : IsSpacing u) {x : α} {v : List Char} (spelled : Spells x v)
    (stops : Stops text) {s s' s'' : σ} (goes : step s x = some s') {left : List Char} {a : Char}
    (behind : Reads (entriesFrom entry fuel false s') text s'' left) :
    Reads (entriesFrom entry (a :: fuel) first s) (lead ++ (u ++ (v ++ text))) s'' left := by
  obtain ⟨vs, rfl, reads⟩ := readsEntries.reads spelled
  refine (opens u (vs ++ text) hu).bind ?_
  rw [if_pos rfl]
  have read := (reads goes stops).bind behind
  intro c hc
  obtain ⟨d, hd, h⟩ := read c hc
  refine ⟨d, hd, ?_⟩
  rw [← h, bind_assoc]

theorem reads_entriesFrom_end (hw : IsSpacing w) (ne : fuel ≠ []) {s : σ} :
    Reads (entriesFrom entry fuel first s) (w ++ '\x7d' :: text) s ('\x7d' :: text) := by
  obtain ⟨a, f, rfl⟩ := List.exists_cons_of_ne_nil ne
  exact (reads_nextKey_close hw).bind reads_pure

theorem ReadsEntries.reads_entriesFrom (readsEntries : ReadsEntries Spells entry step) {xs : List α}
    (h : SpellsAll Spells xs cs) (ne : xs ≠ []) (opens : OpensKey first lead)
    (enough : cs.length < fuel.length) {s s' : σ} (goes : xs.foldlM step s = some s') :
    Reads (entriesFrom entry fuel first s) (lead ++ (cs ++ '\x7d' :: text)) s' ('\x7d' :: text) := by
  induction h generalizing first lead fuel s with
  | nil _ => exact absurd rfl ne
  | @one x u v w hu spelled hw =>
    obtain ⟨vs, rfl, -⟩ := readsEntries.reads spelled
    simp only [List.length_append, List.length_cons] at enough
    obtain ⟨a, g, rfl⟩ := List.exists_cons_of_length_pos (show 0 < fuel.length by omega)
    rw [List.length_cons] at enough
    have left : g ≠ [] := List.length_pos_iff.mp (show 0 < g.length by omega)
    have stops : Stops (w ++ '\x7d' :: text) := stops_append hw Frame.object.stops_closer
    have goes : step s x = some s' := by simpa using goes
    have read := readsEntries.reads_cons (a := a) opens hu spelled stops goes (reads_entriesFrom_end hw left)
    simp only [List.append_assoc] at read ⊢
    exact read
  | @cons x y xs u v w cs hu spelled hw _ ih =>
    obtain ⟨vs, rfl, -⟩ := readsEntries.reads spelled
    simp only [List.length_append, List.length_cons] at enough
    obtain ⟨a, g, rfl⟩ := List.exists_cons_of_length_pos (show 0 < fuel.length by omega)
    rw [List.length_cons] at enough
    have stops : Stops (w ++ ',' :: (cs ++ '\x7d' :: text)) :=
      stops_append hw (stops_cons (.inr (.inl rfl)))
    obtain ⟨t, goes, later⟩ : ∃ t, step s x = some t ∧ (y :: xs).foldlM step t = some s' := by
      rw [List.foldlM_cons] at goes
      exact Option.bind_eq_some_iff.mp goes
    have behind := ih (List.cons_ne_nil _ _) (opensKey_comma hw) (show cs.length < g.length by omega) later
    rw [List.append_assoc] at behind
    have read := readsEntries.reads_cons (a := a) opens hu spelled stops goes behind
    simp only [List.append_assoc, List.cons_append] at read ⊢
    exact read

/-- The entries of an object take its first state to the last one. -/
theorem ReadsEntries.reads_entries (readsEntries : ReadsEntries Spells entry step) {xs : List α}
    (h : SpellsAll Spells xs cs) {s s' : σ} (goes : xs.foldlM step s = some s') :
    Reads (entries entry s) (cs ++ '\x7d' :: text) s' ('\x7d' :: text) := by
  refine Reads.remaining_bind ?_
  cases xs with
  | nil =>
    obtain rfl : s = s' := Option.some.inj goes
    cases h with
    | nil hw => exact reads_entriesFrom_end hw (by simp)
  | cons x xs => exact readsEntries.reads_entriesFrom h (List.cons_ne_nil x xs) opensKey_first (by simp) goes

theorem reads_enclosed_object {body : Reader α} {x : α}
    (h : Reads body (cs ++ '\x7d' :: text) x ('\x7d' :: text)) :
    Reads (enclosed closeObject body) ('\x7b' :: (cs ++ '\x7d' :: text)) x text := by
  intro c hc
  have inside : c.next.rest = cs ++ '\x7d' :: text := by simp [Cursor.next, hc]
  obtain ⟨d, hd, read⟩ := h c.next inside
  have closed : d.skipSpace.rest = '\x7d' :: text :=
    rest_skipSpace (w := []) .nil (startsSolid_cons rfl) hd
  refine ⟨d.skipSpace.next, by simp [Cursor.next, closed], ?_⟩
  simp only [enclosed, read, closeObject, closed]

end Entries

theorem SpellsField.reads {key : String} {Spells : List Char → Prop} {v : List Char}
    (h : SpellsField key Spells v) :
    ∃ vs, v = '"' :: vs ∧ ∃ u w v', IsSpacing u ∧ IsSpacing w ∧ Spells v' ∧
      ∀ {text y left} {k : String → Reader β}, Reads (k key) (u ++ ':' :: (w ++ (v' ++ text))) y left →
        Reads (Json.text >>= k) (vs ++ text) y left := by
  cases h with
  | @mk _ u w v' spelled hu hw hv =>
    cases spelled with
    | @quoted ts chars =>
      refine ⟨ts ++ '"' :: (u ++ ':' :: (w ++ v')), ?_, u, w, v', hu, hw, hv, ?_⟩
      · simp only [List.append_assoc, List.cons_append, List.nil_append]
      · intro text y left k read
        simp only [List.append_assoc, List.cons_append]
        exact (reads_text chars).bind read

end Footprint.Json
