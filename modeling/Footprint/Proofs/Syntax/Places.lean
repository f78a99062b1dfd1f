import Footprint.Proofs.Syntax.Heads
import Footprint.Proofs.Syntax.Positions

/-!
# Cutting a text into lexemes

A text is cut into lexemes without a grammar: of what stands before a lexeme, it matters only which brackets, fields
and formatted strings are open. The cut is settled up to a colon in a field, which may begin a format or be a mark of
the code in the field.
-/

namespace Footprint.Syntax

/-- What may be open: brackets, the text of a formatted string, a replacement field in it, or the format of a field. -/
inductive Frame where
  | bracket | text | field | format
  deriving DecidableEq, Repr

def Frame.isCode : Frame → Bool
  | .bracket | .field => true
  | .text | .format => false

def marks : List (List Char) := longMarks ++ "()[]{},:;.=+-*/%@&|^~<>".toList.map fun c => [c]

/-- What is open behind a mark, if the mark may stand where this is open. -/
def Frame.behindMark (m : List Char) (fs : List Frame) : Option (List Frame) :=
  if m = ['('] ∨ m = ['['] then some (.bracket :: fs)
  else if m = ['\x7b'] then some ((if fs.head?.all Frame.isCode then .bracket else .field) :: fs)
  else if m = [')'] ∨ m = [']'] then if fs.head? = some .bracket then some fs.tail else none
  else if m = ['\x7d'] then if fs.head?.any (· != .text) then some fs.tail else none
  else some fs

/-- What is open behind a token. The format of a field takes the place of the field. -/
def Token.frames (fs : List Frame) : Token → Option (List Frame)
  | .mark m => Frame.behindMark m fs
  | .openFormatted => some (.text :: fs)
  | .closeFormatted => some fs.tail
  | .colon => some (.format :: fs.tail)
  | _ => some fs

/-- A place that cutting a text into lexemes comes to. -/
structure Place where
  rest : List Char
  here : Position := {}
  /-- What is open here, innermost first. -/
  frames : List Frame := []
  quotes : List Quote := []
  /-- Whether the word `lambda` stands before. -/
  lambda : Bool := false

namespace Place

def gap (p : Place) : Gap := Gap.scan p.rest p.here

def past (p : Place) : Place := { p with rest := p.gap.rest, here := p.gap.here }

def isCode (p : Place) : Bool := p.frames.head?.all Frame.isCode

def isSpent (p : Place) : Bool :=
  match p.frames.head? with
  | some .text => (Token.formattedText.length? p.quotes p.rest).isNone
  | some .format => (Token.formatText.length? p.quotes p.rest).isNone
  | _ => true

/-- The tokens that may be next. A colon in a field is a mark only behind the word `lambda`. -/
def lexemes (p : Place) : List Token :=
  match p.frames.head? with
  | some .text => if p.isSpent then [.closeFormatted, .mark ['\x7b']] else [.formattedText]
  | some .format => if p.isSpent then [.mark ['\x7b'], .mark ['\x7d']] else [.formatText]
  | frame =>
    if beginsString p.past.rest then [.plainString, .openFormatted]
    else if Number.length p.past.rest ≠ 0 then [.number]
    else .name [] :: ((marks.filter fun m => m ≠ [':'] || p.lambda || frame != some .field).map .mark ++
      if frame = some .field then [.conversion, .colon] else [])

def behind? (p : Place) (t : Token) : Option Place := do
  let n ← t.length? p.quotes p.rest
  let fs ← t.frames p.frames
  some {
    rest := p.rest.drop n
    here := p.here.afterAll (p.rest.take n)
    frames := fs
    quotes := t.track p.rest p.quotes
    lambda := p.lambda || p.rest.take n == "lambda".toList }

def read? (p : Place) (t : Token) : Option Place := (if t.isSpaced then p.past else p).behind? t

def next (p : Place) : List Place := p.lexemes.filterMap p.read?

end Place

/-- The places that cutting a text into lexemes comes to. -/
inductive Reached (source : List Char) : Place → Prop
  | start : Reached source { rest := source }
  | next {p q : Place} : Reached source p → q ∈ p.next → Reached source q

namespace Place

variable {p q : Place} {t : Token} {m : List Char} {n : Nat}

theorem ends_past (p : Place) : Gap.Ends p.past.rest := Gap.ends_scanFrom {} p.here p.rest

theorem length_past (p : Place) : p.past.rest.length ≤ p.rest.length := Gap.length_rest_scan p.rest p.here

theorem mem_next (lexeme : t ∈ p.lexemes) (read : p.read? t = some q) : q ∈ p.next :=
  List.mem_filterMap.mpr ⟨t, lexeme, read⟩

theorem behind?_eq_some_iff : p.behind? t = some q ↔ ∃ n fs, t.length? p.quotes p.rest = some n ∧
    t.frames p.frames = some fs ∧ q = {
      rest := p.rest.drop n
      here := p.here.afterAll (p.rest.take n)
      frames := fs
      quotes := t.track p.rest p.quotes
      lambda := p.lambda || p.rest.take n == "lambda".toList } := by
  simp only [behind?, Option.bind_eq_bind, Option.bind_eq_some_iff, Option.some.injEq]
  constructor
  · rintro ⟨n, length, fs, frames, rfl⟩
    exact ⟨n, fs, length, frames, rfl⟩
  · rintro ⟨n, fs, length, frames, rfl⟩
    exact ⟨n, length, fs, frames, rfl⟩

theorem exists_read (h : q ∈ p.next) : ∃ t ∈ p.lexemes, p.read? t = some q := List.mem_filterMap.mp h

end Place

/-- A place of the cut is a place of the text. -/
theorem Reached.standsIn {source : List Char} {p : Place} (h : Reached source p) :
    ({ rest := p.rest, here := p.here, quotes := p.quotes } : State).StandsIn source := by
  induction h with
  | start => exact ⟨⟨[], rfl, rfl⟩, nofun⟩
  | next _ mem ih =>
    obtain ⟨t, -, read⟩ := Place.exists_read mem
    obtain ⟨n, fs, -, -, rfl⟩ := Place.behind?_eq_some_iff.mp read
    split
    · exact ih.past.advance n (Token.isMarked_track ih.past.marked)
    · exact ih.advance n (Token.isMarked_track ih.marked)

theorem Reached.isMarked {source : List Char} {p : Place} (h : Reached source p) :
    ∀ q ∈ p.quotes, isQuoteMark q.mark = true := h.standsIn.marked

theorem Place.isSolid_lexemes (p : Place) : ∀ t ∈ p.lexemes, t.isSolid = true := by
  have solid : ∀ m ∈ marks, (Token.mark m).isSolid = true := by decide
  rw [lexemes]
  split
  · split <;> simp [Token.isSolid]
  · split <;> simp [Token.isSolid]
  · split
    · simp [Token.isSolid]
    · split
      · simp [Token.isSolid]
      · rw [List.forall_mem_cons, List.forall_mem_append, List.forall_mem_map]
        refine ⟨rfl, fun m mem => solid m (List.mem_filter.mp mem).1, ?_⟩
        split <;> simp [Token.isSolid]

theorem Place.length_next {p q : Place} (h : q ∈ p.next) : q.rest.length < p.rest.length := by
  obtain ⟨t, lexeme, read⟩ := exists_read h
  obtain ⟨n, fs, length, -, rfl⟩ := behind?_eq_some_iff.mp read
  obtain ⟨positive, more⟩ := Token.length_pos (p.isSolid_lexemes t lexeme) length
  have some := List.length_pos_iff.mpr more
  have passed : (if t.isSpaced then p.past else p).rest.length ≤ p.rest.length := by
    split
    · exact p.length_past
    · exact Nat.le_refl _
  rw [List.length_drop]
  omega

def Place.onward : Nat → Place → List Place
  | 0, p => [p]
  | n + 1, p => p :: p.next.flatMap (onward n)

def places (source : List Char) : List Place := Place.onward source.length { rest := source }

theorem Place.mem_onward_self (n : Nat) (p : Place) : p ∈ onward n p := by
  cases n with
  | zero => exact List.mem_singleton_self p
  | succ n => exact List.mem_cons_self

theorem Place.mem_onward_next {n : Nat} {p q r : Place} (mem : q ∈ onward n p) (next : r ∈ q.next)
    (enough : p.rest.length ≤ n) : r ∈ onward n p := by
  induction n generalizing p with
  | zero =>
    obtain rfl := List.mem_singleton.mp mem
    have := length_next next
    omega
  | succ n ih =>
    apply List.mem_cons_of_mem
    rcases List.mem_cons.mp mem with rfl | mem
    · exact List.mem_flatMap.mpr ⟨r, next, mem_onward_self n r⟩
    · obtain ⟨p', step, mem⟩ := List.mem_flatMap.mp mem
      have := length_next step
      exact List.mem_flatMap.mpr ⟨p', step, ih mem (by omega)⟩

theorem reached_iff_mem_places {source : List Char} {p : Place} : Reached source p ↔ p ∈ places source := by
  have onward {n : Nat} {p q : Place} (reached : Reached source p) (mem : q ∈ Place.onward n p) : Reached source q := by
    induction n generalizing p with
    | zero => exact List.mem_singleton.mp mem ▸ reached
    | succ n ih =>
      rcases List.mem_cons.mp mem with rfl | mem
      · exact reached
      · obtain ⟨p', step, mem⟩ := List.mem_flatMap.mp mem
        exact ih (reached.next step) mem
  constructor
  · intro reached
    induction reached with
    | start => exact Place.mem_onward_self _ _
    | next _ next ih => exact Place.mem_onward_next ih next (Nat.le_refl _)
  · exact onward .start

theorem head_of_mem_marks {m : List Char} (h : m ∈ marks) : ∃ c ds, m = c :: ds ∧ c ∈ markCharacters := by
  have known : ∀ m ∈ marks, m.head?.any markCharacters.contains = true := by decide
  obtain ⟨c, head, mem⟩ := (Option.any_eq_true _ _).mp (known m h)
  obtain ⟨ds, rfl⟩ := List.head?_eq_some_iff.mp head
  exact ⟨c, ds, rfl, List.contains_iff_mem.mp mem⟩

end Footprint.Syntax
