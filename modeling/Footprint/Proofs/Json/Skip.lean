import Footprint.Json.Value
import Footprint.Proofs.Json.Reads
import Footprint.Proofs.Text.Characters

/-!
# Values passed over

Every value is passed over, whatever its shape and depth. The loop that passes values keeps the lists
and objects around the next value in a stack, so the statement is about a value in any stack: passing it
comes down to what follows a value there. The induction is on the spelling of the value.
-/

namespace Footprint.Json

open Text (isDigit)

variable {α : Type} {text : List Char}

/-- A text that ends a value before it. -/
def Stops (text : List Char) : Prop :=
  ∀ a ∈ text.head?, Cursor.isSpace a = true ∨ a = ',' ∨ a = ']' ∨ a = '\x7d'

theorem stops_cons {a : Char} (h : Cursor.isSpace a = true ∨ a = ',' ∨ a = ']' ∨ a = '\x7d') :
    Stops (a :: text) := by
  intro b hb
  obtain rfl : a = b := by simpa using hb
  exact h

theorem stops_append {w : List Char} (hw : IsSpacing w) (h : Stops text) : Stops (w ++ text) := by
  cases w with
  | nil => exact h
  | cons a w => exact stops_cons (.inl (isSpace_of_isSpacing hw List.mem_cons_self))

section Numbers

def EndsDigits (text : List Char) : Prop := isDigit (text.headD '\x00') = false

theorem endsDigits_cons {a : Char} (h : isDigit a = false) : EndsDigits (a :: text) := h

def EndsNumber (text : List Char) : Prop :=
  text.headD '\x00' ≠ '.' ∧ hasExponent (text.headD '\x00') = false

theorem Stops.endsDigits (h : Stops text) : EndsDigits text := by
  cases text with
  | nil => exact (by decide : isDigit '\x00' = false)
  | cons a text =>
    have := h a rfl
    simp only [Cursor.isSpace, Bool.or_eq_true, beq_iff_eq] at this
    apply endsDigits_cons
    rcases this with ((((rfl | rfl) | rfl) | rfl) | rfl | rfl | rfl) <;> decide

theorem Stops.endsNumber (h : Stops text) : EndsNumber text := by
  cases text with
  | nil => exact (by decide : '\x00' ≠ '.' ∧ hasExponent '\x00' = false)
  | cons a text =>
    have := h a rfl
    simp only [Cursor.isSpace, Bool.or_eq_true, beq_iff_eq] at this
    rw [EndsNumber, List.headD_cons]
    rcases this with ((((rfl | rfl) | rfl) | rfl) | rfl | rfl | rfl) <;> decide

theorem reads_peekOrNull : Reads peekOrNull text (text.headD '\x00') text :=
  fun c hc => ⟨c, hc, by rw [peekOrNull, hc]⟩

theorem reads_skipDigits {ds : List Char} (digits : ∀ d ∈ ds, isDigit d = true) (ends : EndsDigits text)
    {fuel : List Char} (enough : ds.length ≤ fuel.length) :
    Reads (skipDigits fuel) (ds ++ text) () text := by
  induction ds generalizing fuel with
  | nil =>
    cases fuel with
    | nil => exact reads_pure
    | cons a f =>
      refine reads_peekOrNull.bind ?_
      rw [List.nil_append, ends]
      exact reads_pure
  | cons d ds ih =>
    rw [List.forall_mem_cons] at digits
    cases fuel with
    | nil => simp at enough
    | cons a f =>
      refine reads_peekOrNull.bind ?_
      rw [List.cons_append, List.headD_cons, digits.1]
      exact (reads_advance d).bind (ih digits.2 (Nat.le_of_succ_le_succ enough))

/-- All digits that are left of a number are passed, however many there are. -/
theorem reads_skipDigits_remaining {ds : List Char} (digits : ∀ d ∈ ds, isDigit d = true)
    (ends : EndsDigits text) : Reads (remaining >>= skipDigits) (ds ++ text) () text :=
  Reads.remaining_bind (reads_skipDigits digits ends (by simp))

theorem IsDigits.headD {ds : List Char} (h : IsDigits ds) : isDigit ((ds ++ text).headD '\x00') = true := by
  obtain ⟨ne, digits⟩ := h
  obtain ⟨d, ds, rfl⟩ := List.exists_cons_of_ne_nil ne
  exact digits d List.mem_cons_self

theorem not_sign_of_isDigit {d : Char} (h : isDigit d = true) :
    d ≠ '+' ∧ d ≠ '-' ∧ d ≠ '.' ∧ hasExponent d = false := by
  refine ⟨?_, ?_, ?_, ?_⟩
  · rintro rfl; exact absurd h (by decide)
  · rintro rfl; exact absurd h (by decide)
  · rintro rfl; exact absurd h (by decide)
  · rw [hasExponent, Bool.or_eq_false_iff, beq_eq_false_iff_ne, beq_eq_false_iff_ne]
    constructor <;> rintro rfl <;> exact absurd h (by decide)

theorem reads_requiredDigits {ds : List Char} (digits : IsDigits ds) (ends : EndsDigits text) :
    Reads (do if isDigit (← peekOrNull) then skipDigits (← remaining) else failNext .invalidNumber)
      (ds ++ text) () text := by
  refine reads_peekOrNull.bind ?_
  rw [digits.headD]
  exact reads_skipDigits_remaining digits.2 ends

theorem reads_skipExponent {e : Char} {sign ds : List Char}
    (hsign : sign = [] ∨ sign = ['+'] ∨ sign = ['-']) (digits : IsDigits ds) (ends : EndsDigits text) :
    Reads skipExponent (e :: (sign ++ (ds ++ text))) () text := by
  refine (reads_advance e).bind (reads_peekOrNull.bind ?_)
  rcases hsign with rfl | rfl | rfl
  · have plain := not_sign_of_isDigit (digits.headD : isDigit ((ds ++ text).headD '\x00') = true)
    simp only [List.nil_append, plain, decide_false, Bool.or_self, Bool.false_eq_true, if_false]
    exact reads_requiredDigits digits ends
  · exact (reads_advance '+').bind (reads_requiredDigits digits ends)
  · exact (reads_advance '-').bind (reads_requiredDigits digits ends)

def skipMaybeExponent : Reader Unit := do
  if hasExponent (← peekOrNull) then skipExponent

def skipBehindWhole : Reader Unit := do
  let x ← peekOrNull
  if x = '.' then
    advance
    if isDigit (← peekOrNull) then skipDigits (← remaining) else failNext .invalidNumber
    skipMaybeExponent
  else if hasExponent x then skipExponent

theorem skipNumber_eq : skipNumber = (do
    let x ← peekOrNull
    if x = '0' then
      advance
      if isDigit (← peekOrNull) then failNext .invalidNumber
    else if isDigit x then skipDigits (← remaining)
    else failNext .invalidNumber
    skipBehindWhole) := rfl

theorem IsExponent.endsDigits {ex : List Char} (h : IsExponent ex) (stops : Stops text) :
    EndsDigits (ex ++ text) ∧ (ex ++ text).headD '\x00' ≠ '.' := by
  cases h with
  | none => exact ⟨stops.endsDigits, stops.endsNumber.1⟩
  | digits letter _ _ =>
    rw [EndsDigits, List.cons_append, List.headD_cons]
    rcases letter with rfl | rfl <;> decide

theorem reads_skipMaybeExponent {ex : List Char} (h : IsExponent ex) (stops : Stops text) :
    Reads skipMaybeExponent (ex ++ text) () text := by
  refine reads_peekOrNull.bind ?_
  cases h with
  | none =>
    rw [List.nil_append, stops.endsNumber.2]
    exact reads_pure
  | @digits e sign ds letter hsign digits =>
    have present : hasExponent e = true := by rcases letter with rfl | rfl <;> rfl
    rw [List.cons_append, List.headD_cons, present, List.append_assoc]
    exact reads_skipExponent hsign digits stops.endsDigits

theorem reads_skipBehindWhole {fraction ex : List Char} (hf : IsFraction fraction) (he : IsExponent ex)
    (stops : Stops text) : Reads skipBehindWhole (fraction ++ (ex ++ text)) () text := by
  have behind := he.endsDigits stops
  cases hf with
  | none =>
    refine reads_peekOrNull.bind ?_
    rw [List.nil_append, if_neg behind.2]
    have exponent := reads_skipMaybeExponent he stops
    intro c hc
    obtain ⟨d, hd, h⟩ := exponent c hc
    refine ⟨d, hd, ?_⟩
    rw [← h, skipMaybeExponent, ← hc]
    rfl
  | @digits ds digits =>
    rw [List.cons_append]
    refine reads_peekOrNull.bind ((reads_advance '.').bind (reads_peekOrNull.bind ?_))
    rw [digits.headD]
    exact Reads.remaining_bind ((reads_skipDigits digits.2 behind.1 (by simp)).bind
      (reads_skipMaybeExponent he stops))

theorem endsDigits_of_isFraction {fraction ex : List Char} (hf : IsFraction fraction) (he : IsExponent ex)
    (stops : Stops text) : EndsDigits (fraction ++ (ex ++ text)) := by
  cases hf with
  | none => exact (he.endsDigits stops).1
  | digits => exact endsDigits_cons (by decide)

/-- A number behind its sign is passed, of any size and with any precision. -/
theorem reads_skipNumber {whole fraction ex : List Char} (hw : IsWhole whole) (hf : IsFraction fraction)
    (he : IsExponent ex) (stops : Stops text) :
    Reads skipNumber (whole ++ (fraction ++ (ex ++ text))) () text := by
  have ends := endsDigits_of_isFraction hf he stops
  have behind := reads_skipBehindWhole hf he stops
  rw [skipNumber_eq]
  refine reads_peekOrNull.bind ?_
  cases hw with
  | zero =>
    rw [List.singleton_append]
    refine (reads_advance '0').bind (reads_peekOrNull.bind ?_)
    rw [ends]
    exact behind
  | positive digits notZero =>
    obtain ⟨d, ds, rfl⟩ := List.exists_cons_of_ne_nil digits.1
    have ne : d ≠ '0' := fun h => notZero (by rw [h]; rfl)
    have first : isDigit d = true := digits.2 d List.mem_cons_self
    rw [List.cons_append, List.headD_cons, if_neg ne, first]
    exact Reads.remaining_bind ((reads_skipDigits digits.2 ends (by simp)).bind behind)

end Numbers

section Frames

variable {β : Type} {r r' r'' : Reader α} {k : α → Reader β} {x : α} {before middle left : List Char}

/-- From every place with this text, a reader does what another one does at some place with that text. -/
def Leads (r : Reader α) (text : List Char) (r' : Reader α) (left : List Char) : Prop :=
  ∀ c : Cursor, c.rest = text → ∃ d : Cursor, d.rest = left ∧ r c = r' d

theorem Leads.trans (first : Leads r before r' middle) (second : Leads r' middle r'' left) :
    Leads r before r'' left := by
  intro c hc
  obtain ⟨d, hd, first⟩ := first c hc
  obtain ⟨e, he, second⟩ := second d hd
  exact ⟨e, he, first.trans second⟩

theorem Leads.reads (first : Leads r before r' middle) (second : Reads r' middle x left) :
    Reads r before x left := by
  intro c hc
  obtain ⟨d, hd, first⟩ := first c hc
  obtain ⟨e, he, second⟩ := second d hd
  exact ⟨e, he, first.trans second⟩

theorem Reads.leads (first : Reads r before x left) : Leads (r >>= k) before (k x) left := by
  intro c hc
  obtain ⟨d, hd, first⟩ := first c hc
  refine ⟨d, hd, ?_⟩
  simp only [Bind.bind, StateT.bind, first, Except.bind]

theorem Leads.bind (first : Leads r before r' left) : Leads (r >>= k) before (r' >>= k) left := by
  intro c hc
  obtain ⟨d, hd, first⟩ := first c hc
  refine ⟨d, hd, ?_⟩
  simp only [Bind.bind, StateT.bind, first]

def Frame.closer : Frame → Char
  | list => ']'
  | object => '\x7d'

theorem Frame.isSpace_closer (frame : Frame) : Cursor.isSpace frame.closer = false := by
  cases frame <;> decide

theorem Frame.stops_closer (frame : Frame) : Stops (frame.closer :: text) := by
  cases frame
  · exact stops_cons (.inr (.inr (.inl rfl)))
  · exact stops_cons (.inr (.inr (.inr rfl)))

theorem Frame.closes_iff {frame : Frame} {a : Char} : frame.closes a = true ↔ a = frame.closer := by
  cases frame <;> simp [closes, closer]

variable {w f : List Char} {frame : Frame} {frames : List Frame}

theorem closeFrames_close (hw : IsSpacing w) (full : Bool) :
    Leads (closeFrames full (frame :: frames)) (w ++ frame.closer :: text) (closeFrames true frames) text := by
  refine (reads_peekToken_cons hw frame.isSpace_closer).leads.trans ?_
  have notComma : (decide (frame.closer = ',') && full) = false := by cases frame <;> rfl
  simp only [notComma, Bool.false_eq_true, if_false, Frame.closes_iff.mpr rfl, if_true]
  exact (reads_advance frame.closer).leads

theorem closeFrames_comma (hw : IsSpacing w) :
    Reads (closeFrames true (frame :: frames)) (w ++ ',' :: text) (frame :: frames) text :=
  (reads_peekToken_cons hw rfl).bind ((reads_advance ',').bind reads_pure)

theorem closeFrames_open (hw : IsSpacing w) {a : Char} (solid : Cursor.isSpace a = false)
    (notCloser : a ≠ frame.closer) :
    Reads (closeFrames false (frame :: frames)) (w ++ a :: text) (frame :: frames) (a :: text) := by
  refine (reads_peekToken_cons hw solid).bind ?_
  have stays : frame.closes a = false := Bool.eq_false_iff.mpr (mt Frame.closes_iff.mp notCloser)
  simp only [Bool.and_false, stays, Bool.false_eq_true, if_false]
  exact reads_pure

/-- Passes what follows a value, or the bracket that opens one, up to the end of the outermost value. -/
def skipBehind (f : List Char) (full : Bool) (frames : List Frame) : Reader Unit := do
  let frames ← closeFrames full frames
  match frames with
  | [] => return
  | frame :: _ => do
    skipKey frame
    skipFrom f frames

theorem skipFrom_cons (a : Char) : skipFrom (a :: f) frames = (do
    let opened ← skipScalar
    skipBehind f opened.isNone (opened.toList ++ frames)) := rfl

theorem skipBehind_close (hw : IsSpacing w) (full : Bool) :
    Leads (skipBehind f full (frame :: frames)) (w ++ frame.closer :: text) (skipBehind f true frames) text :=
  (closeFrames_close hw full).bind

theorem skipBehind_comma (hw : IsSpacing w) :
    Leads (skipBehind f true (frame :: frames)) (w ++ ',' :: text)
      (skipKey frame >>= fun _ => skipFrom f (frame :: frames)) text :=
  (closeFrames_comma hw).leads

theorem skipBehind_open (hw : IsSpacing w) {a : Char} (solid : Cursor.isSpace a = false)
    (notCloser : a ≠ frame.closer) :
    Leads (skipBehind f false (frame :: frames)) (w ++ a :: text)
      (skipKey frame >>= fun _ => skipFrom f (frame :: frames)) (a :: text) :=
  (closeFrames_open hw solid notCloser).leads

theorem reads_colon (hw : IsSpacing w) : Reads colon (w ++ ':' :: text) () text :=
  (reads_peekToken_cons hw rfl).bind (reads_advance ':')

theorem reads_skipKey {key : List Char} (h : IsKey key) (hw : IsSpacing w) :
    ∃ w', IsSpacing w' ∧ w'.length ≤ key.length ∧
      Reads (skipKey .object) (w ++ (key ++ text)) () (w' ++ text) := by
  cases h with
  | @mk u w' ts body hu hw' =>
    refine ⟨w', hw', ?_, ?_⟩
    · simp only [List.length_cons, List.length_append]; omega
    simp only [List.append_assoc, List.cons_append]
    refine (reads_peekToken_cons hw rfl).bind ((reads_advance '"').bind ?_)
    exact (reads_skipText body).bind (reads_colon hu)

end Frames

section Values

variable {w v : List Char}

theorem IsWhole.head {whole : List Char} (h : IsWhole whole) :
    ∃ d ds, whole = d :: ds ∧ isDigit d = true := by
  cases h with
  | zero => exact ⟨'0', [], rfl, by decide⟩
  | positive digits =>
    obtain ⟨d, ds, rfl⟩ := List.exists_cons_of_ne_nil digits.1
    exact ⟨d, ds, rfl, digits.2 d List.mem_cons_self⟩

theorem IsNumber.head {cs : List Char} (h : IsNumber cs) :
    ∃ a ds, cs = a :: ds ∧ (a = '-' ∨ isDigit a = true) := by
  cases h with
  | @mk _ whole fraction exponent sign hw =>
    rcases sign with rfl | rfl
    · obtain ⟨d, ds, rfl, digit⟩ := hw.head
      exact ⟨d, ds ++ (fraction ++ exponent), rfl, .inr digit⟩
    · exact ⟨'-', _, rfl, .inl rfl⟩

theorem IsValue.head (h : IsValue v) :
    ∃ a as, v = a :: as ∧ Cursor.isSpace a = false ∧ ∀ frame : Frame, a ≠ frame.closer := by
  have closers (a : Char) (h : a ≠ ']' ∧ a ≠ '\x7d') : ∀ frame : Frame, a ≠ frame.closer := by
    rintro (_ | _)
    · exact h.1
    · exact h.2
  cases h with
  | number hn =>
    obtain ⟨a, as, rfl, rfl | digit⟩ := hn.head
    · exact ⟨_, _, rfl, rfl, closers _ (by decide)⟩
    · have := Text.forall_isDigit (p := fun d => Cursor.isSpace d = false ∧ d ≠ ']' ∧ d ≠ '\x7d')
        (by decide) digit
      exact ⟨_, _, rfl, this.1, closers a this.2⟩
  | _ => exact ⟨_, _, rfl, rfl, closers _ (by decide)⟩

theorem reads_skipScalar_digit (hw : IsSpacing w) {a : Char} (digit : isDigit a = true) {left : List Char}
    (number : Reads skipNumber (a :: text) () left) : Reads skipScalar (w ++ a :: text) none left := by
  have solid := Text.forall_isDigit (p := fun d => Cursor.isSpace d = false) (by decide) digit
  refine (reads_peekToken_cons hw solid).bind ?_
  split
  all_goals
    rename_i same
    first
    | cases same; done
    | obtain rfl := Option.some.inj same
  iterate 7 exact absurd digit (by decide)
  rw [if_pos digit]
  exact number.bind reads_pure

theorem reads_skipScalar_number (hw : IsSpacing w) (h : IsNumber v) (stops : Stops text) :
    Reads skipScalar (w ++ (v ++ text)) none text := by
  cases h with
  | @mk _ whole fraction exponent sign isWhole isFraction isExponent =>
    have number := reads_skipNumber isWhole isFraction isExponent stops
    rcases sign with rfl | rfl
    · obtain ⟨d, ds, rfl, digit⟩ := isWhole.head
      simp only [List.nil_append, List.append_assoc, List.cons_append] at number ⊢
      exact reads_skipScalar_digit hw digit number
    · simp only [List.cons_append, List.nil_append, List.append_assoc]
      exact (reads_peekToken_cons hw rfl).bind ((reads_advance '-').bind (number.bind reads_pure))

theorem AreItems.head {cs : List Char} (h : AreItems cs) :
    ∃ a as, cs = a :: as ∧ Cursor.isSpace a = false ∧ a ≠ Frame.list.closer := by
  cases h with
  | one hv _ | cons hv _ _ _ =>
    obtain ⟨a, as, rfl, solid, notCloser⟩ := hv.head
    exact ⟨a, _, rfl, solid, notCloser .list⟩

theorem AreFields.head {cs : List Char} (h : AreFields cs) :
    ∃ a as, cs = a :: as ∧ Cursor.isSpace a = false ∧ a ≠ Frame.object.closer := by
  cases h with
  | one hk _ _ | cons hk _ _ _ _ =>
    cases hk
    exact ⟨'"', _, rfl, rfl, by decide⟩

/-- Passing a text, and then going on behind a value, with as many rounds left as there are characters. -/
def Passes (r : List Char → Reader Unit) (spelled text : List Char) (frames : List Frame) : Prop :=
  ∀ fuel : List Char, spelled.length ≤ fuel.length →
    ∃ f : List Char, fuel.length ≤ f.length + spelled.length ∧
      Leads (r fuel) (spelled ++ text) (skipBehind f true frames) text

variable {frames : List Frame} {frame : Frame} {u cs : List Char}

theorem passes_scalar (ne : v ≠ []) (h : Reads skipScalar (w ++ (v ++ text)) none text) :
    Passes (fun f => skipFrom f frames) (w ++ v) text frames := by
  intro fuel enough
  have positive := List.length_pos_iff.mpr ne
  rw [List.length_append] at enough
  obtain ⟨a, f, rfl⟩ := List.exists_cons_of_length_pos (show 0 < fuel.length by omega)
  refine ⟨f, ?_, ?_⟩
  · rw [List.length_cons, List.length_append]; omega
  · simp only [skipFrom_cons, List.append_assoc]
    exact h.leads

theorem passes_opened (frame : Frame) {opener : Char}
    (opens : ∀ left, Reads skipScalar (w ++ opener :: left) (some frame) left)
    (h : Passes (fun f => skipBehind f false (frame :: frames)) cs text frames) :
    Passes (fun f => skipFrom f frames) (w ++ opener :: cs) text frames := by
  intro fuel enough
  rw [List.length_append, List.length_cons] at enough
  obtain ⟨a, f, rfl⟩ := List.exists_cons_of_length_pos (show 0 < fuel.length by omega)
  rw [List.length_cons] at enough
  obtain ⟨g, bound, leads⟩ := h f (by omega)
  refine ⟨g, ?_, ?_⟩
  · rw [List.length_append, List.length_cons, List.length_cons]; omega
  · simp only [skipFrom_cons, List.append_assoc, List.cons_append]
    exact (opens _).leads.trans leads

theorem passes_empty (hw : IsSpacing w) :
    Passes (fun f => skipBehind f false (frame :: frames)) (w ++ [frame.closer]) text frames := by
  intro fuel _
  refine ⟨fuel, Nat.le_add_right _ _, ?_⟩
  rw [List.append_assoc]
  exact skipBehind_close hw false

theorem passes_nonempty (hu : IsSpacing u)
    (head : ∃ a as, cs = a :: as ∧ Cursor.isSpace a = false ∧ a ≠ frame.closer)
    (h : Passes (fun f => skipKey frame >>= fun _ => skipFrom f (frame :: frames)) (cs ++ [frame.closer])
      text frames) :
    Passes (fun f => skipBehind f false (frame :: frames)) (u ++ cs ++ [frame.closer]) text frames := by
  obtain ⟨a, as, rfl, solid, notCloser⟩ := head
  intro fuel enough
  rw [List.append_assoc, List.length_append] at enough
  obtain ⟨f, bound, leads⟩ := h fuel (by omega)
  refine ⟨f, ?_, ?_⟩
  · rw [List.append_assoc, List.length_append]; omega
  · simp only [List.append_assoc, List.cons_append] at leads ⊢
    exact (skipBehind_open hu solid notCloser).trans leads

theorem passes_last (hw : IsSpacing w)
    (h : Passes (fun f => skipFrom f (frame :: frames)) v (w ++ frame.closer :: text) (frame :: frames)) :
    Passes (fun f => skipFrom f (frame :: frames)) (v ++ (w ++ [frame.closer])) text frames := by
  intro fuel enough
  rw [List.length_append] at enough
  obtain ⟨f, bound, leads⟩ := h fuel (by omega)
  refine ⟨f, ?_, ?_⟩
  · rw [List.length_append]; omega
  · simp only [List.append_assoc, List.cons_append, List.nil_append] at leads ⊢
    exact leads.trans (skipBehind_close hw true)

theorem passes_next (hw : IsSpacing w)
    (first : Passes (fun f => skipFrom f (frame :: frames)) v (w ++ ',' :: (cs ++ text)) (frame :: frames))
    (second : Passes (fun f => skipKey frame >>= fun _ => skipFrom f (frame :: frames)) cs text frames) :
    Passes (fun f => skipFrom f (frame :: frames)) (v ++ (w ++ ',' :: cs)) text frames := by
  intro fuel enough
  simp only [List.length_append, List.length_cons] at enough
  obtain ⟨f, bound, leads⟩ := first fuel (by omega)
  obtain ⟨g, further, behind⟩ := second f (by omega)
  refine ⟨g, ?_, ?_⟩
  · simp only [List.length_append, List.length_cons]; omega
  · simp only [List.append_assoc, List.cons_append] at leads ⊢
    exact leads.trans ((skipBehind_comma hw).trans behind)

theorem passes_keyed {k : List Char} (hk : IsKey k) (hu : IsSpacing u)
    (h : ∀ w, IsSpacing w → Passes (fun f => skipFrom f (.object :: frames)) (w ++ cs) text frames) :
    Passes (fun f => skipKey .object >>= fun _ => skipFrom f (.object :: frames)) (u ++ (k ++ cs))
      text frames := by
  intro fuel enough
  obtain ⟨w, hw, short, key⟩ : ∃ w', IsSpacing w' ∧ w'.length ≤ k.length ∧
      Reads (skipKey .object) (u ++ (k ++ (cs ++ text))) () (w' ++ (cs ++ text)) := reads_skipKey hk hu
  rw [List.length_append, List.length_append] at enough
  obtain ⟨f, bound, leads⟩ := h w hw fuel (by rw [List.length_append]; omega)
  refine ⟨f, ?_, ?_⟩
  · simp only [List.length_append] at bound ⊢; omega
  · simp only [List.append_assoc] at leads ⊢
    exact key.leads.trans leads

-- The recursion is on the length of the text; items of a list come after values of the same length.
mutual

/-- A value is passed in whatever it stands. -/
theorem IsValue.passes {v w text : List Char} {frames : List Frame} (h : IsValue v) (hw : IsSpacing w)
    (stops : Stops text) : Passes (fun f => skipFrom f frames) (w ++ v) text frames := by
  cases h with
  | null =>
    exact passes_scalar (List.cons_ne_nil _ _)
      ((reads_peekToken_cons hw rfl).bind ((reads_advance 'n').bind ((reads_word _).bind reads_pure)))
  | trueWord =>
    exact passes_scalar (List.cons_ne_nil _ _)
      ((reads_peekToken_cons hw rfl).bind ((reads_advance 't').bind ((reads_word _).bind reads_pure)))
  | falseWord =>
    exact passes_scalar (List.cons_ne_nil _ _)
      ((reads_peekToken_cons hw rfl).bind ((reads_advance 'f').bind ((reads_word _).bind reads_pure)))
  | number number =>
    obtain ⟨a, as, rfl, -⟩ := number.head
    exact passes_scalar (List.cons_ne_nil _ _) (reads_skipScalar_number hw number stops)
  | text body =>
    refine passes_scalar (List.cons_ne_nil _ _) ?_
    simp only [List.cons_append, List.append_assoc, List.nil_append]
    exact (reads_peekToken_cons hw rfl).bind
      ((reads_advance '"').bind ((reads_skipText body).bind reads_pure))
  | emptyList hu =>
    refine passes_opened .list (fun _ => ?_) (passes_empty hu)
    exact (reads_peekToken_cons hw rfl).bind ((reads_advance '[').bind reads_pure)
  | list hu items =>
    refine passes_opened .list (fun _ => ?_) (passes_nonempty hu items.head (items.passes .nil))
    exact (reads_peekToken_cons hw rfl).bind ((reads_advance '[').bind reads_pure)
  | emptyObject hu =>
    refine passes_opened .object (fun _ => ?_) (passes_empty hu)
    exact (reads_peekToken_cons hw rfl).bind ((reads_advance '\x7b').bind reads_pure)
  | object hu fields =>
    refine passes_opened .object (fun _ => ?_) (passes_nonempty hu fields.head (fields.passes .nil))
    exact (reads_peekToken_cons hw rfl).bind ((reads_advance '\x7b').bind reads_pure)
termination_by (v.length, 0)
decreasing_by all_goals simp only [Prod.lex_def, List.length_cons, List.length_append]; omega

theorem AreItems.passes {cs u text : List Char} {frames : List Frame} (h : AreItems cs) (hu : IsSpacing u) :
    Passes (fun f => skipKey .list >>= fun _ => skipFrom f (.list :: frames)) (u ++ (cs ++ [']'])) text
      frames := by
  cases h with
  | one hv hw =>
    have last : Passes (fun f => skipFrom f (.list :: frames)) _ text frames := passes_last hw
      (hv.passes hu (stops_append hw Frame.list.stops_closer))
    simp only [List.append_assoc] at last ⊢
    exact last
  | cons hv hw hu' items =>
    have next : Passes (fun f => skipFrom f (.list :: frames)) _ text frames := passes_next hw
      (hv.passes hu (stops_append hw (stops_cons (.inr (.inl rfl))))) (items.passes hu')
    simp only [List.append_assoc, List.cons_append] at next ⊢
    exact next
termination_by (cs.length, 1)
decreasing_by all_goals simp only [Prod.lex_def, List.length_cons, List.length_append]; omega

theorem AreFields.passes {cs u text : List Char} {frames : List Frame} (h : AreFields cs)
    (hu : IsSpacing u) :
    Passes (fun f => skipKey .object >>= fun _ => skipFrom f (.object :: frames)) (u ++ (cs ++ ['\x7d'])) text
      frames := by
  cases h with
  | one hk hv hw =>
    simp only [List.append_assoc]
    refine passes_keyed hk hu fun u' hu' => ?_
    have last : Passes (fun f => skipFrom f (.object :: frames)) _ text frames := passes_last hw
      (hv.passes hu' (stops_append hw Frame.object.stops_closer))
    rw [List.append_assoc] at last
    exact last
  | cons hk hv hw hu'' fields =>
    simp only [List.append_assoc, List.cons_append]
    refine passes_keyed hk hu fun u' hu' => ?_
    have next : Passes (fun f => skipFrom f (.object :: frames)) _ text frames := passes_next hw
      (hv.passes hu' (stops_append hw (stops_cons (.inr (.inl rfl))))) (fields.passes hu'')
    simp only [List.append_assoc] at next
    exact next
termination_by (cs.length, 1)
decreasing_by all_goals simp only [Prod.lex_def, List.length_cons, List.length_append]; omega

end

/-- A value of any depth is passed over. -/
theorem reads_skip (h : IsValue v) (hw : IsSpacing w) (stops : Stops text) :
    Reads skip (w ++ (v ++ text)) () text := by
  have passes : Passes (fun f => skipFrom f []) (w ++ v) text [] := h.passes hw stops
  obtain ⟨f, -, leads⟩ := passes (w ++ (v ++ text)) (by simp)
  rw [List.append_assoc] at leads
  exact Reads.remaining_bind (leads.reads reads_pure)

end Values

end Footprint.Json
