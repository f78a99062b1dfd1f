import Footprint.Proofs.Syntax.Bodies
import Footprint.Proofs.Syntax.Parallel
import Footprint.Proofs.Syntax.Standing

/-!
# What is asked at a place

A token is asked for only at places that have it among their lexemes, up to names and keywords, which are one word in
the cut. So what is read stands at a place of the cut again, or has gone astray.
-/

namespace Footprint.Syntax

open Text (isDigit isIdentifierStart)

/-- Open suites begin at lines outside all brackets. -/
def State.IsIndented (source : List Char) (s : State) : Prop :=
  ∀ n ∈ s.suites, ∃ p, Reached source p ∧ p.frames = [] ∧ s.rest.length ≤ p.rest.length ∧ p.gap.stops.getLast? = some n

def Token.IsAskedAt (p : Place) : Token → Prop
  | .mark m => m ∈ marks ∧ p.isSpent = true ∧ (p.isCode = true ∨ m = ['\x7b'] ∨ m = ['\x7d']) ∧
      (m = [':'] → p.lambda = true ∨ p.frames.head? ≠ some .field)
  | .keyword _ | .name _ | .number | .plainString | .openFormatted => p.isCode = true
  | .formattedText | .closeFormatted => p.frames.head? = some .text
  | .formatText => p.frames.head? = some .format
  | .conversion | .colon => p.frames.head? = some .field

def Layout.IsAskedAt (p : Place) : Layout → Prop
  | .lead => p.isSpent = true
  | .glue | .newline | .finish => p.isCode = true
  | .line | .indent | .dedent => p.frames = []

/-- Whether a token is none that begins with a quote or a digit, nor goes on with a text. -/
def Token.isTame : Token → Bool
  | .mark m => marks.contains m
  | .keyword _ | .name _ | .conversion | .colon => true
  | _ => false

/-- Whether a question is asked at a place where it may be asked, or one that is tame astray. -/
inductive Question.IsAsked (source : List Char) (s : State) : Question → Prop
  | token {t : Token} {p : Place} : s.IsIndented source → Reached source p → s.At p →
    (t.isSpaced = false → s.rest = p.rest ∧ s.here = p.here) → t.IsAskedAt p → IsAsked source s (.token t)
  | layout {l : Layout} {p : Place} : s.IsIndented source → Reached source p → s.At p → l.IsAskedAt p →
    IsAsked source s (.layout l)
  | astray {t : Token} : s.Astray source → t.isTame = true → IsAsked source s (.token t)
  | astrayLayout {l : Layout} : s.Astray source → IsAsked source s (.layout l)

namespace Place

variable {p : Place}

theorem isSpent_of_isCode (h : p.isCode = true) : p.isSpent = true := by
  rw [isSpent]
  split
  · rename_i head
    rw [isCode, head] at h
    cases h
  · rename_i head
    rw [isCode, head] at h
    cases h
  · rfl

theorem lexemes_of_isCode (h : p.isCode = true) : p.lexemes =
    if beginsString p.past.rest then [.plainString, .openFormatted]
    else if Number.length p.past.rest ≠ 0 then [.number]
    else .name [] :: ((marks.filter fun m => m ≠ [':'] || p.lambda || p.frames.head? != some .field).map .mark ++
      if p.frames.head? = some .field then [.conversion, .colon] else []) := by
  rw [lexemes]
  split
  · rename_i head
    rw [isCode, head] at h
    cases h
  · rename_i head
    rw [isCode, head] at h
    cases h
  · rfl

theorem isCode_of_head {f : Frame} (head : p.frames.head? = some f) (code : f.isCode = true) : p.isCode = true := by
  rw [isCode, head]
  exact code

theorem isCode_of_nil (outside : p.frames = []) : p.isCode = true := by
  rw [isCode, outside]
  rfl

theorem exists_of_not_isCode (content : p.isCode = false) :
    p.frames.head? = some .text ∨ p.frames.head? = some .format := by
  rw [isCode] at content
  cases head : p.frames.head? with
  | none =>
    rw [head] at content
    cases content
  | some f =>
    rw [head] at content
    cases f with
    | text => exact .inl rfl
    | format => exact .inr rfl
    | bracket | field => cases content

variable {quotes : List Quote} {m : List Char} {fs : List Frame} {n : Nat}

theorem literal_mem_lexemes (code : p.isCode = true) (string : beginsString p.past.rest = true) :
    Token.plainString ∈ p.lexemes ∧ Token.openFormatted ∈ p.lexemes := by
  rw [lexemes_of_isCode code, if_pos string]
  exact ⟨List.mem_cons_self, List.mem_cons_of_mem _ List.mem_cons_self⟩

theorem number_mem_lexemes (code : p.isCode = true) (number : Number.length p.past.rest ≠ 0) :
    Token.number ∈ p.lexemes := by
  have noString : ¬beginsString p.past.rest = true := fun string => number (numberLength_of_beginsString string)
  rw [lexemes_of_isCode code, if_neg noString, if_pos number]
  exact List.mem_cons_self

theorem name_mem_lexemes (code : p.isCode = true) (noString : beginsString p.past.rest = false)
    (noNumber : Number.length p.past.rest = 0) : Token.name [] ∈ p.lexemes := by
  rw [lexemes_of_isCode code, if_neg (by rw [noString]; exact Bool.false_ne_true), if_neg (not_not_intro noNumber)]
  exact List.mem_cons_self

theorem mark_mem_lexemes (code : p.isCode = true) (known : m ∈ marks)
    (colon : m = [':'] → p.lambda = true ∨ p.frames.head? ≠ some .field)
    (length : (Token.mark m).length? quotes p.past.rest = some n) (noNumber : Number.length p.past.rest = 0) :
    Token.mark m ∈ p.lexemes := by
  have noString : beginsString p.past.rest = false := by
    obtain ⟨-, -, c, ds, begins, -, mem⟩ := of_length_mark known length
    rw [begins]
    exact not_beginsString_of_mark mem
  rw [lexemes_of_isCode code, if_neg (by rw [noString]; exact Bool.false_ne_true), if_neg (not_not_intro noNumber)]
  refine List.mem_cons_of_mem _ (List.mem_append_left _ (List.mem_map_of_mem (List.mem_filter.mpr ⟨known, ?_⟩)))
  by_cases isColon : m = [':']
  · rcases colon isColon with behind | apart
    · simp [behind]
    · simp [apart]
  · simp [isColon]

theorem conversion_mem_lexemes (field : p.frames.head? = some .field) {c : Char} {ds : List Char}
    (begins : p.past.rest = c :: ds) (mem : c ∈ markCharacters) (noPoint : c ≠ '.') :
    Token.conversion ∈ p.lexemes ∧ Token.colon ∈ p.lexemes := by
  have noString : ¬beginsString p.past.rest = true := by
    rw [begins, not_beginsString_of_mark mem]
    exact Bool.false_ne_true
  have noNumber : Number.length p.past.rest = 0 := by
    rw [begins]
    exact numberLength_cons (of_mem_markCharacters mem).2.1 noPoint
  rw [lexemes_of_isCode (isCode_of_head field rfl), if_neg noString, if_neg (not_not_intro noNumber), if_pos field]
  refine ⟨List.mem_cons_of_mem _ (List.mem_append_right _ List.mem_cons_self), ?_⟩
  exact List.mem_cons_of_mem _ (List.mem_append_right _ (List.mem_cons_of_mem _ List.mem_cons_self))

theorem brace_mem_lexemes (content : p.isCode = false) (spent : p.isSpent = true) (brace : m = ['\x7b'] ∨ m = ['\x7d'])
    (frames : Frame.behindMark m p.frames = some fs) : Token.mark m ∈ p.lexemes := by
  rw [lexemes]
  rcases exists_of_not_isCode content with head | head
  · rw [head]
    dsimp only
    rw [if_pos spent]
    rcases brace with rfl | rfl
    · exact List.mem_cons_of_mem _ List.mem_cons_self
    · simp [Frame.behindMark, head] at frames
  · rw [head]
    dsimp only
    rw [if_pos spent]
    rcases brace with rfl | rfl
    · exact List.mem_cons_self
    · exact List.mem_cons_of_mem _ List.mem_cons_self

theorem text_mem_lexemes (text : p.frames.head? = some .text) :
    (Token.formattedText.length? p.quotes p.rest = some n → Token.formattedText ∈ p.lexemes) ∧
      (Token.formattedText.length? p.quotes p.rest = none → Token.closeFormatted ∈ p.lexemes) := by
  rw [lexemes, isSpent, text]
  constructor
  · intro length
    rw [length]
    exact List.mem_cons_self
  · intro length
    rw [length]
    exact List.mem_cons_self

theorem close_mem_lexemes {source : List Char} (reached : Reached source p) (text : p.frames.head? = some .text)
    (length : Token.closeFormatted.length? p.quotes p.rest = some n) : Token.closeFormatted ∈ p.lexemes := by
  obtain ⟨q, opened, ds, quotes, begins, closes⟩ := of_length_close length
  apply (text_mem_lexemes (n := 0) text).2
  simp only [Token.length?]
  rw [begins, quotes]
  dsimp only
  rw [Quote.bodyLength?_mark (reached.isMarked q (quotes ▸ List.mem_cons_self)) closes]
  rfl

theorem formatText_mem_lexemes (format : p.frames.head? = some .format)
    (length : Token.formatText.length? p.quotes p.rest = some n) : Token.formatText ∈ p.lexemes := by
  rw [lexemes, isSpent, format]
  dsimp only
  rw [length]
  exact List.mem_cons_self

end Place

namespace Stance

variable {source : List Char} {g : Ground} {base : List Frame → Prop} {fs : List Frame} {seen : Bool} {σ τ : Stance} {s s' : State}
  {p q : Place} {t u : Token} {ts : List Tree} {n : Nat}

structure Holds (source : List Char) (base : List Frame → Prop) (seen : Bool) (σ : Stance) (s : State) (p : Place) : Prop where
  reached : Reached source p
  stands : s.At p
  direct : σ.behind = false → p.isCode = false → s.rest = p.rest ∧ s.here = p.here
  fits : σ.Fits base p.frames
  spent : σ.spent = true → p.isSpent = true
  lambda : (σ.lambda || seen) = true → p.lambda = true

/-- A state stands at a place that what is known holds of, or has gone astray where that may be. -/
def StandsAt (source : List Char) (base : List Frame → Prop) (seen : Bool) (σ : Stance) (s : State) : Prop :=
  s.IsIndented source ∧ ((∃ p, σ.Holds source base seen s p) ∨ σ.behind = true ∧ s.Astray source)

namespace Holds

variable (h : σ.Holds source base seen s p) (ground : g.Holds base)
include h

theorem step {r : Place} (place : (if t.isSpaced then p.past else p) = r) (behind : State.At.Behind s s' r t n)
    (lexeme : u ∈ p.lexemes) (spaced : u.isSpaced = t.isSpaced) (length : u.length? p.quotes r.rest = some n)
    (frames : u.frames p.frames = some fs) (track : u.track r.rest p.quotes = t.track r.rest p.quotes)
    (fits : τ.Fits base fs) (spent : τ.spent = true → fs.head?.all Frame.isCode = true)
    (lambda : (τ.lambda || seen) = true → p.lambda = true ∨ r.rest.take n = "lambda".toList) :
    ∃ q, τ.Holds source base seen s' q := by
  have same : r.quotes = p.quotes ∧ r.frames = p.frames ∧ r.lambda = p.lambda := by
    rw [← place]
    split <;> exact ⟨rfl, rfl, rfl⟩
  have read : p.read? u = some {
      rest := r.rest.drop n
      here := r.here.afterAll (r.rest.take n)
      frames := fs
      quotes := u.track r.rest p.quotes
      lambda := p.lambda || r.rest.take n == "lambda".toList } := by
    rw [Place.read?, spaced, place]
    refine Place.behind?_eq_some_iff.mpr ⟨n, fs, ?_, ?_, ?_⟩
    · rw [same.1, length]
    · rw [same.2.1, frames]
    · rw [same.1, same.2.2]
  refine ⟨_, h.reached.next (Place.mem_next lexeme read), ⟨.inl ⟨behind.rest, behind.here⟩, ?_⟩, ?_, fits, ?_, ?_⟩
  · rw [behind.quotes, same.1]
    exact track.symm
  · exact fun _ _ => ⟨behind.rest, behind.here⟩
  · exact fun isSpent => Place.isSpent_of_isCode (spent isSpent)
  · intro known
    rw [Bool.or_eq_true, beq_iff_eq]
    exact lambda known

theorem mark {m : List Char} (asked : (Token.mark m).IsAskedAt p) (frames : Frame.behindMark m p.frames = some fs)
    (fits : τ.Fits base fs) (spent : τ.spent = true → fs.head?.all Frame.isCode = true) (lambda : τ.lambda = σ.lambda)
    (point : m = ['.'] → τ.behind = true) (read : (Token.mark m).read? s = some (ts, s')) :
    (∃ q, τ.Holds source base seen s' q) ∨ τ.behind = true ∧ s'.Astray source := by
  obtain ⟨known, isSpent, code, colon⟩ := asked
  obtain ⟨n, behind⟩ := h.stands.exists_behind (fun unspaced => by cases unspaced) read
  have behind : State.At.Behind s s' p.past (.mark m) n := behind
  have reads (lexeme : Token.mark m ∈ p.lexemes) : ∃ q, τ.Holds source base seen s' q :=
    h.step (t := .mark m) rfl behind lexeme rfl behind.length frames rfl fits spent fun known =>
      .inl (h.lambda (lambda ▸ known))
  cases isCode : p.isCode with
  | false =>
    have brace := code.resolve_left (by rw [isCode]; exact Bool.false_ne_true)
    exact .inl (reads (Place.brace_mem_lexemes isCode isSpent brace frames))
  | true =>
    by_cases noNumber : Number.length p.past.rest = 0
    · exact .inl (reads (Place.mark_mem_lexemes isCode known colon behind.length noNumber))
    · obtain ⟨rfl, ds, begins, digit⟩ := point_of_number known behind.length noNumber
      obtain ⟨c, head, digit⟩ := (Option.any_eq_true _ _).mp digit
      obtain ⟨es, rfl⟩ := List.head?_eq_some_iff.mp head
      have rest : s'.rest = c :: es := by
        obtain ⟨rfl, -⟩ := of_length_mark known behind.length
        rw [behind.rest, begins]
        rfl
      exact .inr ⟨point rfl, .point h.reached isCode (rest ▸ begins) rest digit⟩

theorem word (code : p.isCode = true) (spaced : t.isSpaced = true)
    (length : ∀ cs n, t.length? p.quotes cs = some n → n = wordLength cs ∧ n ≠ 0) (track : ∀ cs, t.track cs p.quotes = p.quotes)
    (fits : τ.Fits base p.frames) (letters : ∀ n, t.length? p.quotes p.past.rest = some n →
      (∀ d ∈ p.past.rest.take n, isStringPrefix d = true) → τ.behind = true)
    (lambda : ∀ n, t.length? p.quotes p.past.rest = some n → (τ.lambda || seen) = true → p.lambda = true ∨
      p.past.rest.take n = "lambda".toList)
    (read : t.read? s = some (ts, s')) : (∃ q, τ.Holds source base seen s' q) ∨ τ.behind = true ∧ s'.Astray source := by
  obtain ⟨n, behind⟩ := h.stands.exists_behind (fun unspaced => by rw [spaced] at unspaced; cases unspaced) read
  rw [if_pos spaced] at behind
  have letters := letters n behind.length
  have lambda := lambda n behind.length
  obtain ⟨rfl, some⟩ := length _ _ behind.length
  cases string : beginsString p.past.rest with
  | true =>
    obtain ⟨w, c, ds, begins, prefixes, quote⟩ := exists_of_beginsString string
    have reach : wordLength p.past.rest = w.length := by rw [begins, wordLength_letters prefixes quote]
    have rest : s'.rest = c :: ds := by rw [behind.rest, reach, begins, List.drop_left]
    refine .inr ⟨letters ?_, .letters h.reached code (rest ▸ begins) ?_ prefixes rest quote⟩
    · rw [reach, begins, List.take_left]
      exact prefixes
    · rintro rfl
      exact some reach
  | false =>
    have lexeme := Place.name_mem_lexemes code string (numberLength_of_wordLength some)
    refine .inl (h.step (u := .name []) (if_pos spaced) behind lexeme (spaced ▸ rfl) ?_ rfl ?_ fits (fun _ => code) lambda)
    · simp [Token.length?, some]
    · exact (track _).symm

theorem lexeme (unspaced : t.isSpaced = false → s.rest = p.rest ∧ s.here = p.here)
    (lexeme : ∀ n, t.length? p.quotes (if t.isSpaced then p.past else p).rest = some n → t ∈ p.lexemes)
    (frames : t.frames p.frames = some fs) (fits : τ.Fits base fs)
    (spent : τ.spent = true → fs.head?.all Frame.isCode = true) (lambda : τ.lambda = σ.lambda)
    (read : t.read? s = some (ts, s')) : ∃ q, τ.Holds source base seen s' q := by
  obtain ⟨n, behind⟩ := h.stands.exists_behind unspaced read
  have same : (if t.isSpaced then p.past else p).quotes = p.quotes := by split <;> rfl
  have length : t.length? p.quotes (if t.isSpaced then p.past else p).rest = some n := same ▸ behind.length
  exact h.step rfl behind (lexeme n length) rfl length frames rfl fits spent fun known => .inl (h.lambda (lambda ▸ known))

end Holds

/-! ### Marks -/

/-- What a mark may be, and what is known behind it. -/
inductive MarkStep (g : Ground) (σ : Stance) : List Char → Stance → Prop
  | opens {m : List Char} : m = ['('] ∨ m = ['['] ∨ m = ['\x7b'] → σ.isCode g = true → MarkStep g σ m (σ.push g .bracket)
  | beginsField : σ.isIn g [.text, .format] = true → σ.spent = true → MarkStep g σ ['\x7b'] (σ.push g .field)
  | closes {m : List Char} : m = [')'] ∨ m = [']'] → σ.isIn g [.bracket] = true → MarkStep g σ m (σ.pop g)
  | endsField : σ.isIn g [.bracket, .field, .format] = true → σ.spent = true → MarkStep g σ ['\x7d'] (σ.pop g)
  | other {m : List Char} : m ≠ ['('] → m ≠ ['['] → m ≠ ['\x7b'] → m ≠ [')'] → m ≠ [']'] → m ≠ ['\x7d'] →
    σ.isCode g = true → (m = [':'] → σ.lambda = true ∨ σ.isIn g [.bracket] = true ∨ σ.isOutside g = true) →
    MarkStep g σ m { σ with behind := m == ['.'] }

theorem markStep_of_mark {m : List Char} (may : σ.mark g m = some τ) : m ∈ marks ∧ MarkStep g σ m τ := by
  unfold Stance.mark at may
  split at may
  · cases may
  rename_i known
  refine ⟨Decidable.not_not.mp known, ?_⟩
  split at may
  · rename_i brace
    subst brace
    split at may
    · rename_i code
      obtain rfl := Option.some.inj may
      exact .opens (.inr (.inr rfl)) code
    · split at may
      · rename_i content
        obtain rfl := Option.some.inj may
        rw [Bool.and_eq_true] at content
        exact .beginsField content.1 content.2
      · cases may
  rename_i brace
  split at may
  · rename_i brace'
    subst brace'
    split at may
    · rename_i inside
      obtain rfl := Option.some.inj may
      rw [Bool.and_eq_true] at inside
      exact .endsField inside.1 inside.2
    · cases may
  rename_i brace'
  split at may
  · cases may
  rename_i code
  have code : σ.isCode g = true := by simpa using code
  split at may
  · rename_i opens
    obtain rfl := Option.some.inj may
    exact .opens (opens.imp_right .inl) code
  rename_i opening
  split at may
  · rename_i closes
    split at may
    · rename_i inside
      obtain rfl := Option.some.inj may
      exact .closes closes inside
    · cases may
  rename_i closing
  split at may
  · cases may
  rename_i colon
  obtain rfl := Option.some.inj may
  rw [not_or] at opening closing
  refine .other opening.1 opening.2 brace closing.1 closing.2 brace' code fun isColon => ?_
  rw [isColon, decide_eq_true rfl, Bool.true_and, Bool.not_eq_true', Bool.not_eq_false, Bool.or_eq_true, Bool.or_eq_true,
    or_assoc] at colon
  exact colon

theorem pop_spent (g : Ground) (σ : Stance) : (σ.pop g).spent = (σ.pop g).isCode g ∧ (σ.pop g).lambda = σ.lambda := by
  unfold pop
  split <;> exact ⟨rfl, rfl⟩

variable (h : σ.Holds source base seen s p) (ground : g.Holds base)
include h ground

theorem Holds.isCode_pop (spent : (σ.pop g).spent = true) : p.frames.tail.head?.all Frame.isCode = true :=
  (h.fits.pop g).isCode ground ((pop_spent g σ).1 ▸ spent)

theorem Holds.isCode (code : σ.isCode g = true) : p.isCode = true := h.fits.isCode ground code

theorem Holds.head_of_isIn {f : Frame} (inside : σ.isIn g [f] = true) : p.frames.head? = some f := by
  obtain ⟨f', rest, frames, mem⟩ := h.fits.exists_of_isIn ground inside
  rw [frames, List.mem_singleton.mp mem]
  rfl

theorem Holds.isAskedAt_mark {m : List Char} (known : m ∈ marks) (step : MarkStep g σ m τ) :
    (Token.mark m).IsAskedAt p := by
  refine ⟨known, ?_, ?_, ?_⟩
  · cases step with
    | opens _ code | other _ _ _ _ _ _ code _ => exact Place.isSpent_of_isCode (h.isCode ground code)
    | beginsField _ spent | endsField _ spent => exact h.spent spent
    | closes _ inside => exact Place.isSpent_of_isCode (Place.isCode_of_head (h.head_of_isIn ground inside) rfl)
  · cases step with
    | opens _ code | other _ _ _ _ _ _ code _ => exact .inl (h.isCode ground code)
    | beginsField => exact .inr (.inl rfl)
    | endsField => exact .inr (.inr rfl)
    | closes _ inside => exact .inl (Place.isCode_of_head (h.head_of_isIn ground inside) rfl)
  · rintro rfl
    cases step with
    | opens opens _ => rcases opens with opens | opens | opens <;> cases opens
    | closes closes _ => rcases closes with closes | closes <;> cases closes
    | other _ _ _ _ _ _ _ colon =>
      rcases colon rfl with lambda | inside | outside
      · exact .inl (h.lambda (by rw [lambda]; rfl))
      · right
        rw [h.head_of_isIn ground inside]
        exact nofun
      · right
        rw [h.fits.eq_nil ground outside]
        exact nofun

theorem Holds.stands_mark {m : List Char} (known : m ∈ marks) (step : MarkStep g σ m τ)
    (read : (Token.mark m).read? s = some (ts, s')) :
    (∃ q, τ.Holds source base seen s' q) ∨ τ.behind = true ∧ s'.Astray source := by
  have asked := h.isAskedAt_mark ground known step
  cases step with
  | opens opens code =>
    have isCode := h.isCode ground code
    have frames : Frame.behindMark m p.frames = some (.bracket :: p.frames) := by
      rw [Place.isCode] at isCode
      rcases opens with rfl | rfl | rfl
      · rfl
      · rfl
      · simp [Frame.behindMark, isCode]
    refine h.mark asked frames (h.fits.push g .bracket) (fun _ => rfl) rfl ?_ read
    rintro rfl
    rcases opens with opens | opens | opens <;> cases opens
  | beginsField inside spent =>
    obtain ⟨f, rest, frames, mem⟩ := h.fits.exists_of_isIn ground inside
    have opened : Frame.behindMark ['\x7b'] p.frames = some (.field :: p.frames) := by
      rw [frames]
      cases f with
      | text | format => rfl
      | bracket | field => simp at mem
    exact h.mark asked opened (h.fits.push g .field) (fun _ => rfl) rfl nofun read
  | closes closes inside =>
    have head := h.head_of_isIn ground inside
    have frames : Frame.behindMark m p.frames = some p.frames.tail := by
      rcases closes with rfl | rfl <;> simp [Frame.behindMark, head]
    refine h.mark asked frames (h.fits.pop g) (h.isCode_pop ground) (pop_spent g σ).2 ?_ read
    rintro rfl
    rcases closes with closes | closes <;> cases closes
  | endsField inside spent =>
    obtain ⟨f, rest, opened, mem⟩ := h.fits.exists_of_isIn ground inside
    have frames : Frame.behindMark ['\x7d'] p.frames = some p.frames.tail := by
      rw [opened]
      cases f with
      | text => simp at mem
      | bracket | field | format => rfl
    exact h.mark asked frames (h.fits.pop g) (h.isCode_pop ground) (pop_spent g σ).2 nofun read
  | @other m opening opening' brace closing closing' brace' code colon =>
    have frames : Frame.behindMark m p.frames = some p.frames := by
      simp [Frame.behindMark, opening, opening', brace, closing, closing', brace']
    refine h.mark asked frames h.fits (fun _ => h.isCode ground code) rfl ?_ read
    rintro rfl
    rfl

omit h ground in
theorem isIn_of_token {f : Frame} {τ' : Stance} (may : (if σ.isIn g [f] && !σ.behind then some τ' else none) = some τ) :
    σ.isIn g [f] = true ∧ σ.behind = false ∧ τ = τ' := by
  obtain ⟨inside, same⟩ := Option.ite_none_right_eq_some.mp may
  rw [Bool.and_eq_true, Bool.not_eq_true'] at inside
  exact ⟨inside.1, inside.2, (Option.some.inj same).symm⟩

omit h ground in
theorem isCode_of_token {τ' : Stance} (may : (if σ.isCode g && !σ.behind then some τ' else none) = some τ) :
    σ.isCode g = true ∧ σ.behind = false ∧ τ = τ' := by
  obtain ⟨code, same⟩ := Option.ite_none_right_eq_some.mp may
  rw [Bool.and_eq_true, Bool.not_eq_true'] at code
  exact ⟨code.1, code.2, (Option.some.inj same).symm⟩

theorem Holds.stands_literal {u : Token} (literal : u = .plainString ∨ u = .openFormatted) (may : σ.token g u = some τ)
    (read : u.read? s = some (ts, s')) : ∃ q, τ.Holds source base seen s' q := by
  have string (code : p.isCode = true) {quotes : List Quote} {n : Nat} (length : u.length? quotes p.past.rest = some n) :
      u ∈ p.lexemes := by
    have begins : beginsString p.past.rest = true := by
      refine Decidable.byContradiction fun other => ?_
      have none : Token.plainString.length? quotes p.past.rest = none ∧ Token.openFormatted.length? quotes p.past.rest = none :=
        length_string_none (Bool.eq_false_iff.mpr other)
      rcases literal with rfl | rfl
      · rw [none.1] at length
        cases length
      · rw [none.2] at length
        cases length
    rcases literal with rfl | rfl
    · exact (Place.literal_mem_lexemes code begins).1
    · exact (Place.literal_mem_lexemes code begins).2
  rcases literal with rfl | rfl
  · obtain ⟨code, -, rfl⟩ := isCode_of_token may
    have code := h.isCode ground code
    exact h.lexeme (fun unspaced => by cases unspaced) (fun n length => string code length) rfl h.fits (fun _ => code) rfl read
  · obtain ⟨code, -, rfl⟩ := isCode_of_token may
    have code := h.isCode ground code
    exact h.lexeme (fun unspaced => by cases unspaced) (fun n length => string code length) rfl (h.fits.push g .text) nofun
      rfl read

theorem Holds.stands_text {u : Token} (text : u = .formattedText ∨ u = .formatText) (may : σ.token g u = some τ)
    (read : u.read? s = some (ts, s')) : ∃ q, τ.Holds source base seen s' q := by
  rcases text with rfl | rfl
  · obtain ⟨inside, fresh, rfl⟩ := isIn_of_token may
    have head := h.head_of_isIn ground inside
    have direct := h.direct fresh (by rw [Place.isCode, head]; rfl)
    exact h.lexeme (fun _ => direct) (fun n length => (Place.text_mem_lexemes head).1 length) rfl h.fits nofun rfl read
  · obtain ⟨inside, fresh, rfl⟩ := isIn_of_token may
    have head := h.head_of_isIn ground inside
    have direct := h.direct fresh (by rw [Place.isCode, head]; rfl)
    exact h.lexeme (fun _ => direct) (fun n length => Place.formatText_mem_lexemes head length) rfl h.fits nofun rfl read

/-- A formatted string is closed where none of its text is left. -/
theorem Holds.stands_close (may : σ.token g .closeFormatted = some τ) (read : Token.closeFormatted.read? s = some (ts, s')) :
    ∃ q, τ.Holds source base seen s' q := by
  obtain ⟨inside, fresh, rfl⟩ := isIn_of_token may
  have head := h.head_of_isIn ground inside
  have direct := h.direct fresh (by rw [Place.isCode, head]; rfl)
  exact h.lexeme (fun _ => direct) (fun n length => Place.close_mem_lexemes h.reached head length) rfl (h.fits.pop g)
    (h.isCode_pop ground) (pop_spent g σ).2 read

theorem Holds.stands_inField {u : Token} (inField : u = .conversion ∨ u = .colon) (may : σ.token g u = some τ)
    (read : u.read? s = some (ts, s')) : ∃ q, τ.Holds source base seen s' q := by
  have lexeme (head : p.frames.head? = some .field) {quotes : List Quote} {n : Nat}
      (length : u.length? quotes p.past.rest = some n) : u ∈ p.lexemes := by
    rcases inField with rfl | rfl
    · simp only [Token.length?] at length
      split at length
      · rename_i c ds begins
        exact (Place.conversion_mem_lexemes head begins (by decide) (by decide)).1
      · cases length
    · obtain ⟨begins, -⟩ := Option.ite_none_right_eq_some.mp length
      obtain ⟨ds, begins⟩ := List.head?_eq_some_iff.mp begins
      exact (Place.conversion_mem_lexemes head begins (by decide) (by decide)).2
  rcases inField with rfl | rfl
  · obtain ⟨inside, same⟩ := Option.ite_none_right_eq_some.mp may
    obtain rfl := Option.some.inj same
    have head := h.head_of_isIn ground inside
    exact h.lexeme (fun unspaced => by cases unspaced) (fun n length => lexeme head length) rfl h.fits
      (fun _ => Place.isCode_of_head head rfl) rfl read
  · obtain ⟨inside, same⟩ := Option.ite_none_right_eq_some.mp may
    obtain rfl := Option.some.inj same
    have head := h.head_of_isIn ground inside
    exact h.lexeme (fun unspaced => by cases unspaced) (fun n length => lexeme head length) rfl
      ((h.fits.pop g).push g .format) (fun spent => absurd spent Bool.false_ne_true) (pop_spent g σ).2 read

theorem Holds.stands_word (isWord : (∃ w, t = .keyword w) ∨ ∃ except, t = .name except) (may : σ.token g t = some τ)
    (read : t.read? s = some (ts, s')) :
    (∃ q, τ.Holds source base seen s' q) ∨ τ.behind = true ∧ s'.Astray source := by
  rcases isWord with ⟨w, rfl⟩ | ⟨except, rfl⟩
  · obtain ⟨code, same⟩ := Option.ite_none_right_eq_some.mp may
    obtain rfl := Option.some.inj same
    have word {cs : List Char} {n : Nat} (length : (Token.keyword w).length? p.quotes cs = some n) :
        cs.take n = w ∧ n = wordLength cs ∧ n ≠ 0 := by
      rw [Token.length?, Option.ite_none_right_eq_some] at length
      obtain ⟨taken, some⟩ := length
      have reach : n = wordLength cs := by
        have length := congrArg List.length taken
        rw [List.length_take, Nat.min_eq_left (wordLength_le cs)] at length
        rw [length]
        exact eq_of_nonempty some
      rw [reach]
      exact ⟨taken, rfl, reach ▸ Nat.ne_of_gt (pos_of_nonempty some)⟩
    refine h.word (h.isCode ground code) rfl (fun cs n length => (word length).2) (fun _ => rfl) h.fits ?_ ?_ read
    · intro n length letters
      rw [(word length).1] at letters
      exact List.all_eq_true.mpr letters
    · intro n length known
      rw [(word length).1]
      simp only [Bool.or_eq_true, beq_iff_eq] at known
      rcases known with (known | known) | known
      · exact .inl (h.lambda (by rw [known]; rfl))
      · exact .inr known
      · exact .inl (h.lambda (by rw [known, Bool.or_true]))
  · obtain ⟨code, same⟩ := Option.ite_none_right_eq_some.mp may
    obtain rfl := Option.some.inj same
    refine h.word (h.isCode ground code) rfl ?_ (fun _ => rfl) h.fits (fun _ _ _ => rfl)
      (fun _ _ known => .inl (h.lambda known)) read
    intro cs n length
    simp only [Token.length?, Option.ite_none_left_eq_some] at length
    obtain ⟨word, same⟩ := length
    rw [Bool.or_eq_true, not_or, decide_eq_true_eq] at word
    exact ⟨(Option.some.inj same).symm, Option.some.inj same ▸ word.1⟩

end Stance

/-! ### Readings that have gone astray -/

theorem Token.isSpaced_of_isTame {t : Token} (tame : t.isTame = true) : t.isSpaced = true := by
  cases t <;> first | rfl | cases tame

theorem Token.length?_none_of_isTame {t : Token} (tame : t.isTame = true) {quotes : List Quote} {c : Char}
    (noMark : c ∉ markCharacters) (noStart : isIdentifierStart c = false) (ds : List Char) :
    t.length? quotes (c :: ds) = none := by
  cases t with
  | mark m =>
    obtain ⟨d, ms, rfl, mem⟩ := head_of_mem_marks (List.contains_iff_mem.mp tame)
    exact length_mark_none noMark (by rw [isMarkText]; exact List.contains_iff_mem.mpr mem)
  | keyword w =>
    rw [Token.length?, wordLength_cons noStart, List.take_zero]
    split
    · rename_i empty
      rw [← empty]
      rfl
    · rfl
  | name except => exact length_name_none (.inl (wordAt_cons noStart))
  | conversion =>
    simp only [Token.length?]
    split
    · rename_i begins
      obtain ⟨rfl, -⟩ := List.cons.inj begins
      exact absurd (by decide) noMark
    · rfl
  | colon =>
    rw [Token.length?, if_neg]
    intro begins
    obtain rfl := Option.some.inj begins
    exact absurd (by decide) noMark
  | _ => cases tame

namespace State.Astray

variable {source : List Char} {s s' : State} {t : Token} {ts : List Tree}

/-- Nothing stands before what has gone astray. -/
theorem gap_eq (h : s.Astray source) : s.gap = Gap.Progress.finish {} s.rest s.here := by
  obtain ⟨c, ds, rest, -, -, solid⟩ := h.exists_head
  rw [State.gap, rest]
  exact Gap.scanFrom_solid rfl solid

theorem lead_eq (h : s.Astray source) : s.lead? = some ([], s) := by
  obtain ⟨c, ds, rest, -, -, solid⟩ := h.exists_head
  exact (State.lead_of_token ⟨c, ds, rest, solid⟩).1

theorem refuses (h : s.Astray source) (tame : t.isTame = true) : t.read? s = none := by
  obtain ⟨c, ds, rest, noMark, noStart, -⟩ := h.exists_head
  rw [Token.read?_eq, if_pos (Token.isSpaced_of_isTame tame), h.lead_eq, Option.bind_some, rest,
    Token.length?_none_of_isTame tame noMark noStart]
  rfl

end State.Astray

/-! ### What is asked next -/

theorem Token.suites_read {t : Token} {s s' : State} {ts : List Tree} (read : t.read? s = some (ts, s')) :
    s'.suites = s.suites := by
  rw [Token.read?_eq] at read
  obtain ⟨⟨extras, s₁⟩, lead, read⟩ := Option.bind_eq_some_iff.mp read
  obtain ⟨n, -, read⟩ := Option.map_eq_some_iff.mp read
  obtain ⟨-, rfl⟩ := Prod.mk.inj read
  split at lead
  · obtain ⟨-, rfl⟩ := State.eq_past_of_lead lead
    rfl
  · obtain ⟨-, rfl⟩ := Prod.mk.inj (Option.some.inj lead)
    rfl

theorem State.IsIndented.of_le {source : List Char} {s s' : State} (h : s.IsIndented source) (suites : s'.suites = s.suites)
    (le : s'.rest.length ≤ s.rest.length) : s'.IsIndented source := by
  intro n mem
  obtain ⟨p, reached, outside, before, stop⟩ := h n (suites ▸ mem)
  exact ⟨p, reached, outside, Nat.le_trans le before, stop⟩

namespace Stance

variable {source : List Char} {g : Ground} {base : List Frame → Prop} {seen : Bool} {σ τ : Stance} {s s' : State} {p : Place}
  {t : Token} {l : Layout} {ts : List Tree}

/-- Where a token is asked for, it may be asked for. -/
theorem Holds.isAsked (h : σ.Holds source base seen s p) (ground : g.Holds base) (may : σ.token g t = some τ) :
    (t.isSpaced = false → s.rest = p.rest ∧ s.here = p.here) ∧ t.IsAskedAt p := by
  have code {τ' : Stance} (may : (if σ.isCode g && !σ.behind then some τ' else none) = some τ) : p.isCode = true :=
    h.isCode ground (isCode_of_token may).1
  have content {f : Frame} {τ' : Stance} (content : f.isCode = false)
      (may : (if σ.isIn g [f] && !σ.behind then some τ' else none) = some τ) :
      (s.rest = p.rest ∧ s.here = p.here) ∧ p.frames.head? = some f := by
    obtain ⟨inside, fresh, -⟩ := isIn_of_token may
    have head := h.head_of_isIn ground inside
    exact ⟨h.direct fresh (by rw [Place.isCode, head]; exact content), head⟩
  cases t with
  | mark m =>
    obtain ⟨known, step⟩ := markStep_of_mark may
    exact ⟨(fun unspaced => by cases unspaced), h.isAskedAt_mark ground known step⟩
  | keyword w => exact ⟨(fun unspaced => by cases unspaced), h.isCode ground (Option.ite_none_right_eq_some.mp may).1⟩
  | name except => exact ⟨(fun unspaced => by cases unspaced), h.isCode ground (Option.ite_none_right_eq_some.mp may).1⟩
  | number | plainString | openFormatted => exact ⟨(fun unspaced => by cases unspaced), code may⟩
  | formattedText | closeFormatted | formatText =>
    have content := content rfl may
    exact ⟨fun _ => content.1, content.2⟩
  | conversion | colon =>
    have inside := (Option.ite_none_right_eq_some.mp may).1
    exact ⟨(fun unspaced => by cases unspaced), h.head_of_isIn ground inside⟩

theorem Holds.stands_behind (h : σ.Holds source base seen s p) (ground : g.Holds base) (may : σ.token g t = some τ)
    (read : t.read? s = some (ts, s')) :
    (∃ q, τ.Holds source base seen s' q) ∨ τ.behind = true ∧ s'.Astray source := by
  cases t with
  | mark m =>
    obtain ⟨known, step⟩ := markStep_of_mark may
    exact h.stands_mark ground known step read
  | keyword w => exact h.stands_word ground (.inl ⟨w, rfl⟩) may read
  | name except => exact h.stands_word ground (.inr ⟨except, rfl⟩) may read
  | number =>
    obtain ⟨code, -, rfl⟩ := isCode_of_token may
    have code := h.isCode ground code
    refine .inl (h.lexeme (fun unspaced => by cases unspaced) (fun n length => Place.number_mem_lexemes code ?_) rfl h.fits
      (fun _ => code) rfl read)
    exact eq_of_nonempty length ▸ Nat.ne_of_gt (pos_of_nonempty length)
  | plainString => exact .inl (h.stands_literal ground (.inl rfl) may read)
  | openFormatted => exact .inl (h.stands_literal ground (.inr rfl) may read)
  | formattedText => exact .inl (h.stands_text ground (.inl rfl) may read)
  | formatText => exact .inl (h.stands_text ground (.inr rfl) may read)
  | closeFormatted => exact .inl (h.stands_close ground may read)
  | conversion => exact .inl (h.stands_inField ground (.inl rfl) may read)
  | colon => exact .inl (h.stands_inField ground (.inr rfl) may read)

theorem isTame_of_behind (may : σ.token g t = some τ) (behind : σ.behind = true) : t.isTame = true := by
  cases t with
  | mark m => exact List.contains_iff_mem.mpr (markStep_of_mark may).1
  | keyword | name | conversion | colon => rfl
  | number | plainString | openFormatted =>
    have fresh := (isCode_of_token may).2.1
    rw [behind] at fresh
    cases fresh
  | formattedText | closeFormatted | formatText =>
    have fresh := (isIn_of_token may).2.1
    rw [behind] at fresh
    cases fresh

theorem StandsAt.token (h : σ.StandsAt source base seen s) (ground : g.Holds base) (may : σ.token g t = some τ) :
    (Question.token t).IsAsked source s ∧ ∀ ts s', t.read? s = some (ts, s') → τ.StandsAt source base seen s' := by
  obtain ⟨indented, ⟨p, holds⟩ | ⟨behind, astray⟩⟩ := h
  · obtain ⟨unspaced, asked⟩ := holds.isAsked ground may
    refine ⟨.token indented holds.reached holds.stands unspaced asked, fun ts s' read => ⟨?_, holds.stands_behind ground may read⟩⟩
    exact indented.of_le (Token.suites_read read) (Token.left_read read).1
  · have tame := isTame_of_behind may behind
    refine ⟨.astray astray tame, fun ts s' read => ?_⟩
    rw [astray.refuses tame] at read
    cases read

theorem getLast?_stops_of_ends {cs : List Char} (ends : Gap.Ends cs) (here : Position) {n : Nat}
    (stop : (Gap.scan cs here).stops.getLast? = some n) : n = 0 := by
  cases cs with
  | nil => exact (Option.some.inj stop).symm
  | cons c cs =>
    rw [Gap.scan, Gap.scanFrom_next rfl (List.cons_ne_nil c cs), Gap.next?_of_ends ends] at stop
    cases stop

theorem Holds.past (h : σ.Holds source base seen s p) (code : p.isCode = true ∨ σ.behind = true) :
    σ.Holds source base seen (s.past s.gap) p := by
  refine ⟨h.reached, h.stands.past, fun fresh content => ?_, h.fits, h.spent, h.lambda⟩
  rcases code with code | behind
  · rw [code] at content
    cases content
  · rw [behind] at fresh
    cases fresh

theorem past_isIndented (indented : s.IsIndented source) : (s.past s.gap).IsIndented source :=
  indented.of_le rfl s.left_past_gap

theorem StandsAt.lead (h : σ.StandsAt source base seen s) (ground : g.Holds base) (may : σ.layout g .lead = some τ) :
    (Question.layout .lead).IsAsked source s ∧ ∀ ts s', s.lead? = some (ts, s') → τ.StandsAt source base seen s' := by
  obtain ⟨indented, ⟨p, holds⟩ | ⟨behind, astray⟩⟩ := h
  · have settled : (τ = σ ∧ p.isCode = true) ∨ τ = { σ with behind := true } ∧ p.isSpent = true := by
      unfold Stance.layout at may
      dsimp only at may
      split at may
      · rename_i code
        exact .inl ⟨(Option.some.inj may).symm, holds.isCode ground code⟩
      · obtain ⟨spent, same⟩ := Option.ite_none_right_eq_some.mp may
        exact .inr ⟨(Option.some.inj same).symm, holds.spent spent⟩
    have spent : p.isSpent = true := settled.elim (fun code => Place.isSpent_of_isCode code.2) And.right
    refine ⟨.layout indented holds.reached holds.stands spent, fun ts s' read => ?_⟩
    obtain ⟨-, rfl⟩ := State.eq_past_of_lead read
    refine ⟨past_isIndented indented, .inl ⟨p, ?_⟩⟩
    rcases settled with ⟨rfl, code⟩ | ⟨rfl, -⟩
    · exact holds.past (.inl code)
    · have widened : ({ σ with behind := true } : Stance).Holds source base seen s p :=
        ⟨holds.reached, holds.stands, nofun, holds.fits, holds.spent, holds.lambda⟩
      exact widened.past (.inr rfl)
  · refine ⟨.astrayLayout astray, fun ts s' read => ?_⟩
    rw [astray.lead_eq] at read
    obtain ⟨-, rfl⟩ := Prod.mk.inj (Option.some.inj read)
    refine ⟨indented, .inr ⟨?_, astray⟩⟩
    unfold Stance.layout at may
    dsimp only at may
    split at may
    · rw [← Option.some.inj may, behind]
    · obtain ⟨-, same⟩ := Option.ite_none_right_eq_some.mp may
      rw [← Option.some.inj same]

theorem Holds.line (h : σ.Holds source base seen s p) (indented : s.IsIndented source) (outside : p.frames = [])
    (read : s.line? = some (ts, s')) : σ.StandsAt source base seen s' := by
  obtain ⟨-, same⟩ := Option.ite_none_left_eq_some.mp read
  obtain ⟨-, rfl⟩ := Prod.mk.inj (Option.some.inj same)
  exact ⟨past_isIndented indented, .inl ⟨p, h.past (.inl (Place.isCode_of_nil outside))⟩⟩

theorem Holds.indent (h : σ.Holds source base seen s p) (indented : s.IsIndented source) (outside : p.frames = [])
    (read : s.indent? = some (ts, s')) : σ.StandsAt source base seen s' := by
  rw [State.indent?] at read
  split at read
  · rename_i n stop
    obtain ⟨deeper, same⟩ := Option.ite_none_right_eq_some.mp read
    obtain ⟨-, rfl⟩ := Prod.mk.inj (Option.some.inj same)
    have stop : p.gap.stops.getLast? = some n := by
      rcases h.stands.text with ⟨rest, here⟩ | ⟨rest, -⟩
      · rwa [State.gap, rest, here] at stop
      · rw [State.gap, rest] at stop
        rw [getLast?_stops_of_ends p.ends_past s.here stop] at deeper
        exact absurd deeper (Nat.not_lt_zero _)
    refine ⟨fun m mem => ?_, .inl ⟨p, h.reached, ⟨h.stands.text, h.stands.quotes⟩, h.direct, h.fits, h.spent, h.lambda⟩⟩
    rcases List.mem_cons.mp mem with rfl | mem
    · exact ⟨p, h.reached, outside, h.stands.length_le, stop⟩
    · exact indented m mem
  · cases read

theorem Holds.dedent (h : σ.Holds source base seen s p) (indented : s.IsIndented source)
    (read : s.dedent? = some (ts, s')) : σ.StandsAt source base seen s' := by
  obtain ⟨-, same⟩ := Option.ite_none_right_eq_some.mp read
  obtain ⟨-, rfl⟩ := Prod.mk.inj (Option.some.inj same)
  refine ⟨fun m mem => indented m (List.mem_of_mem_tail mem), ?_⟩
  exact .inl ⟨p, h.reached, ⟨h.stands.text, h.stands.quotes⟩, h.direct, h.fits, h.spent, h.lambda⟩

theorem StandsAt.layout (h : σ.StandsAt source base seen s) (ground : g.Holds base) (may : σ.layout g l = some τ) :
    (Question.layout l).IsAsked source s ∧ ∀ ts s', l.read? s = some (ts, s') → τ.StandsAt source base seen s' := by
  cases l with
  | lead => exact h.lead ground may
  | glue | finish =>
    obtain ⟨code, same⟩ := Option.ite_none_right_eq_some.mp may
    obtain rfl := Option.some.inj same
    obtain ⟨indented, ⟨p, holds⟩ | ⟨behind, astray⟩⟩ := h
    · have code := holds.isCode ground code
      refine ⟨.layout indented holds.reached holds.stands code, fun ts s' read => ?_⟩
      have same : s' = s.past s.gap := by
        simp only [Layout.read?, State.glue?, State.finish?] at read
        split at read <;> cases read <;> rfl
      rw [same]
      exact ⟨past_isIndented indented, .inl ⟨p, holds.past (.inl code)⟩⟩
    · refine ⟨.astrayLayout astray, fun ts s' read => ?_⟩
      have same : s' = s := by
        simp only [Layout.read?, State.glue?, State.finish?, astray.gap_eq] at read
        split at read <;> cases read <;> rfl
      rw [same]
      exact ⟨indented, .inr ⟨behind, astray⟩⟩
  | newline =>
    obtain ⟨code, same⟩ := Option.ite_none_right_eq_some.mp may
    obtain rfl := Option.some.inj same
    obtain ⟨indented, ⟨p, holds⟩ | ⟨behind, astray⟩⟩ := h
    · have code := holds.isCode ground code
      refine ⟨.layout indented holds.reached holds.stands code, fun ts s' read => ?_⟩
      have same : s' = s := by
        simp only [Layout.read?, State.newline?] at read
        split at read <;> cases read <;> rfl
      rw [same]
      refine ⟨indented, .inl ⟨p, holds.reached, holds.stands, fun _ content => ?_, holds.fits, holds.spent, holds.lambda⟩⟩
      rw [code] at content
      cases content
    · refine ⟨.astrayLayout astray, fun ts s' read => ?_⟩
      simp only [Layout.read?, State.newline?, astray.gap_eq] at read
      cases read
  | line | indent | dedent =>
    obtain ⟨allowed, same⟩ := Option.ite_none_right_eq_some.mp may
    obtain rfl := Option.some.inj same
    rw [Bool.and_eq_true, Bool.not_eq_true'] at allowed
    obtain ⟨outside, fresh⟩ := allowed
    obtain ⟨indented, ⟨p, holds⟩ | ⟨behind, -⟩⟩ := h
    · have outside := holds.fits.eq_nil ground outside
      refine ⟨.layout indented holds.reached holds.stands outside, fun ts s' read => ?_⟩
      first
      | exact holds.line indented outside read
      | exact holds.indent indented outside read
      | exact holds.dedent indented read
    · rw [fresh] at behind
      cases behind

end Stance

end Footprint.Syntax
