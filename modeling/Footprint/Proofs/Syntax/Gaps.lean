import Footprint.Syntax.State

/-!
# Gaps between tokens

What is passed before a token: blanks, which may stand before any, and within brackets also line breaks
and comments. Passing a gap leaves nothing of it but its comments, which have no parts.
-/

namespace Footprint.Syntax

def Tree.IsRemark (t : Tree) : Prop := ∃ p, t = .node .comment none p [] []

def IsBlank (w : List Char) : Prop := ∀ c ∈ w, c = ' '

/-- Blanks, line breaks with or without a return, and comments, each with the break that ends it. -/
inductive IsFiller : List Char → Prop
  | nil : IsFiller []
  | blank {w : List Char} : IsFiller w → IsFiller (' ' :: w)
  | line {w : List Char} : IsFiller w → IsFiller ('\n' :: w)
  | carriage {w : List Char} : IsFiller w → IsFiller ('\r' :: '\n' :: w)
  | comment {text w : List Char} : '\n' ∉ text → '\x00' ∉ text → IsFiller w → IsFiller ('#' :: (text ++ '\n' :: w))

theorem IsBlank.nil : IsBlank [] := by simp [IsBlank]

theorem IsBlank.isFiller {w : List Char} (h : IsBlank w) : IsFiller w := by
  induction w with
  | nil => exact .nil
  | cons c w ih =>
    obtain rfl : c = ' ' := h c List.mem_cons_self
    exact .blank (ih fun d hd => h d (List.mem_cons_of_mem _ hd))

def IsLineEnd (b : List Char) : Prop := b = ['\n'] ∨ b = ['\r', '\n']

def isSolid (c : Char) : Bool :=
  !(c == '\n' || c == ' ' || c == '\t' || c == '\r' || c == '\x0c' || isFormatBlank c || c == '#' || c == '\\')

/-- A text that begins with a token, or with nothing that could be passed before one. -/
def BeginsToken (cs : List Char) : Prop := ∃ c ds, cs = c :: ds ∧ isSolid c = true

namespace Gap

variable {g : Progress} {here : Position} {c : Char} {cs w : List Char}

theorem scanFrom_outside (out : g.comment = none) :
    scanFrom g here (c :: cs) =
      if c = '\n' then scanFrom g.breakLine (here.after c) cs
      else if c = ' ' then scanFrom (g.indentBy 1) (here.after c) cs
      else if c = '\t' then scanFrom (g.indentBy 8) (here.after c) cs
      else if c = '\r' ∨ c = '\x0c' then scanFrom g.unindent (here.after c) cs
      else if isFormatBlank c then scanFrom { g with frozen := true } (here.after c) cs
      else if c = '#' then scanFrom (g.beginComment here) (here.after c) cs
      else if c = '\\' then
        match cs with
        | [] => (g.join here).finishText (here.after c)
        | '\n' :: ds => scanFrom (g.join here) ((here.after c).after '\n') ds
        | '\r' :: '\n' :: ds => scanFrom (g.join here) (((here.after c).after '\r').after '\n') ds
        | '\x00' :: ds => scanFrom (g.join here) ((here.after c).after '\x00') ds
        | _ => g.finish (c :: cs) here
      else g.finish (c :: cs) here := by
  have unfolded := scanFrom.eq_def g here (c :: cs)
  simp only [out] at unfolded ⊢
  exact unfolded

theorem scanFrom_inside {p : Position} (inside : g.comment = some p) :
    scanFrom g here (c :: cs) =
      if c = '\n' then scanFrom (g.endComment p).breakLine (here.after c) cs
      else if c = '\x00' then (g.endComment p).finish (c :: cs) here
      else scanFrom g (here.after c) cs := by
  conv => lhs; rw [scanFrom.eq_def]
  simp only [inside]

/-- What a scan outside comments makes of the characters it passes. -/
inductive Pass where
  | breakLine | indent (n : Nat) | unindent | freeze | comment | join

def Pass.apply (here : Position) (g : Progress) : Pass → Progress
  | .breakLine => g.breakLine
  | .indent n => g.indentBy n
  | .unindent => g.unindent
  | .freeze => { g with frozen := true }
  | .comment => g.beginComment here
  | .join => g.join here

def passOf? (c : Char) : Option Pass :=
  if c = '\n' then some .breakLine
  else if c = ' ' then some (.indent 1)
  else if c = '\t' then some (.indent 8)
  else if c = '\r' ∨ c = '\x0c' then some .unindent
  else if isFormatBlank c then some .freeze
  else if c = '#' then some .comment
  else none

def joinLength? : List Char → Option Nat
  | [] => some 0
  | '\n' :: _ => some 1
  | '\r' :: '\n' :: _ => some 2
  | '\x00' :: _ => some 1
  | _ => none

/-- What a scan outside comments passes next, and how many characters that takes. -/
def next? : List Char → Option (Pass × Nat)
  | [] => none
  | c :: cs =>
    match passOf? c with
    | some pass => some (pass, 1)
    | none => if c = '\\' then (joinLength? cs).map fun n => (.join, n + 1) else none

theorem length_of_next {pass : Pass} {n : Nat} (h : next? cs = some (pass, n)) : 0 < n ∧ n ≤ cs.length := by
  unfold next? at h
  split at h
  · cases h
  split at h
  · obtain ⟨-, rfl⟩ := Prod.mk.inj (Option.some.inj h)
    simp
  obtain ⟨-, joined⟩ := Option.ite_none_right_eq_some.mp h
  obtain ⟨m, length, same⟩ := Option.map_eq_some_iff.mp joined
  obtain ⟨-, rfl⟩ := Prod.mk.inj same
  unfold joinLength? at length
  split at length
  all_goals
    first
    | cases length; done
    | obtain rfl := Option.some.inj length; simp

theorem scanFrom_of_passOf {pass : Pass} (out : g.comment = none) (h : passOf? c = some pass) :
    scanFrom g here (c :: cs) = scanFrom (pass.apply here g) (here.after c) cs := by
  rw [scanFrom_outside out]
  clear out
  unfold passOf? at h
  repeat' split at h
  all_goals
    first
    | cases h; done
    | obtain rfl := Option.some.inj h; simp only [*, if_true, if_false]; rfl

theorem scanFrom_of_passOf_none (out : g.comment = none) (h : passOf? c = none) :
    scanFrom g here (c :: cs) =
      match if c = '\\' then joinLength? cs else none with
      | some n => scanFrom (g.join here) (here.afterAll (c :: cs.take n)) (cs.drop n)
      | none => g.finish (c :: cs) here := by
  rw [scanFrom_outside out]
  unfold passOf? at h
  repeat' split at h
  all_goals
    first
    | cases h; done
    | skip
  rename_i newline blank tab ret format hash
  rw [if_neg newline, if_neg blank, if_neg tab, if_neg ret, if_neg format, if_neg hash]
  by_cases backslash : c = '\\'
  · rw [if_pos backslash, if_pos backslash]
    unfold joinLength?
    split
    all_goals rfl
  · rw [if_neg backslash, if_neg backslash]

theorem scanFrom_next (out : g.comment = none) (more : cs ≠ []) :
    scanFrom g here cs = match next? cs with
      | some (pass, n) => scanFrom (pass.apply here g) (here.afterAll (cs.take n)) (cs.drop n)
      | none => g.finish cs here := by
  cases cs with
  | nil => exact absurd rfl more
  | cons c cs =>
    rw [next?]
    cases h : passOf? c with
    | some pass => exact scanFrom_of_passOf out h
    | none =>
      rw [scanFrom_of_passOf_none out h]
      by_cases backslash : c = '\\'
      · dsimp only
        rw [if_pos backslash, if_pos backslash]
        cases joinLength? cs <;> rfl
      · dsimp only
        rw [if_neg backslash, if_neg backslash]

theorem scanFrom_solid (out : g.comment = none) (solid : isSolid c = true) :
    scanFrom g here (c :: cs) = g.finish (c :: cs) here := by
  simp only [isSolid, Bool.not_eq_true', Bool.or_eq_false_iff, beq_eq_false_iff_ne] at solid
  obtain ⟨⟨⟨⟨⟨⟨⟨newline, blank⟩, tab⟩, ret⟩, feed⟩, format⟩, hash⟩, backslash⟩ := solid
  rw [scanFrom_outside out, if_neg newline, if_neg blank, if_neg tab, if_neg (not_or.mpr ⟨ret, feed⟩),
    format, if_neg Bool.false_ne_true, if_neg hash, if_neg backslash]

theorem scanFrom_blank (out : g.comment = none) :
    scanFrom g here (' ' :: cs) = scanFrom (g.indentBy 1) (here.after ' ') cs := scanFrom_outside out

theorem scanFrom_break (out : g.comment = none) :
    scanFrom g here ('\n' :: cs) = scanFrom g.breakLine (here.after '\n') cs := scanFrom_outside out

theorem scanFrom_return (out : g.comment = none) :
    scanFrom g here ('\r' :: cs) = scanFrom g.unindent (here.after '\r') cs := scanFrom_outside out

theorem scanFrom_hash (out : g.comment = none) :
    scanFrom g here ('#' :: cs) = scanFrom (g.beginComment here) (here.after '#') cs := scanFrom_outside out

theorem scanFrom_commentText {p : Position} (inside : g.comment = some p) {text : List Char}
    (free : '\n' ∉ text) (noNull : '\x00' ∉ text) :
    scanFrom g here (text ++ '\n' :: cs) =
      scanFrom (g.endComment p).breakLine (here.afterAll (text ++ ['\n'])) cs := by
  induction text generalizing here with
  | nil => exact scanFrom_inside inside
  | cons c text ih =>
    rw [List.mem_cons, not_or] at free noNull
    rw [List.cons_append, scanFrom_inside inside, if_neg (Ne.symm free.1), if_neg (Ne.symm noNull.1)]
    exact ih free.2 noNull.2

structure Progress.IsPlain (g : Progress) : Prop where
  outside : g.comment = none
  joins : g.joins = []
  thawed : g.frozen = false
  extras : ∀ t ∈ g.extras, t.IsRemark

def Progress.HasBroken (g : Progress) : Prop := g.broken = true ∨ g.stops ≠ []

theorem isPlain_empty : ({} : Progress).IsPlain := ⟨rfl, rfl, rfl, by simp⟩

theorem Progress.IsPlain.indentBy (h : g.IsPlain) (n : Nat) : (g.indentBy n).IsPlain := by
  rw [Progress.indentBy, h.thawed]
  exact ⟨h.outside, h.joins, rfl, h.extras⟩

theorem Progress.IsPlain.unindent (h : g.IsPlain) : g.unindent.IsPlain := by
  rw [Progress.unindent, h.thawed]
  exact ⟨h.outside, h.joins, rfl, h.extras⟩

theorem Progress.IsPlain.breakLine (h : g.IsPlain) : g.breakLine.IsPlain ∧ g.breakLine.HasBroken := by
  rw [Progress.breakLine, h.thawed]
  exact ⟨⟨h.outside, h.joins, rfl, h.extras⟩, .inl rfl⟩

theorem Progress.IsPlain.comment (h : g.IsPlain) (p : Position) :
    ((g.beginComment p).endComment p).breakLine.IsPlain := by
  have plain : ((g.beginComment p).endComment p).IsPlain := by
    refine ⟨rfl, rfl, rfl, ?_⟩
    intro t ht
    rw [Progress.endComment, Progress.beginComment, h.joins, List.append_nil] at ht
    rcases List.mem_append.mp ht with old | new
    · exact h.extras t old
    · exact ⟨p, List.mem_singleton.mp new⟩
  exact plain.breakLine.1

theorem Progress.IsPlain.hasBroken_indentBy (h : g.IsPlain) (broken : g.HasBroken) (n : Nat) :
    (g.indentBy n).HasBroken := by
  rw [Progress.indentBy, h.thawed]
  exact broken

/-- A filler is passed with nothing left of it but comments, and with a break if it has one. -/
theorem scanFrom_filler (filler : IsFiller w) (h : g.IsPlain) (here : Position) :
    ∃ g' : Progress, g'.IsPlain ∧ (g.HasBroken ∨ '\n' ∈ w → g'.HasBroken) ∧
      ∀ rest, scanFrom g here (w ++ rest) = scanFrom g' (here.afterAll w) rest := by
  induction filler generalizing g here with
  | nil => exact ⟨g, h, fun broken => broken.resolve_right (by simp), fun _ => rfl⟩
  | @blank w _ ih =>
    obtain ⟨g', plain, broken, scan⟩ := ih (h.indentBy 1) (here.after ' ')
    refine ⟨g', plain, fun before => broken ?_, fun rest => ?_⟩
    · exact before.imp (fun b => h.hasBroken_indentBy b 1) fun mem => by simpa using mem
    · rw [List.cons_append, scanFrom_blank h.outside, scan]
      rfl
  | @line w _ ih =>
    obtain ⟨g', plain, broken, scan⟩ := ih h.breakLine.1 (here.after '\n')
    refine ⟨g', plain, fun _ => broken (.inl h.breakLine.2), fun rest => ?_⟩
    rw [List.cons_append, scanFrom_break h.outside, scan]
    rfl
  | @carriage w _ ih =>
    have unindented := h.unindent
    obtain ⟨g', plain, broken, scan⟩ := ih unindented.breakLine.1 ((here.after '\r').after '\n')
    refine ⟨g', plain, fun _ => broken (.inl unindented.breakLine.2), fun rest => ?_⟩
    rw [List.cons_append, List.cons_append, scanFrom_return h.outside, scanFrom_break unindented.outside, scan]
    rfl
  | @comment text w free noNull _ ih =>
    obtain ⟨g', plain, broken, scan⟩ := ih (h.comment here) ((here.after '#').afterAll (text ++ ['\n']))
    have within : ((g.beginComment here).endComment here).breakLine.HasBroken := .inl rfl
    refine ⟨g', plain, fun _ => broken (.inl within), fun rest => ?_⟩
    have inside : (g.beginComment here).comment = some here := rfl
    rw [List.cons_append, List.append_assoc, List.cons_append, scanFrom_hash h.outside,
      scanFrom_commentText inside free noNull, scan, Position.afterAll_cons,
      ← Position.afterAll_append, List.append_assoc]
    rfl

/-- What a filler before a token is scanned to. -/
theorem scan_filler (filler : IsFiller w) (token : BeginsToken cs) (here : Position) :
    ∃ extras stops, (∀ t ∈ extras, t.IsRemark) ∧ ('\n' ∈ w → stops ≠ []) ∧
      scan (w ++ cs) here = { extras, stops, rest := cs, here := here.afterAll w } := by
  obtain ⟨c, ds, rfl, solid⟩ := token
  obtain ⟨g, plain, broken, scan⟩ := scanFrom_filler filler isPlain_empty here
  refine ⟨g.extras, g.closed, plain.extras, fun mem => ?_, ?_⟩
  · rw [Progress.closed]
    rcases broken (.inr mem) with broken | stops
    · simp [broken]
    · split <;> simp [stops]
  · rw [Gap.scan, scan, scanFrom_solid plain.outside solid, Progress.finish, plain.joins]
    simp

theorem scanFrom_blanks (blank : IsBlank w) (h : g.IsPlain) (here : Position) (rest : List Char) :
    ∃ n, scanFrom g here (w ++ rest) = scanFrom { g with indent := n } (here.afterAll w) rest := by
  induction w generalizing g here with
  | nil => exact ⟨g.indent, rfl⟩
  | cons c w ih =>
    obtain rfl : c = ' ' := blank c List.mem_cons_self
    obtain ⟨n, scan⟩ := ih (fun d hd => blank d (List.mem_cons_of_mem _ hd)) (h.indentBy 1) (here.after ' ')
    refine ⟨n, ?_⟩
    rw [List.cons_append, scanFrom_blank h.outside, scan, Progress.indentBy, h.thawed]
    rfl

theorem scan_blanks (blank : IsBlank w) (token : BeginsToken cs) (here : Position) :
    scan (w ++ cs) here = { extras := [], stops := [], rest := cs, here := here.afterAll w } := by
  obtain ⟨c, ds, rfl, solid⟩ := token
  obtain ⟨n, scan⟩ := scanFrom_blanks blank isPlain_empty here (c :: ds)
  rw [Gap.scan, scan, scanFrom_solid rfl solid]
  simp [Progress.finish, Progress.closed]

end Gap

namespace State

variable {s : State} {w read cs : List Char}

/-- The state behind this text, of which that is left. -/
def behind (s : State) (read left : List Char) : State :=
  { s with rest := left, here := s.here.afterAll read }

@[simp] theorem rest_behind : (s.behind read cs).rest = cs := rfl

@[simp] theorem here_behind : (s.behind read cs).here = s.here.afterAll read := rfl

@[simp] theorem suites_behind : (s.behind read cs).suites = s.suites := rfl

@[simp] theorem quotes_behind : (s.behind read cs).quotes = s.quotes := rfl

@[simp] theorem region_behind : (s.behind read cs).region = s.region := rfl

@[simp] theorem behind_behind (read' : List Char) (left : List Char) :
    (s.behind read left).behind read' cs = s.behind (read ++ read') cs := by
  simp [behind, Position.afterAll_append]

theorem behind_nil (h : s.rest = cs) : s.behind [] cs = s := by
  subst h
  rfl

/-- A gap that may stand before any token here: blanks, or anything within the brackets of a statement
that is in no suite. -/
def Allows (s : State) (w : List Char) : Prop :=
  IsBlank w ∨ IsFiller w ∧ s.region = .free ∧ s.suites = []

theorem allows_nil : s.Allows [] := .inl .nil

theorem Allows.isFiller (h : s.Allows w) : IsFiller w := by
  rcases h with blank | ⟨filler, -⟩
  · exact blank.isFiller
  · exact filler

@[simp] theorem allows_behind : (s.behind read cs).Allows w ↔ s.Allows w := Iff.rfl

theorem not_breaksOut_of_suites_nil (top : s.suites = []) : s.gap.breaksOut s.suite = false := by
  rw [Gap.breaksOut, suite, top]
  simp

/-- The next token may stand behind such a gap, also where one is asked for. -/
theorem lead_of_allows (gap : s.Allows w) (token : BeginsToken cs) (text : s.rest = w ++ cs) :
    ∃ extras, (∀ t ∈ extras, Tree.IsRemark t) ∧ s.lead? = some (extras, s.behind w cs) ∧
      s.glue? = some (extras, s.behind w cs) := by
  rcases gap with blank | ⟨filler, free, top⟩
  · have scan : s.gap = _ := text ▸ Gap.scan_blanks blank token s.here
    refine ⟨[], by simp, ?_, ?_⟩
    · simp only [lead?, scan, past, behind]
      cases s.region <;> simp [Gap.breaksOut, Gap.isBroken]
    · simp [glue?, scan, Gap.breaksOut, past, behind]
  · obtain ⟨extras, stops, remarks, -, scan⟩ := Gap.scan_filler filler token s.here
    have scan : s.gap = _ := text ▸ scan
    refine ⟨extras, remarks, ?_, ?_⟩
    · simp only [lead?, free]
      simp [scan, past, behind]
    · rw [glue?, not_breaksOut_of_suites_nil top]
      simp [scan, past, behind]

theorem lead_of_token (token : BeginsToken s.rest) : s.lead? = some ([], s) ∧ s.glue? = some ([], s) := by
  have scan : s.gap = { extras := [], stops := [], rest := s.rest, here := s.here } :=
    Gap.scan_blanks (w := []) .nil token s.here
  obtain ⟨rest, here, suites, quotes, region⟩ := s
  constructor
  · simp only [lead?, scan, past]
    cases region <;> simp [Gap.breaksOut, Gap.isBroken]
  · simp [glue?, scan, Gap.breaksOut, past]

end State

end Footprint.Syntax
