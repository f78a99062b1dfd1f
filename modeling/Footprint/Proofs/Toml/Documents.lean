import Footprint.Proofs.Toml.Values

/-!
# What readers of TOML yield: documents

A document is read to a tree that shows what its paths lead to. After each line the tree that is read so far shows what
paths lead to so far, and the table in the header read last stands.
-/

namespace Footprint.Toml

open Text

variable {text ts t r left : List Char} {path : List String} {d d' d'' : Draft} {m m' : Places} {l : Line}
  {ls : List Line} {f : Nat}

/-! ### The end of a line -/

/-- The end of a line, and what follows: nothing, or other lines. -/
inductive EndsLine : List Char → List Char → Prop
  | last {r : List Char} : IsRest r → EndsLine r []
  | more {r n text : List Char} : IsRest r → IsBreak n → EndsLine (r ++ (n ++ text)) text

theorem head_break {n : List Char} (h : IsBreak n) (text : List Char) :
    ∀ c ∈ (n ++ text).head?, c = '\n' ∨ c = '\r' := by
  intro c same
  cases h with
  | feed =>
    cases same
    exact .inl rfl
  | both =>
    cases same
    exact .inr rfl

theorem dropComment_rest (h : IsRest r) (stops : ∀ c ∈ text.head?, c = '\n' ∨ c = '\r') :
    dropComment ((r ++ text).dropWhile isBlank) = text := by
  cases h with
  | blanks blanks =>
    have solid : Solid text := fun c mem => by rcases stops c mem with rfl | rfl <;> rfl
    rw [dropWhile_append blanks solid]
    cases text with
    | nil => rfl
    | cons c text => rcases stops c rfl with rfl | rfl <;> rfl
  | comment blanks comment =>
    obtain ⟨verbatim⟩ := comment
    rw [List.append_assoc, List.cons_append, dropWhile_append blanks (solid_cons rfl), dropComment]
    exact dropWhile_append verbatim fun c mem => by rcases stops c mem with rfl | rfl <;> rfl

theorem reads_lineEnd (h : EndsLine text left) : Reads lineEnd text () left := by
  cases h with
  | last rest =>
    have dropped : dropComment ((text ++ []).dropWhile isBlank) = [] :=
      dropComment_rest rest fun c mem => by cases mem
    rw [List.append_nil] at dropped
    rw [Reads, lineEnd, dropped]
  | @more _ n _ rest line =>
    rw [Reads, lineEnd, dropComment_rest rest (head_break line left)]
    cases line <;> rfl

theorem EndsLine.endsValue (h : EndsLine text left) : EndsValue text := by
  have rest {r stop : List Char} (rest : IsRest r) (ends : EndsValue stop) : EndsValue (r ++ stop) := by
    cases rest with
    | blanks blanks => exact ends.layout blanks.isLayout
    | comment blanks comment =>
      obtain ⟨-⟩ := comment
      have hash (cs : List Char) : EndsValue ('#' :: cs) := endsValue_cons (by decide) rfl
      rw [List.append_assoc]
      exact (hash _).layout blanks.isLayout
  cases h with
  | @last r last =>
    have nothing : EndsToken [] := fun c mem => by cases mem
    rw [← List.append_nil text]
    exact rest last ⟨nothing, nothing⟩
  | more more line => exact rest more (endsValue_break line left)

/-! ### Lines -/

theorem endsKey_bracket (text : List Char) : EndsKey (']' :: text) := fun c same => by
  cases same
  decide

theorem reads_header {fs : Fields} {o : Origin} (h : SpellsKey (depthLimit - 1) path ts) (ends : EndsLine text left)
    (opened : Fields.within false (Fields.open? (path.getLastD "")) path.dropLast .header d.fields = some (o, fs)) :
    Reads (header d) (ts ++ ']' :: text) ⟨fs, path⟩ left := by
  have single : ¬(ts ++ ']' :: text).head? = some '[' := by
    obtain ⟨w, c, cs, rfl, blanks, -, start⟩ := h.trim
    have other : ∀ x ∈ (w ++ (c :: cs ++ ']' :: text)).head?, x ≠ '[' := by
      refine head_blanks blanks (fun x blank => ?_) fun x same => ?_
      · rcases isBlank_cases blank with rfl | rfl <;> decide
      · cases same
        exact ne_of_startsKey start (by decide)
    rw [List.append_assoc]
    exact fun same => other _ same rfl
  have read := reads_key h (endsKey_bracket text)
  refine reads_peek.bind ?_
  simp only [if_neg single]
  refine Reads.bind read ((reads_pass ']').bind ((reads_lineEnd ends).bind ?_))
  rw [opened]
  rfl

theorem reads_headerNext {fs : Fields} {o : Origin} (h : SpellsKey (depthLimit - 1) path ts)
    (ends : EndsLine text left)
    (opened : Fields.within false (Fields.openNext? (path.getLastD "")) path.dropLast .header d.fields = some (o, fs)) :
    Reads (header d) ('[' :: (ts ++ ']' :: ']' :: text)) ⟨fs, path⟩ left := by
  have read := reads_key h (endsKey_bracket (']' :: text))
  refine reads_peek.bind ?_
  have double : ('[' :: (ts ++ ']' :: ']' :: text)).head? = some '[' := rfl
  simp only [if_pos double]
  refine (reads_pass '[').bind (Reads.bind read ((reads_pass ']').bind ((reads_pass ']').bind ?_)))
  refine (reads_lineEnd ends).bind ?_
  rw [opened]
  rfl

theorem reads_fieldLine {key : List String} {v : Value}
    (h : SpellsEntry (depthLimit - 1) (SpellsValue (depthLimit - 1) (depthLimit - 1)) (key, v) ts)
    (ends : EndsLine text left) (shows : Shows d.fields m) (stands : Stands m d.header)
    (may : m.MayTell d.header key) :
    ∃ fs, Reads (fieldLine d) (ts ++ text) ⟨fs, d.header⟩ left ∧
      Shows fs (m.set d.header key .dotted (.value v)) := by
  obtain ⟨n, read, denotes⟩ := (covers_value (depthLimit - 1)).reads_field h ends.endsValue
  obtain ⟨fs, told, shows⟩ := shows.tell stands may denotes
  refine ⟨fs, Reads.bind read ((reads_lineEnd ends).bind ?_), shows⟩
  rw [told]
  rfl

theorem reads_line_bracket (read : Reads (header d) text d' left) : Reads (line d) ('[' :: text) d' left :=
  reads_peek.bind ((reads_pass '[').bind read)

theorem reads_line_field {c : Char} {cs : List Char} (start : StartsKey c)
    (read : Reads (fieldLine d) (c :: cs) d' left) : Reads (line d) (c :: cs) d' left := by
  refine reads_peek.bind ?_
  rw [List.head?_cons]
  split
  · rename_i same
    exact absurd (Option.some.inj same) (ne_of_startsKey start (by decide))
  · rename_i x _ same
    obtain rfl := Option.some.inj same
    have other : ¬(c = '#' ∨ c = '\n' ∨ c = '\r') := by
      rintro (hash | feed | ret)
      · exact ne_of_startsKey start (by decide) hash
      · exact ne_of_startsKey start (by decide) feed
      · exact ne_of_startsKey start (by decide) ret
    rw [if_neg other]
    exact read
  · rename_i same
    cases same

/-- Behind blanks there is a line that leads from one draft to another. -/
structure Leads (d d' : Draft) (text left : List Char) : Prop where
  exists_line : ∃ w c cs, text = w ++ c :: cs ∧ IsBlanks w ∧ isBlank c = false ∧ Reads (line d) (c :: cs) d' left

theorem Leads.reads (first : Leads d d' text left) (others : Reads (linesFrom f d') left d'' []) :
    Reads (linesFrom (f + 1) d) text d'' [] := by
  obtain ⟨w, c, cs, rfl, blanks, solid, line⟩ := first
  refine (reads_skipBlanks blanks (solid_cons solid)).bind (reads_peek.bind ?_)
  exact line.bind others

theorem Leads.ne_nil (h : Leads d d' text left) : text ≠ [] := by
  obtain ⟨w, c, cs, rfl, -⟩ := h
  simp

theorem reads_end (blanks : IsBlanks text) : Reads (linesFrom (f + 1) d) text d [] := by
  have skipped : Reads skipBlanks (text ++ []) () [] := reads_skipBlanks blanks fun c mem => by cases mem
  rw [List.append_nil] at skipped
  exact skipped.bind (reads_peek.bind reads_pure)

theorem leads_lineEnd {w cs : List Char} {c : Char} (blanks : IsBlanks w) (first : c = '#' ∨ c = '\n' ∨ c = '\r')
    (ends : EndsLine (c :: cs) left) (d : Draft) : Leads d d (w ++ c :: cs) left := by
  have solid : isBlank c = false := by rcases first with rfl | rfl | rfl <;> rfl
  refine ⟨w, c, cs, rfl, blanks, solid, reads_peek.bind ?_⟩
  rw [List.head?_cons]
  split
  · rename_i same
    cases same
    simp at first
  · rename_i x _ same
    cases same
    rw [if_pos first]
    exact (reads_lineEnd ends).bind reads_pure
  · rename_i same
    cases same

/-- A line that says nothing leaves the draft as it is, or else it is the last one and has only blanks. -/
theorem leads_blank (h : EndsLine text left) (d : Draft) : IsBlanks text ∧ left = [] ∨ Leads d d text left := by
  cases h with
  | last rest =>
    cases rest with
    | blanks blanks => exact .inl ⟨blanks, rfl⟩
    | comment blanks comment =>
      have ends := EndsLine.last (.comment isBlanks_nil comment)
      obtain ⟨verbatim⟩ := comment
      exact .inr (leads_lineEnd blanks (.inl rfl) ends d)
  | more rest line =>
    right
    cases rest with
    | blanks blanks =>
      have ends : EndsLine _ left := .more (.blanks isBlanks_nil) line
      cases line with
      | feed => exact leads_lineEnd blanks (.inr (.inl rfl)) ends d
      | both => exact leads_lineEnd blanks (.inr (.inr rfl)) ends d
    | comment blanks comment =>
      have ends : EndsLine _ left := .more (.comment isBlanks_nil comment) line
      obtain ⟨verbatim⟩ := comment
      rw [List.append_assoc]
      exact leads_lineEnd blanks (.inl rfl) ends d

/-- A draft agrees with what paths lead to so far. -/
structure Draft.Agrees (d : Draft) (m : Places) : Prop where
  shows : Shows d.fields m
  stands : Stands m d.header

/-- Each line leads to a draft that agrees with what paths lead to behind it, unless only blanks are left. -/
theorem exists_leads (h : SpellsLine (depthLimit - 1) l t) (ends : EndsLine text left) (agrees : d.Agrees m)
    (meaning : Says m d.header (l :: ls) m') :
    (IsBlanks (t ++ text) ∧ left = [] ∧ Says m d.header ls m') ∨
      ∃ d₁ m₁, Leads d d₁ (t ++ text) left ∧ d₁.Agrees m₁ ∧ Says m₁ d₁.header ls m' := by
  obtain ⟨shows, stands⟩ := agrees
  cases h with
  | blank =>
    cases meaning with
    | blank meaning =>
      rcases leads_blank ends d with ⟨blanks, last⟩ | leads
      · exact .inl ⟨blanks, last, meaning⟩
      · exact .inr ⟨d, m, leads, ⟨shows, stands⟩, meaning⟩
  | @field key v _ entry =>
    cases meaning with
    | field may meaning =>
      right
      obtain ⟨w, c, cs, rfl, blanks, entry, start⟩ := entry.trim
      obtain ⟨fs, read, told⟩ := reads_fieldLine entry ends shows stands may
      refine ⟨⟨fs, d.header⟩, _, ⟨w, c, cs ++ text, List.append_assoc _ _ _, blanks, isBlank_of_startsKey start, ?_⟩,
        ⟨told, stands.tell may.1 _ _⟩, meaning⟩
      exact reads_line_field start read
  | @header path u _ blanks key =>
    cases meaning with
    | header may meaning =>
      right
      obtain ⟨fs, opened, told⟩ := shows.opens may
      have read := reads_line_bracket (reads_header key ends opened)
      refine ⟨⟨fs, path⟩, _, ⟨u, '[', _, ?_, blanks, rfl, read⟩, ⟨told, .header may.2.1 (.inl rfl)⟩, meaning⟩
      simp
  | @next path u _ blanks key =>
    cases meaning with
    | next may meaning =>
      right
      obtain ⟨fs, opened, told⟩ := shows.opensNext may
      have read := reads_line_bracket (reads_headerNext key ends opened)
      have passes := Stands.passes_clear may.2.1
      refine ⟨⟨fs, path⟩, _, ⟨u, '[', _, ?_, blanks, rfl, read⟩, ⟨told, .header passes (.inr rfl)⟩, meaning⟩
      simp

/-- Lines are read to a tree that shows what paths lead to behind them. The fuel bounds the characters that spell
them. -/
theorem reads_lines (h : SpellsLines (depthLimit - 1) ls ts) (agrees : d.Agrees m) (meaning : Says m d.header ls m')
    (enough : ts.length < f) : ∃ d', Reads (linesFrom f d) ts d' [] ∧ Shows d'.fields m' := by
  induction h generalizing f d m with
  | last line rest =>
    obtain ⟨f, rfl⟩ : ∃ g, f = g + 1 := ⟨f - 1, by omega⟩
    rcases exists_leads line (.last rest) agrees meaning with ⟨blanks, -, meaning⟩ | ⟨d₁, m₁, leads, agrees, meaning⟩
    · cases meaning
      exact ⟨d, reads_end blanks, agrees.shows⟩
    · cases meaning
      have nonempty := List.length_pos_iff.mpr leads.ne_nil
      obtain ⟨f, rfl⟩ : ∃ g, f = g + 1 := ⟨f - 1, by omega⟩
      exact ⟨d₁, leads.reads (reads_end isBlanks_nil), agrees.shows⟩
  | @more l ls t r n ts line rest lineBreak _ ih =>
    obtain ⟨f, rfl⟩ : ∃ g, f = g + 1 := ⟨f - 1, by omega⟩
    rcases exists_leads line (.more rest lineBreak) agrees meaning with ⟨blanks, -⟩ | ⟨d₁, m₁, leads, agrees, meaning⟩
    · have feed : '\n' ∈ t ++ (r ++ (n ++ ts)) := by cases lineBreak <;> simp
      cases blanks '\n' feed
    · have positive : 0 < n.length := by cases lineBreak <;> simp
      obtain ⟨d₂, read, shows⟩ := ih agrees meaning (f := f) (by simp at enough; omega)
      exact ⟨d₂, leads.reads read, shows⟩

theorem linesFrom_mark (d : Draft) (cs : List Char) : linesFrom (f + 1) d ('\ufeff' :: cs) = none := rfl

theorem dropMark_of_reads (h : Reads (linesFrom (f + 1) d) text d' left) : dropMark text = text := by
  unfold dropMark
  split
  · rw [Reads, linesFrom_mark] at h
    cases h
  · rfl

/-- A text that spells a document is read to a tree that shows what its paths lead to. -/
theorem exists_ofText? {s : String} (h : SpellsDocument (depthLimit - 1) m s.toList) :
    ∃ fs, Fields.ofText? s = some fs ∧ Shows fs m := by
  obtain ⟨lines, meaning⟩ := h
  have agrees : Draft.Agrees {} .none := ⟨shows_none, stands_nil _⟩
  obtain ⟨d, read, shows⟩ := reads_lines lines agrees meaning (Nat.lt_succ_self _)
  refine ⟨d.fields, ?_, shows⟩
  unfold Fields.ofText?
  simp only [dropMark_of_reads read]
  rw [read]
  rfl

end Footprint.Toml
