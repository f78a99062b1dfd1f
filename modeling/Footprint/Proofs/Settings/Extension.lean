import Footprint.CommandLine.Run
import Footprint.Proofs.Access.Growth

/-!
# Extending settings

Patterns are added to settings in several ways: through the settings or straight to the patterns they hold, by a
configuration text or by a file with one. Whichever way they come, and in however many steps, the settings come out as
if all had been added at once.
-/

namespace Footprint

/-- A step that adds patterns to settings. -/
inductive Settings.Extension where
  | read (new : List String)
  | write (new : List String)
  /-- Straight to the patterns to read. -/
  | patternsRead (new : List String)
  | patternsWrite (new : List String)
  /-- By a configuration text. -/
  | text (text : String)
  /-- By a file with a configuration text. -/
  | file (t : FileTree) (p : Path)

def Settings.Extension.supplied? : Extension → Option Configuration
  | read new | patternsRead new => some { read := new }
  | write new | patternsWrite new => some { write := new }
  | text s => Configuration.ofToml? s
  | file t p => (t.readText p).toOption.bind Configuration.ofToml?

def Settings.suppliedRead (es : List Extension) : List String := es.flatMap fun e => (e.supplied?.getD {}).read

def Settings.suppliedWrite (es : List Extension) : List String := es.flatMap fun e => (e.supplied?.getD {}).write

namespace Settings

open AccessPatterns

def take (s : Settings) : Extension → Except Error Settings
  | .read new => .ok (s.addRead new)
  | .write new => .ok (s.addWrite new)
  | .patternsRead new => .ok { s with patterns := s.patterns.addRead new }
  | .patternsWrite new => .ok { s with patterns := s.patterns.addWrite new }
  | .text text => s.addToml text
  | .file t p => s.addFile t p

/-- Takes steps as long as they succeed. -/
def extend (s : Settings) (es : List Extension) : Except Error Settings := es.foldlM take s

variable {s s' s'' : Settings} {e : Extension} {es es' : List Extension} {c : Configuration} {p : String}

theorem addToml_eq_ok_iff {text : String} :
    s.addToml text = .ok s' ↔ ∃ c, Configuration.ofToml? text = some c ∧ s' = s.configure c := by
  rw [addToml]
  cases Configuration.ofToml? text with
  | none => simp
  | some c => simp [eq_comm]

theorem take_eq_ok_iff : s.take e = .ok s' ↔ ∃ c, e.supplied? = some c ∧ s' = s.configure c := by
  cases e with
  | text text => exact addToml_eq_ok_iff
  | file t p =>
    rw [take, addFile, Extension.supplied?]
    cases t.readText p with
    | ok text => exact addToml_eq_ok_iff
    | error e => simp [Except.toOption]
  | _ => simp [take, Extension.supplied?, configure, addRead, addWrite, AccessPatterns.addRead, AccessPatterns.addWrite,
      eq_comm]

@[simp] theorem extend_nil (s : Settings) : s.extend [] = .ok s := rfl

theorem extend_cons_eq_ok_iff : s.extend (e :: es) = .ok s'' ↔ ∃ s', s.take e = .ok s' ∧ s'.extend es = .ok s'' := by
  rw [extend, List.foldlM_cons]
  cases s.take e with
  | error e => simp [bind, Except.bind]
  | ok s' => simp [bind, Except.bind, extend]

theorem configure_configure (s : Settings) (c d : Configuration) :
    (s.configure c).configure d = s.configure ⟨c.read ++ d.read, c.write ++ d.write⟩ := by
  simp [configure, addRead, addWrite, AccessPatterns.addRead, AccessPatterns.addWrite, AccessPatterns.addAll_append]

theorem configure_eq_self (read : addAll s.patterns.read c.read = s.patterns.read)
    (write : addAll s.patterns.write c.write = s.patterns.write) : s.configure c = s := by
  show { s with patterns := ⟨addAll s.patterns.read c.read, addAll s.patterns.write c.write⟩ } = s
  rw [read, write]

/-- Steps come to one: they succeed if each has something to supply, and then all is supplied at once. -/
theorem extend_eq_ok_iff :
    s.extend es = .ok s' ↔ (∀ e ∈ es, e.supplied?.isSome) ∧ s' = s.configure ⟨suppliedRead es, suppliedWrite es⟩ := by
  induction es generalizing s with
  | nil =>
    rw [extend_nil, Except.ok.injEq, eq_comm]
    exact (and_iff_right (List.forall_mem_nil _)).symm
  | cons e es ih =>
    simp only [extend_cons_eq_ok_iff, take_eq_ok_iff, ih, List.forall_mem_cons, suppliedRead, suppliedWrite,
      List.flatMap_cons]
    cases supplied : e.supplied? with
    | none => simp
    | some c => simp [configure_configure]

theorem read_extend (ok : s.extend es = .ok s') : s'.patterns.read = addAll s.patterns.read (suppliedRead es) := by
  obtain ⟨-, rfl⟩ := extend_eq_ok_iff.mp ok
  rfl

theorem write_extend (ok : s.extend es = .ok s') : s'.patterns.write = addAll s.patterns.write (suppliedWrite es) := by
  obtain ⟨-, rfl⟩ := extend_eq_ok_iff.mp ok
  rfl

theorem isProper_default : IsProper ({} : AccessPatterns).read ∧ IsProper ({} : AccessPatterns).write :=
  ⟨⟨by decide, by decide⟩, ⟨by decide, by decide⟩⟩

theorem mem_read_extend (ok : s.extend es = .ok s') :
    p ∈ s'.patterns.read ↔ p ∈ s.patterns.read ∨ p ∈ forms (suppliedRead es) := by
  rw [read_extend ok, mem_addAll_iff]

theorem mem_write_extend (ok : s.extend es = .ok s') :
    p ∈ s'.patterns.write ↔ p ∈ s.patterns.write ∨ p ∈ forms (suppliedWrite es) := by
  rw [write_extend ok, mem_addAll_iff]

theorem take_of_mem (ok : s.extend es = .ok s') (mem : e ∈ es) : s'.take e = .ok s' := by
  obtain ⟨supplied, -⟩ := extend_eq_ok_iff.mp ok
  obtain ⟨c, supplies⟩ := Option.isSome_iff_exists.mp (supplied e mem)
  have read : c.read ⊆ suppliedRead es := fun p given => List.mem_flatMap.mpr ⟨e, mem, by rwa [supplies]⟩
  have write : c.write ⊆ suppliedWrite es := fun p given => List.mem_flatMap.mpr ⟨e, mem, by rwa [supplies]⟩
  refine take_eq_ok_iff.mpr ⟨c, supplies, (configure_eq_self ?_ ?_).symm⟩
  · exact addAll_of_subset fun q new => (mem_read_extend ok).mpr (.inr (forms_subset read new))
  · exact addAll_of_subset fun q new => (mem_write_extend ok).mpr (.inr (forms_subset write new))

/-- What becomes of settings with the patterns they begin with, when these steps have been taken. -/
structure Grows (s : Settings) (es : List Extension) (s' : Settings) : Prop where
  /-- Nothing else changes. -/
  others : s' = { s with patterns := s'.patterns }
  read : s'.patterns.read = ({} : AccessPatterns).read ++
    ((forms (suppliedRead es)).filter (· ∉ ({} : AccessPatterns).read)).eraseDups
  write : s'.patterns.write = ({} : AccessPatterns).write ++
    ((forms (suppliedWrite es)).filter (· ∉ ({} : AccessPatterns).write)).eraseDups
  proper : IsProper s'.patterns.read ∧ IsProper s'.patterns.write
  /-- A list is left alone by steps that have nothing for it. -/
  apart {e : Extension} {c : Configuration} {s'' : Settings} : e.supplied? = some c → s'.take e = .ok s'' →
    (c.read = [] → s''.patterns.read = s'.patterns.read) ∧ (c.write = [] → s''.patterns.write = s'.patterns.write)
  again {e : Extension} : e ∈ es → s'.take e = .ok s'
  /-- No step takes an answer back. -/
  kept {e : Extension} {s'' : Settings} (method : String) : s'.take e = .ok s'' →
    ((s'.patterns.classify method).read = true → (s''.patterns.classify method).read = true) ∧
      ((s'.patterns.classify method).write = true → (s''.patterns.classify method).write = true)

/-- Steps succeed if each of them does. The lists of patterns grow by what is supplied, and how methods are classified
depends on nothing but which patterns that are. -/
theorem extend_grows {s : Settings} (initial : s.patterns = {}) (es : List Extension) :
    ((∃ s', s.extend es = .ok s') ↔ ∀ e ∈ es, ∃ c, e.supplied? = some c) ∧
      ∀ s', s.extend es = .ok s' → s.Grows es s' ∧
        ∀ (t t' : Settings) (es' : List Extension), t.patterns = {} → t.extend es' = .ok t' →
          (∀ p, p ∈ suppliedRead es' ↔ p ∈ suppliedRead es) → (∀ p, p ∈ suppliedWrite es' ↔ p ∈ suppliedWrite es) →
          ∀ method, t'.patterns.classify method = s'.patterns.classify method := by
  constructor
  · simp [extend_eq_ok_iff, Option.isSome_iff_exists]
  intro s' ok
  constructor
  · have step {e : Extension} {s'' : Settings} (taken : s'.take e = .ok s'') : ∃ c, e.supplied? = some c ∧
        s''.patterns.read = addAll s'.patterns.read c.read ∧ s''.patterns.write = addAll s'.patterns.write c.write := by
      obtain ⟨c, supplies, rfl⟩ := take_eq_ok_iff.mp taken
      exact ⟨c, supplies, rfl, rfl⟩
    have proper := isProper_default
    rw [← initial] at proper
    refine ⟨?_, ?_, ?_, ⟨?_, ?_⟩, ?_, take_of_mem ok, ?_⟩
    · obtain ⟨-, rfl⟩ := extend_eq_ok_iff.mp ok
      rfl
    · rw [read_extend ok, initial, addAll_eq]
    · rw [write_extend ok, initial, addAll_eq]
    · rw [read_extend ok]
      exact proper.1.addAll _
    · rw [write_extend ok]
      exact proper.2.addAll _
    · intro e c s'' supplies taken
      obtain ⟨c', supplies', read, write⟩ := step taken
      obtain rfl := Option.some.inj (supplies.symm.trans supplies')
      exact ⟨fun none => by rw [read, none, addAll_nil], fun none => by rw [write, none, addAll_nil]⟩
    · intro e s'' method taken
      obtain ⟨c, -, read, write⟩ := step taken
      simp only [classify, read, write]
      exact ⟨anyIn_mono (subset_addAll _ _), anyIn_mono (subset_addAll _ _)⟩
  · intro t t' es' initial' ok' read write method
    rw [classify, classify, Access.mk.injEq]
    refine ⟨anyIn_congr (fun q => ?_) _, anyIn_congr (fun q => ?_) _⟩
    · rw [mem_read_extend ok', mem_read_extend ok, initial, initial', mem_forms_congr read]
    · rw [mem_write_extend ok', mem_write_extend ok, initial, initial', mem_forms_congr write]

/-- A pattern in two cases, an empty one, one that is there already, and a configuration text. -/
theorem extend_grows_mixed :
    let es := [.read ["Fetch", "", "read"], .patternsRead ["FETCH"], .text "[patterns]\nwrite = [\"Dump\"]"]
    ({} : Settings).patterns = {} ∧ ∃ s', ({} : Settings).extend es = .ok s' ∧
      s'.patterns.read = ["read", "load", "fetch"] ∧ s'.take (.patternsRead ["FETCH"]) = .ok s' := by
  intro es
  obtain ⟨succeeds, grows⟩ := extend_grows (s := {}) rfl es
  have supplied : es.all (·.supplied?.isSome) = true := by decide +kernel
  obtain ⟨s', ok⟩ := succeeds.mpr fun e mem => Option.isSome_iff_exists.mp (List.all_eq_true.mp supplied e mem)
  obtain ⟨grown, -⟩ := grows s' ok
  have read : suppliedRead es = ["Fetch", "", "read", "FETCH"] := by decide +kernel
  refine ⟨rfl, s', ok, ?_, grown.again (by simp [es])⟩
  rw [grown.read, read]
  decide +kernel

end Settings

end Footprint
