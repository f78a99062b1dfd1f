import Footprint.Findings
import Mathlib.Data.List.Forall2

/-!
# What counts as a finding

The findings of constructs are those of each construct, in their order. A call counts once for the file that it
names, and only by its callee, its first argument and, for the function that opens files, its second: all else may be
changed without any change to the findings.
-/

namespace Footprint

/-- The arguments behind the name of a file begin with a mode in which the file is written. -/
def Argument.AskToWrite (rest : List Argument) : Prop :=
  ∃ mode more, rest = .text mode :: more ∧ ('w' ∈ mode.toList ∨ 'a' ∈ mode.toList)

theorem isWriteMode_iff {rest : List Argument} :
    isWriteMode (rest.head?.bind Argument.text?) = true ↔ Argument.AskToWrite rest := by
  have begins : isWriteMode (rest.head?.bind Argument.text?) = true ↔
      ∃ mode, rest.head?.bind Argument.text? = some mode ∧ ('w' ∈ mode.toList ∨ 'a' ∈ mode.toList) := by
    cases rest.head?.bind Argument.text? with
    | none => simp [isWriteMode]
    | some mode => simp [isWriteMode, and_or_left, exists_or]
  rw [begins, Argument.AskToWrite]
  cases rest with
  | nil => simp
  | cons a rest => simp

namespace Construct

/-- A call writes the file of this name: a method that writes, or the function that opens files with a mode to write. -/
inductive Writes (patterns : AccessPatterns) (file : String) : Construct → Prop
  | member {method : String} {rest : List Argument} : (patterns.classify method).write = true →
    Writes patterns file (.call (.member method) (.text file :: rest))
  | opened {rest : List Argument} : Argument.AskToWrite rest → Writes patterns file (.call (.name "open") (.text file :: rest))

inductive Reads (patterns : AccessPatterns) (file : String) : Construct → Prop
  | member {method : String} {rest : List Argument} : (patterns.classify method).read = true →
    Reads patterns file (.call (.member method) (.text file :: rest))
  | opened {rest : List Argument} : ¬Argument.AskToWrite rest → Reads patterns file (.call (.name "open") (.text file :: rest))

/-- What a construct imports: names, with the module before them if it has a name itself. -/
inductive Imports : Construct → List String → Prop
  | modules {names : List String} : Imports (.importModules names) names
  | members {module : String} {names : List String} : module ≠ "" →
    Imports (.importFrom (some module) names) (names.map fun name => module ++ "." ++ name)
  | unnamed {module : Option String} {names : List String} : module = none ∨ module = some "" →
    Imports (.importFrom module names) names
  | call {callee : Callee} {arguments : List Argument} : Imports (.call callee arguments) []
  | other : Imports .other []

/-- What is so of a construct comes into a list once, and nothing else does. -/
inductive Once (P : String → Construct → Prop) (c : Construct) : List String → Prop
  | found {file : String} : P file c → Once P c [file]
  | none : (∀ file, ¬P file c) → Once P c []

/-- A list is put together of what each construct contributes, in their order. -/
def Collects (R : Construct → List String → Prop) (cs : List Construct) (found : List String) : Prop :=
  ∃ parts, List.Forall₂ R cs parts ∧ found = parts.flatten

inductive IsSilent : Construct → Prop
  | modules : IsSilent (.importModules [])
  | members {module : Option String} : IsSilent (.importFrom module [])
  | noFile {callee : Callee} {arguments : List Argument} : (∀ file rest, arguments ≠ .text file :: rest) →
    IsSilent (.call callee arguments)
  | noName {arguments : List Argument} : IsSilent (.call .other arguments)
  | function {name : String} {arguments : List Argument} : name ≠ "open" → IsSilent (.call (.name name) arguments)
  | other : IsSilent .other

/-- Lists that differ in constructs that are silent, and in what else is behind the first arguments of calls. -/
inductive Indistinct : List Construct → List Construct → Prop
  | nil : Indistinct [] []
  | same {c : Construct} {cs ds : List Construct} : Indistinct cs ds → Indistinct (c :: cs) (c :: ds)
  | rest {callee : Callee} {file : String} {rest rest' : List Argument} {cs ds : List Construct} :
    (callee = .name "open" → (Argument.AskToWrite rest ↔ Argument.AskToWrite rest')) → Indistinct cs ds →
    Indistinct (.call callee (.text file :: rest) :: cs) (.call callee (.text file :: rest') :: ds)
  | left {c : Construct} {cs ds : List Construct} : c.IsSilent → Indistinct cs ds → Indistinct (c :: cs) ds
  | right {d : Construct} {cs ds : List Construct} : d.IsSilent → Indistinct cs ds → Indistinct cs (d :: ds)

variable {patterns : AccessPatterns} {c : Construct} {callee : Callee} {file : String} {rest rest' : List Argument}

theorem imports_imports (c : Construct) : c.Imports c.imports := by
  cases c with
  | importModules names => exact .modules
  | importFrom module names =>
    rcases module with _ | module
    · have same : names.map (qualified .none) = names := List.map_id names
      rw [imports, same]
      exact .unnamed (.inl rfl)
    · by_cases empty : module = ""
      · have same : names.map (qualified (some module)) = names := by
          have plain (name : String) : qualified (some module) name = name := by rw [qualified, if_pos empty]
          exact (List.map_congr_left fun name _ => plain name).trans (List.map_id' names)
        rw [imports, same]
        exact .unnamed (.inr (congrArg some empty))
      · have same : names.map (qualified (some module)) = names.map fun name => module ++ "." ++ name := by
          simp [qualified, empty]
        rw [imports, same]
        exact .members empty
  | call callee arguments => exact .call
  | other => exact .other

/-- A call that names a file: how the callee treats it is all that counts. -/
theorem writes_call_iff : Writes patterns file (.call callee (.text file :: rest)) ↔
    (callAccess patterns callee (rest.head?.bind Argument.text?)).write = true := by
  constructor
  · rintro (writes | asks)
    · exact writes
    · rw [callAccess, if_pos rfl]
      exact isWriteMode_iff.mpr asks
  · intro writes
    cases callee with
    | member method => exact .member writes
    | name name =>
      rw [callAccess] at writes
      split at writes
      · rename_i isOpen
        rw [isOpen]
        exact .opened (isWriteMode_iff.mp writes)
      · cases writes
    | other => cases writes

theorem reads_call_iff : Reads patterns file (.call callee (.text file :: rest)) ↔
    (callAccess patterns callee (rest.head?.bind Argument.text?)).read = true := by
  constructor
  · rintro (reads | asks)
    · exact reads
    · rw [callAccess, if_pos rfl]
      simpa using isWriteMode_iff.not.mpr asks
  · intro reads
    cases callee with
    | member method => exact .member reads
    | name name =>
      rw [callAccess] at reads
      split at reads
      · rename_i isOpen
        rw [isOpen]
        exact .opened (isWriteMode_iff.not.mp (by simpa using reads))
      · cases reads
    | other => cases reads

theorem file?_eq_some_iff {target : String × Access} : c.file? patterns = some target ↔
    ∃ callee rest, c = .call callee (.text target.1 :: rest) ∧
      target.2 = callAccess patterns callee (rest.head?.bind Argument.text?) := by
  obtain ⟨file, access⟩ := target
  constructor
  · intro named
    unfold file? at named
    split at named
    · cases named
      exact ⟨_, _, rfl, rfl⟩
    · cases named
  · rintro ⟨callee, rest, rfl, same⟩
    exact congrArg (fun access => some (file, access)) same.symm

theorem once_file? {P : String → Construct → Prop} {holds : Access → Bool}
    (calls : ∀ file c, P file c → ∃ callee rest, c = .call callee (.text file :: rest))
    (told : ∀ file callee rest, P file (.call callee (.text file :: rest)) ↔
      holds (callAccess patterns callee (rest.head?.bind Argument.text?)) = true) (c : Construct) :
    Once P c (match c.file? patterns with
      | some (target, access) => if holds access then [target] else []
      | none => []) := by
  cases named : c.file? patterns with
  | none =>
    refine .none fun file so => ?_
    obtain ⟨callee, rest, rfl⟩ := calls file c so
    cases named
  | some target =>
    obtain ⟨callee, rest, rfl, access⟩ := file?_eq_some_iff.mp named
    dsimp only
    rw [access]
    split
    · rename_i yes
      exact .found ((told _ _ _).mpr yes)
    · rename_i no
      refine .none fun file so => no ?_
      obtain ⟨callee', rest', same⟩ := calls file _ so
      cases same
      exact (told _ _ _).mp so

theorem once_filesRead (patterns : AccessPatterns) (c : Construct) : Once (Reads patterns) c (c.filesRead patterns) := by
  refine once_file? (fun file c reads => ?_) (fun file callee rest => reads_call_iff) c
  cases reads <;> exact ⟨_, _, rfl⟩

theorem once_filesWritten (patterns : AccessPatterns) (c : Construct) :
    Once (Writes patterns) c (c.filesWritten patterns) := by
  refine once_file? (fun file c writes => ?_) (fun file callee rest => writes_call_iff) c
  cases writes <;> exact ⟨_, _, rfl⟩

theorem findings_of_isSilent (silent : c.IsSilent) : c.findings patterns = {} := by
  have none (noFile : c.file? patterns = none ∨ ∃ file, c.file? patterns = some (file, ⟨false, false⟩))
      (noImports : c.imports = []) : c.findings patterns = {} := by
    rcases noFile with noFile | ⟨file, noFile⟩ <;> simp [findings, filesRead, filesWritten, noFile, noImports]
  cases silent with
  | modules | members | other => exact none (.inl rfl) rfl
  | @noFile callee arguments noFile =>
    refine none (.inl ?_) rfl
    rcases arguments with _ | ⟨a, rest⟩
    · rfl
    · cases a with
      | text file => exact absurd rfl (noFile file rest)
      | _ => rfl
  | @noName arguments =>
    rcases arguments with _ | ⟨a, rest⟩
    · exact none (.inl rfl) rfl
    · cases a with
      | text file => exact none (.inr ⟨file, rfl⟩) rfl
      | _ => exact none (.inl rfl) rfl
  | @function name arguments other =>
    rcases arguments with _ | ⟨a, rest⟩
    · exact none (.inl rfl) rfl
    · cases a with
      | text file => exact none (.inr ⟨file, by simp [file?, callAccess, other]⟩) rfl
      | _ => exact none (.inl rfl) rfl

theorem findings_rest (same : callee = .name "open" → (Argument.AskToWrite rest ↔ Argument.AskToWrite rest')) :
    (call callee (.text file :: rest')).findings patterns = (call callee (.text file :: rest)).findings patterns := by
  have access : callAccess patterns callee (rest'.head?.bind Argument.text?) =
      callAccess patterns callee (rest.head?.bind Argument.text?) := by
    cases callee with
    | name name =>
      rw [callAccess, callAccess]
      split
      · rename_i isOpen
        rw [Bool.eq_iff_iff.mpr (isWriteMode_iff.trans ((same (congrArg _ isOpen)).symm.trans isWriteMode_iff.symm))]
      · rfl
    | _ => rfl
  simp only [findings, filesRead, filesWritten, file?, access, imports]

end Construct

namespace Findings

open Construct

variable {patterns : AccessPatterns} {cs ds : List Construct}

theorem append_assoc (f g h : Findings) : f ++ g ++ h = f ++ (g ++ h) := by
  show mk _ _ _ = mk _ _ _
  simp only [imports_append, filesRead_append, filesWritten_append, List.append_assoc]

theorem ofConstructs_append (patterns : AccessPatterns) (cs ds : List Construct) :
    ofConstructs patterns (cs ++ ds) = ofConstructs patterns cs ++ ofConstructs patterns ds := by
  induction cs with
  | nil => rfl
  | cons c cs ih => rw [List.cons_append, ofConstructs_cons, ofConstructs_cons, ih, append_assoc]

/-- A list of findings is put together of what each construct contributes to it. -/
theorem collects {R : Construct → List String → Prop} {own : Construct → List String} {list : Findings → List String}
    (each : ∀ c, R c (own c)) (nil : list {} = [])
    (cons : ∀ c cs, list (ofConstructs patterns (c :: cs)) = own c ++ list (ofConstructs patterns cs))
    (cs : List Construct) : Collects R cs (list (ofConstructs patterns cs)) := by
  refine ⟨cs.map own, List.forall₂_map_right_iff.mpr (List.forall₂_same.mpr fun c _ => each c), ?_⟩
  induction cs with
  | nil => exact nil
  | cons c cs ih => rw [cons, ih, List.map_cons, List.flatten_cons]

theorem ofConstructs_of_indistinct (same : Indistinct cs ds) : ofConstructs patterns ds = ofConstructs patterns cs := by
  induction same with
  | nil => rfl
  | same _ ih => rw [ofConstructs_cons, ofConstructs_cons, ih]
  | rest asks _ ih => rw [ofConstructs_cons, ofConstructs_cons, ih, findings_rest asks]
  | left silent _ ih => rw [ofConstructs_cons, findings_of_isSilent silent, ih]; rfl
  | right silent _ ih => rw [ofConstructs_cons, findings_of_isSilent silent, ih]; rfl

/-- The findings of constructs are complete and nothing else: the references of each import, and each file that a call
names, once for each such call, in their order. -/
theorem ofConstructs_exact (patterns : AccessPatterns) (cs : List Construct) :
    Collects Imports cs (ofConstructs patterns cs).imports ∧
      Collects (Once (Reads patterns)) cs (ofConstructs patterns cs).filesRead ∧
      Collects (Once (Writes patterns)) cs (ofConstructs patterns cs).filesWritten ∧
      (∀ ds, ofConstructs patterns (cs ++ ds) = ofConstructs patterns cs ++ ofConstructs patterns ds) ∧
      ∀ ds, Indistinct cs ds → ofConstructs patterns ds = ofConstructs patterns cs := by
  refine ⟨?_, ?_, ?_, ofConstructs_append patterns cs, fun ds => ofConstructs_of_indistinct⟩
  · exact collects imports_imports rfl (fun c cs => rfl) cs
  · exact collects (once_filesRead patterns) rfl (fun c cs => rfl) cs
  · exact collects (once_filesWritten patterns) rfl (fun c cs => rfl) cs

/-- A call to open a file to be written, whatever else it is given and whatever other calls stand around it. -/
theorem ofConstructs_exact_opened :
    Indistinct [.call (.name "open") [.text "a", .text "w"]]
        [.other, .call (.name "open") [.text "a", .text "r+a", .name "x"], .call (.name "reopen") [.text "b"]] ∧
      ofConstructs {} [.other, .call (.name "open") [.text "a", .text "r+a", .name "x"],
        .call (.name "reopen") [.text "b"]] = { filesWritten := ["a"] } := by
  have alike : Indistinct [.call (.name "open") [.text "a", .text "w"]]
      [.other, .call (.name "open") [.text "a", .text "r+a", .name "x"], .call (.name "reopen") [.text "b"]] := by
    refine .right .other (.rest (fun _ => iff_of_true ?_ ?_) (.right (.function (by decide)) .nil))
    · exact ⟨"w", [], rfl, .inl (by decide)⟩
    · exact ⟨"r+a", [.name "x"], rfl, .inr (by decide)⟩
  refine ⟨alike, ((ofConstructs_exact {} _).2.2.2.2 _ alike).trans ?_⟩
  decide +kernel

end Findings

end Footprint
