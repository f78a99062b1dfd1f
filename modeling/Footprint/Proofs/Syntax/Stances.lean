import Footprint.Proofs.Syntax.Places
import Footprint.Syntax.Grammar

/-!
# What the grammar knows of its places

Each rule of the grammar is read in places of one kind: among code, within brackets, outside all of them, or in the text
of a formatted string. What a rule opens it also closes, literals are asked for only where no name has just been read,
and a text goes on only behind a gap that is none of it. All this is checked on the grammar itself.
-/

namespace Footprint.Syntax

/-- Where a phrase is read: outside all brackets and strings, directly in brackets, anywhere among code, or in the text
or format of a string, behind all that is text there. -/
inductive Ground where
  | outside | bracket | code | content
  deriving DecidableEq

/-- What is known of the places that a rule is read at. -/
structure Stance where
  /-- What may be open, innermost first, as far as the phrase has opened it. -/
  opened : List (List Frame) := []
  /-- Whether the phrase has opened no more than that. -/
  exact : Bool := true
  /-- Whether something may have been passed that no literal or text is asked for behind: a name, a point, or a gap
  before a field. -/
  behind : Bool := false
  /-- Whether no text of a string or format is left to be read. -/
  spent : Bool := true
  /-- Whether the word `lambda` has been read. -/
  lambda : Bool := false
  deriving DecidableEq

namespace Stance

def isIn (g : Ground) (fs : List Frame) (σ : Stance) : Bool :=
  match σ.opened with
  | l :: _ => l.all fs.contains
  | [] => σ.exact && match g with
    | .bracket => fs.contains .bracket
    | .content => fs.contains .text && fs.contains .format
    | .outside | .code => false

def isCode (g : Ground) (σ : Stance) : Bool :=
  match σ.opened with
  | l :: _ => l.all Frame.isCode
  | [] => σ.exact && g != .content

def isOutside (g : Ground) (σ : Stance) : Bool := σ.opened.isEmpty && σ.exact && g == .outside

/-- Behind a token after which literals may follow. -/
def settled (g : Ground) (σ : Stance) : Stance := { σ with behind := false, spent := σ.isCode g }

def push (g : Ground) (f : Frame) (σ : Stance) : Stance := settled g { σ with opened := [f] :: σ.opened }

def pop (g : Ground) (σ : Stance) : Stance :=
  match σ.opened with
  | _ :: ls => settled g { σ with opened := ls }
  | [] => settled g { σ with exact := false }

/-- Behind a mark, if it may be asked for. -/
def mark (g : Ground) (m : List Char) (σ : Stance) : Option Stance :=
  if m ∉ marks then none
  else if m = ['\x7b'] then
    if σ.isCode g then some (σ.push g .bracket)
    else if σ.isIn g [.text, .format] && σ.spent then some (σ.push g .field)
    else none
  else if m = ['\x7d'] then if σ.isIn g [.bracket, .field, .format] && σ.spent then some (σ.pop g) else none
  else if !σ.isCode g then none
  else if m = ['('] ∨ m = ['['] then some (σ.push g .bracket)
  else if m = [')'] ∨ m = [']'] then if σ.isIn g [.bracket] then some (σ.pop g) else none
  else if m = [':'] && !(σ.lambda || σ.isIn g [.bracket] || σ.isOutside g) then none
  else some { σ with behind := m == ['.'] }

def token (g : Ground) (σ : Stance) : Token → Option Stance
  | .mark m => σ.mark g m
  | .keyword w =>
    if σ.isCode g then some { σ with behind := w.all isStringPrefix, lambda := σ.lambda || w == "lambda".toList }
    else none
  | .name _ => if σ.isCode g then some { σ with behind := true } else none
  | .number | .plainString => if σ.isCode g && !σ.behind then some σ else none
  | .openFormatted => if σ.isCode g && !σ.behind then some (σ.push g .text) else none
  | .formattedText => if σ.isIn g [.text] && !σ.behind then some { σ with spent := false } else none
  | .formatText => if σ.isIn g [.format] && !σ.behind then some { σ with spent := false } else none
  | .closeFormatted => if σ.isIn g [.text] && !σ.behind then some (σ.pop g) else none
  | .conversion => if σ.isIn g [.field] then some { σ with behind := false } else none
  | .colon => if σ.isIn g [.field] then some ((σ.pop g).push g .format) else none

/-- Behind a place in the layout. Lines and suites begin and end outside all brackets. -/
def layout (g : Ground) (σ : Stance) : Layout → Option Stance
  | .lead => if σ.isCode g then some σ else if σ.spent then some { σ with behind := true } else none
  | .glue | .finish => if σ.isCode g then some σ else none
  | .newline => if σ.isCode g then some { σ with behind := false } else none
  | .line | .indent | .dedent => if σ.isOutside g && !σ.behind then some σ else none

/-- What is known if it is known that the one or the other holds. -/
def join (σ τ : Stance) : Stance where
  opened := List.zipWith (fun l m => l ++ m.filter (· ∉ l)) σ.opened τ.opened
  exact := σ.exact && τ.exact && σ.opened.length == τ.opened.length
  behind := σ.behind || τ.behind
  spent := σ.spent && τ.spent
  lambda := σ.lambda && τ.lambda

/-- Whether all that may be open by the one may be open by the other. -/
def among : List (List Frame) → List (List Frame) → Bool
  | _, [] => true
  | l :: ls, m :: ms => l.all m.contains && among ls ms
  | [], _ :: _ => false

/-- Whether the other tells no more. -/
def entails (σ τ : Stance) : Bool :=
  among σ.opened τ.opened && (!τ.exact || σ.exact && σ.opened.length == τ.opened.length) && (!σ.behind || τ.behind) &&
    (!τ.spent || σ.spent) && (!τ.lambda || σ.lambda)

def loop (body : Stance → Option Stance) (σ : Stance) : Option Stance :=
  (body σ).bind fun once => (body (σ.join once)).bind fun again =>
    if again.entails (σ.join once) then some (σ.join once) else none

/-- Whether a phrase may be read on this ground. -/
def admits (g : Ground) (σ : Stance) : Ground → Bool
  | .outside => σ.isOutside g
  | .bracket => σ.isIn g [.bracket]
  | .code => σ.isCode g
  | .content => σ.isIn g [.text, .format] && σ.spent

end Stance

/-- Where a phrase is read, and whether it may begin and end just behind a name. -/
structure Profile where
  ground : Ground
  begins : Bool := false
  ends : Bool := false

def Profile.entry (p : Profile) : Stance := { behind := p.begins }

def Profile.exit (p : Profile) : Stance := { behind := p.ends, spent := p.ground != .content }

def Phrase.profile : Phrase → Profile
  | .statement | .simpleLine | .suite => { ground := .outside }
  | .assignment | .rightSide => { ground := .outside, ends := true }
  | .parameter | .element | .argument => { ground := .bracket, ends := true }
  | .strings | .string => { ground := .code }
  | .splatGroup | .arguments => { ground := .code, begins := true }
  | .clauses => { ground := .code, begins := true, ends := true }
  | .interpolation => { ground := .content }
  | _ => { ground := .code, ends := true }

def Stance.phrase (g : Ground) (n : Phrase) (σ : Stance) : Option Stance :=
  if σ.admits g n.profile.ground && (n.profile.begins || !σ.behind) then
    some { σ with behind := n.profile.ends, spent := σ.isCode g }
  else none

mutual

def Rule.refused : Rule Phrase → Stance → Stance
  | .token .formattedText, σ | .token .formatText, σ => { σ with spent := true }
  | .first rs, σ => Rule.allRefused rs σ
  | _, σ => σ

def Rule.allRefused : List (Rule Phrase) → Stance → Stance
  | [], σ => σ
  | r :: rs, σ => Rule.allRefused rs (r.refused σ)

end

mutual

/-- What is known behind a rule, if it may be read. -/
def Rule.stance (g : Ground) : Rule Phrase → Stance → Option Stance
  | .token t, σ => σ.token g t
  | .layout l, σ => σ.layout g l
  | .phrase n, σ => σ.phrase g n
  | .each rs, σ => Rule.stanceEach g rs σ
  | .first rs, σ => Rule.stanceFirst g rs σ
  | .many r, σ => (σ.loop (r.stance g)).map r.refused
  | .ahead r, σ | .absent r, σ => (r.stance g σ).map fun _ => σ
  | .within _ r, σ | .inRole _ r, σ | .only _ r, σ => r.stance g σ
  | .node _ r, σ => (σ.layout g .lead).bind (r.stance g)
  | .chain base steps, σ =>
    ((σ.layout g .lead).bind (base.stance g)).bind (Stance.loop (Rule.stanceSteps g steps))
  | .choose front ends, σ => ((σ.layout g .lead).bind (front.stance g)).bind (Rule.stanceEnds g ends)

def Rule.stanceEach (g : Ground) : List (Rule Phrase) → Stance → Option Stance
  | [], σ => some σ
  | r :: rs, σ => (r.stance g σ).bind (Rule.stanceEach g rs)

def Rule.stanceFirst (g : Ground) : List (Rule Phrase) → Stance → Option Stance
  | [], _ => .none
  | [r], σ => r.stance g σ
  | r :: rs, σ => (r.stance g σ).bind fun τ => (Rule.stanceFirst g rs (r.refused σ)).map τ.join

def Rule.stanceSteps (g : Ground) : List (Kind × Option Role × Rule Phrase) → Stance → Option Stance
  | [], _ => .none
  | [(_, _, r)], σ => r.stance g σ
  | (_, _, r) :: steps, σ => (r.stance g σ).bind fun τ => (Rule.stanceSteps g steps σ).map τ.join

def Rule.stanceEnds (g : Ground) : List (Kind × Rule Phrase) → Stance → Option Stance
  | [], _ => .none
  | [(_, r)], σ => r.stance g σ
  | (_, r) :: ends, σ => (r.stance g σ).bind fun τ => (Rule.stanceEnds g ends σ).map τ.join

end

/-- Each phrase keeps to its profile. -/
theorem keepsTo_profile (n : Phrase) :
    ((grammar n).stance n.profile.ground n.profile.entry).any (·.entails n.profile.exit) = true := by
  cases n <;> decide +kernel

theorem keepsTo_cell : (cell.stance .outside {}).isSome = true := by decide +kernel

end Footprint.Syntax
