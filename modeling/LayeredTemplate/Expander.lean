import LayeredTemplate.Vocabulary
import LayeredTemplate.Stack
import LayeredTemplate.Template

/-! Expanding templates. Literal text is passed on, and each directive turns the next argument into
bytes: its head writes into a stack of layers, one for each further stage, over the sink. The first
failure ends the expansion; what was written before stays written. -/
namespace LayeredTemplate

structure Expander (ω : Type) where
  vocabulary : Vocabulary ω
  strict : Bool

namespace Expander

variable {ω : Type}

/-- A directive with its names looked up. -/
structure Plan (ω : Type) where
  head : Handler ω
  headArgs : Option Bytes
  encoders : List (Encoder × Option Bytes)

def planEncoders (known : Vocabulary ω) :
    List Stage → Except Failure (List (Encoder × Option Bytes))
  | [] => .ok []
  | stage :: rest =>
      match known.resolve stage.name with
      | none => .error (.unknownName stage.name)
      | some (.formatter _) => .error (.notAnEncoder stage.name)
      | some (.encoder build) =>
          match planEncoders known rest with
          | .ok more => .ok ((build, stage.args) :: more)
          | .error e => .error e

/-- Looks names up from left to right. Only the head may be a formatter. -/
def plan (known : Vocabulary ω) (head : Stage) (encoders : List Stage) : Except Failure (Plan ω) :=
  match known.resolve head.name with
  | none => .error (.unknownName head.name)
  | some handler =>
      match planEncoders known encoders with
      | .ok encoders => .ok ⟨handler, head.args, encoders⟩
      | .error e => .error e

/-- The layers of encoders, top first. They are built from the sink up, the last encoder first. -/
def buildLayers : List (Encoder × Option Bytes) → Except Failure (List Layer)
  | [] => .ok []
  | (build, args) :: rest =>
      match buildLayers rest with
      | .error e => .error e
      | .ok below =>
          match build args with
          | .error e => .error e
          | .ok layer => .ok (layer :: below)

/-- How far an expansion has come: the arguments that wait, how many were drawn, and what was
reported, the latest first. -/
structure Progress (ω : Type) where
  waiting : List (Value ω)
  drawn : Nat
  journal : List Journal.Entry

namespace Progress

def start (args : List (Value ω)) : Progress ω := ⟨args, 0, []⟩

def report (entries : List Journal.Entry) (p : Progress ω) : Progress ω :=
  { p with journal := entries.reverse ++ p.journal }

/-- The next argument, or a sign that there is none. -/
def draw (p : Progress ω) : Value ω × Progress ω :=
  match p.waiting with
  | [] => (.notGiven, p)
  | v :: rest => (v, { p with waiting := rest, drawn := p.drawn + 1 })

end Progress

/-- Lets a head write through fresh layers, which are finalized if it succeeds. -/
def through (layers : List Layer) (head : Writing (Except Failure Unit)) (p : Progress ω) :
    Writing (Except Failure Unit × Progress ω) :=
  (Stack.carry layers head (Stack.fresh layers)).bind fun
    | (.error e, _) => .done (.error e, p)
    | (.ok _, states) =>
        (Stack.finalize layers.length layers states).map fun (answer, journal) =>
          (answer.mapError .io, p.report journal)

/-- An encoder at the head is the topmost layer, and its argument is written as it is. -/
def performHead (plan : Plan ω) (layers : List Layer) (value : Value ω) (p : Progress ω) :
    Writing (Except Failure Unit × Progress ω) :=
  match plan.head with
  | .formatter format => through layers (format value plan.headArgs) p
  | .encoder build =>
      match build plan.headArgs with
      | .error e => .done (.error e, p)
      | .ok layer => through (layer :: layers) value.writeRaw p

/-- The argument is drawn once all the layers beneath the head stand. -/
def perform (known : Vocabulary ω) (d : Directive) (p : Progress ω) :
    Writing (Except Failure Unit × Progress ω) :=
  match d with
  | .percent =>
      let p := p.report [.percent]
      .sendEach (fun e => (.error (.io e), p)) (.done (.ok (), p)) [[Bytes.percent]]
  | .chain head encoders =>
      match plan known head encoders with
      | .error e => .done (.error e, p)
      | .ok plan =>
          let p := p.report [.directive head.name plan.head.role encoders.length]
          match buildLayers plan.encoders with
          | .error e => .done (.error e, p)
          | .ok layers =>
              let (value, p) := p.draw
              performHead plan layers value p

structure Outcome where
  result : Except Failure Unit
  drawn : Nat
  journal : List Journal.Entry

def Progress.stop (e : Failure) (p : Progress ω) : Outcome := ⟨.error e, p.drawn, p.journal.reverse⟩

/-- All arguments are drawn at the end. Those that no directive took are a failure if `strict`, and
else reported. -/
def Progress.finish (strict : Bool) (p : Progress ω) : Outcome :=
  let unused := p.waiting.length
  let drawn := p.drawn + unused
  if unused = 0 then ⟨.ok (), drawn, p.journal.reverse⟩
  else if strict then ⟨.error (.unusedArguments unused), drawn, p.journal.reverse⟩
  else ⟨.ok (), drawn, (p.report [.unused unused]).journal.reverse⟩

/-- Runs a segment, if there is one. Behind a directive without its end, or a failure of its source,
a template does not go on. -/
def advance (known : Vocabulary ω) (segment : Option Template.Segment) (p : Progress ω) :
    Writing (Except Failure Unit × Progress ω) :=
  match segment with
  | none => .done (.ok (), p)
  | some (.text b) => .sendEach (fun e => (.error (.io e), p)) (.done (.ok (), p)) [b]
  | some (.directive d) => perform known d p
  | some .unclosed => .done (.error .incompleteDirective, p)
  | some (.broken e) => .done (.error (.io e), p)

def runFrom (expander : Expander ω) : List Template.Segment → Progress ω → Writing Outcome
  | [], p => .done (p.finish expander.strict)
  | segment :: rest, p =>
      (advance expander.vocabulary (some segment) p).bind fun
        | (.ok _, p) => expander.runFrom rest p
        | (.error e, p) => .done (p.stop e)

/-- Expands what is left of a template. A segment is run as soon as it is complete, and only then is
more of the template read. -/
def expandFrom (expander : Expander ω) (position : Template.Position) (p : Progress ω) :
    Writing Outcome :=
  match _eq : position.read with
  | (segment, none) =>
      (advance expander.vocabulary segment p).bind fun
        | (.ok _, p) => .done (p.finish expander.strict)
        | (.error e, p) => .done (p.stop e)
  | (segment, some next) =>
      (advance expander.vocabulary segment p).bind fun
        | (.ok _, p) => expander.expandFrom next p
        | (.error e, p) => .done (p.stop e)
termination_by position.source.weight
decreasing_by exact Template.Position.weight_read_lt _eq

/-- Expands a template as it is read from a source. -/
def expand (expander : Expander ω) (template : Source) (args : List (Value ω)) : Writing Outcome :=
  expander.expandFrom (.start template) (.start args)

/-- Expands a template into a byte string. -/
def expandBytes (expander : Expander ω) (template : Source) (args : List (Value ω)) :
    Outcome × Except Failure Bytes :=
  let (outcome, record) := (expander.expand template args).run .accepting .empty
  (outcome, outcome.result.map fun _ => record.held)

/-- Expands a template into a text. -/
def expandText (expander : Expander ω) (template : Source) (args : List (Value ω)) :
    Outcome × Except Failure String :=
  let (outcome, result) := expander.expandBytes template args
  (outcome, result.bind fun b => (Utf8.decode b).mapError .invalidUtf8)

def bare : Expander ω := ⟨.withRaw, false⟩

def withDefaults : Expander ω := ⟨.withDefaults, false⟩

def describe (expander : Expander ω) : String :=
  let known := expander.vocabulary.describe
  s!"Interpolator \x7b registry: {known}, strict_arguments: {expander.strict} \x7d"

end Expander
end LayeredTemplate
