import LayeredTemplate.Journal
import LayeredTemplate.Layer

/-! Stacks of layers over a sink. Bytes enter at the top layer, the one pushed last. Finalizing goes
from the top down, so that what a layer has held back still passes through the layers beneath. -/
namespace LayeredTemplate

namespace Stack

/-- The states of some layers, top first. -/
def States : List Layer → Type
  | [] => Unit
  | l :: below => l.State × States below

def fresh : (layers : List Layer) → States layers
  | [] => ()
  | l :: below => (l.start, fresh below)

/-- What becomes of a writing that goes through some layers. Nothing leaves a stack in part, even if
it has no layers. -/
def carry {α : Type} : (layers : List Layer) → Writing α → States layers →
    Writing (α × States layers)
  | [], w, s => w.whole.map fun a => (a, s)
  | l :: below, w, (s, states) =>
      (carry below (l.carry w s) states).map fun ((a, s), states) => (a, (s, states))

/-- What layers write when each is run to its end by itself, from the top down, on all that the one
above it wrote. -/
def stages : List Layer → List Bytes → List Bytes
  | [], sent => sent
  | l :: below, sent => stages below (l.alone l.start sent)

/-- Finalizes the layers that can be, top first, up to the first failure. -/
def finalize (depth : Nat) : (layers : List Layer) → States layers →
    Writing (Except IoError Unit × List Journal.Entry)
  | [], _ => .done (.ok (), [])
  | l :: below, (s, states) =>
      match l.finalize with
      | none => finalize depth below states
      | some f =>
          let entry := .finalizing (below.length + 1) depth
          (carry below (f s) states).bind fun
            | ((.error e, _), _) => .done (.error e, [entry])
            | ((.ok _, _), states) =>
                (finalize depth below states).map fun (answer, journal) =>
                  (answer, entry :: journal)

end Stack

structure Stack where
  layers : List Layer
  states : Stack.States layers

namespace Stack

def empty : Stack := ⟨[], ()⟩

def push (l : Layer) (s : Stack) : Stack := ⟨l :: s.layers, (l.start, s.states)⟩

def depth (s : Stack) : Nat := s.layers.length

/-- Runs a writing that enters at the top, against the sink at the bottom. -/
def run {α : Type} (s : Stack) (sink : Sink) (w : Writing α) (r : Sink.Record) :
    α × Stack × Sink.Record :=
  let ((a, states), r) := (carry s.layers w s.states).run sink r
  (a, ⟨s.layers, states⟩, r)

def runFinalize (s : Stack) (sink : Sink) (r : Sink.Record) : Except IoError Unit × Sink.Record :=
  let ((answer, _), r) := (finalize s.depth s.layers s.states).run sink r
  (answer, r)

def describe (s : Stack) : String := s!"Pipeline \x7b depth: {s.depth} \x7d"

end Stack
end LayeredTemplate
