import LayeredTemplate.Writing

/-! Layers: what transforms bytes on their way to a sink. -/
namespace LayeredTemplate

/-- A layer keeps a state between the writes it receives and writes on to what is beneath it. One
that holds bytes back can be finalized, and may be written to again afterwards. Whether it can be
does not hang on its state: a layer that has nothing to finalize in some of its states is one that
writes nothing then and succeeds, which makes the same calls and is but reported as one more turn.
-/
structure Layer where
  State : Type
  start : State
  write : Bytes → State → Writing (Except IoError Unit × State)
  finalize : Option (State → Writing (Except IoError Unit × State))

namespace Layer

/-- A layer without a state that sends some fragments for each write. -/
def stateless (fragments : Bytes → List Bytes) : Layer where
  State := Unit
  start := ()
  write b _ := .sendEach (fun e => (.error e, ())) (.done (.ok (), ())) (fragments b)
  finalize := none

/-- The layer succeeds as long as all that it asks of what is beneath it is done. -/
structure Steady (l : Layer) : Prop where
  write_succeeds : ∀ b s, (l.write b s).smooth.1.1 = .ok ()
  finalize_succeeds : ∀ f ∈ l.finalize, ∀ s, (f s).smooth.1.1 = .ok ()

/-- Changes nothing. -/
def passthrough : Layer := stateless fun b => [b]

/-- What becomes of a writing that goes through a layer in state `s`. A single write is handled as
a whole and reported as complete; flushing goes past the layer. -/
def carry {α : Type} (l : Layer) : Writing α → l.State → Writing (α × l.State)
  | .done a, s => .done (a, s)
  | .writeAll b next, s => (l.write b s).bind fun (answer, s) => l.carry (next answer) s
  | .write b next, s =>
      (l.write b s).bind fun (answer, s) => l.carry (next (answer.map fun _ => b.length)) s
  | .flush next, s => .flush fun answer => l.carry (next answer) s

/-- What a layer by itself writes on, from state `s`, while it receives some byte strings in order
and is then finalized, as long as nothing goes wrong. -/
def alone (l : Layer) : l.State → List Bytes → List Bytes
  | s, [] =>
      match l.finalize with
      | none => []
      | some f => (f s).smooth.2
  | s, b :: rest =>
      let ((_, s), sent) := (l.write b s).smooth
      sent ++ l.alone s rest

end Layer
end LayeredTemplate
