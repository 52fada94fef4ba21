import LayeredTemplate.Sink

/-! Computations that write. What one asks for, and how it goes on with each answer, is laid out as
a tree, so that the same writing can be run against a sink or passed through a layer. -/
namespace LayeredTemplate

universe u v

inductive Writing (α : Type u) : Type u where
  | done (result : α)
  | writeAll (bytes : Bytes) (next : Except IoError Unit → Writing α)
  | write (bytes : Bytes) (next : Except IoError Nat → Writing α)
  | flush (next : Except IoError Unit → Writing α)

namespace Writing

variable {α : Type u} {β : Type v}

def bind : Writing α → (α → Writing β) → Writing β
  | .done a, f => f a
  | .writeAll b next, f => .writeAll b fun r => (next r).bind f
  | .write b next, f => .write b fun r => (next r).bind f
  | .flush next, f => .flush fun r => (next r).bind f

def map (f : α → β) (w : Writing α) : Writing β := w.bind fun a => .done (f a)

/-- Writes the fragments in order, each as a whole. The first failure ends the writing. -/
def sendEach (stop : IoError → α) (next : Writing α) : List Bytes → Writing α
  | [] => next
  | b :: rest => .writeAll b fun
      | .ok _ => sendEach stop next rest
      | .error e => .done (stop e)

/-- The same writing with every single write made whole. -/
def whole : Writing α → Writing α
  | .done a => .done a
  | .writeAll b next => .writeAll b fun r => (next r).whole
  | .write b next => .writeAll b fun r => (next (r.map fun _ => b.length)).whole
  | .flush next => .flush fun r => (next r).whole

/-- The result of a writing and the byte strings that it writes, as long as nothing goes wrong. -/
def smooth : Writing α → α × List Bytes
  | .done a => (a, [])
  | .writeAll b next =>
      let (a, more) := (next (.ok ())).smooth
      (a, b :: more)
  | .write b next =>
      let (a, more) := (next (.ok b.length)).smooth
      (a, b :: more)
  | .flush next => (next (.ok ())).smooth

/-- Runs a writing against a sink. -/
def run (sink : Sink) : Writing α → Sink.Record → α × Sink.Record
  | .done a, r => (a, r)
  | .writeAll b next, r =>
      let (answer, r) := sink.writeAll b r
      run sink (next answer) r
  | .write b next, r =>
      let (answer, r) := sink.write b r
      run sink (next answer) r
  | .flush next, r =>
      let (answer, r) := sink.flush r
      run sink (next answer) r

@[simp] theorem bind_done (w : Writing α) : w.bind .done = w := by
  induction w with
  | done => rfl
  | writeAll _ _ ih | write _ _ ih | flush _ ih => simp [bind, ih]

theorem smooth_bind (w : Writing α) (f : α → Writing β) :
    (w.bind f).smooth = ((f w.smooth.1).smooth.1, w.smooth.2 ++ (f w.smooth.1).smooth.2) := by
  induction w with
  | done => rfl
  | writeAll _ _ ih | write _ _ ih | flush _ ih => simp [bind, smooth, ih]

theorem bind_assoc {γ : Type _} (w : Writing α) (f : α → Writing β) (g : β → Writing γ) :
    (w.bind f).bind g = w.bind fun a => (f a).bind g := by
  induction w with
  | done => rfl
  | writeAll _ _ ih | write _ _ ih | flush _ ih => simp [bind, ih]

theorem run_bind (sink : Sink) (w : Writing α) (f : α → Writing β) (r : Sink.Record) :
    (w.bind f).run sink r = (f (w.run sink r).1).run sink (w.run sink r).2 := by
  induction w generalizing r with
  | done => rfl
  | writeAll _ _ ih | write _ _ ih | flush _ ih => simp [bind, run, ih]

end Writing
end LayeredTemplate
