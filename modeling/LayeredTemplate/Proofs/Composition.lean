import LayeredTemplate.Gallery
import LayeredTemplate.Proofs.Smooth
import LayeredTemplate.Stack

/-! A stack of layers is the sequential composition of its layers: what arrives at the bottom is
what comes of running each layer to its end by itself, from the top down, on all that the one above
it wrote. In a stack the layers take turns at every write, and finalizing drives what is beneath.
-/
namespace LayeredTemplate

namespace Layer

/-- What a layer by itself comes to, and writes on, while it receives some byte strings in order. -/
def feed (l : Layer) : l.State → List Bytes → l.State × List Bytes
  | s, [] => (s, [])
  | s, b :: rest =>
      let written := (l.write b s).smooth
      let fed := l.feed written.1.2 rest
      (fed.1, written.2 ++ fed.2)

/-- What a layer by itself writes on when it is finalized. -/
def closing (l : Layer) (s : l.State) : List Bytes := l.finalize.elim [] fun f => (f s).smooth.2

theorem alone_eq (l : Layer) (s : l.State) (received : List Bytes) :
    l.alone s received = (l.feed s received).2 ++ l.closing (l.feed s received).1 := by
  induction received generalizing s with
  | nil =>
      unfold alone closing
      cases l.finalize <;> rfl
  | cons b rest ih =>
      change (l.write b s).smooth.2 ++ l.alone (l.write b s).smooth.1.2 rest = _
      rw [ih, feed, List.append_assoc]

theorem feed_append (l : Layer) (s : l.State) (x y : List Bytes) :
    l.feed s (x ++ y) =
      ((l.feed (l.feed s x).1 y).1, (l.feed s x).2 ++ (l.feed (l.feed s x).1 y).2) := by
  induction x generalizing s with
  | nil => rfl
  | cons b rest ih => simp only [List.cons_append, feed, ih, List.append_assoc]

/-- A steady layer does not change the course of what is written through it. -/
theorem smooth_carry {α : Type} {l : Layer} (steady : l.Steady) (w : Writing α) (s : l.State) :
    (l.carry w s).smooth =
      ((w.smooth.1, (l.feed s w.smooth.2).1), (l.feed s w.smooth.2).2) := by
  induction w generalizing s with
  | done a => rfl
  | writeAll b next ih =>
      rw [carry, Writing.smooth_bind]
      simp only [steady.write_succeeds, ih, Writing.smooth, feed]
  | write b next ih =>
      rw [carry, Writing.smooth_bind]
      simp only [steady.write_succeeds, Except.map, ih, Writing.smooth, feed]
  | flush next ih => exact ih ..

theorem steady_stateless (fragments : Bytes → List Bytes) : (stateless fragments).Steady where
  write_succeeds b s := by simp only [stateless, Writing.smooth_sendEach, Writing.smooth]
  finalize_succeeds _ given := by cases given

theorem steady_hold {args : Option Bytes} {l : Layer} (built : Gallery.Encoders.hold args = .ok l) :
    l.Steady := by
  cases built
  constructor
  · intro b s
    rfl
  · intro f given s
    cases given
    rfl

end Layer

namespace Writing

/-- Writes byte strings one after the other. -/
def inOrder (writes : List Bytes) : Writing (Except IoError Unit) :=
  sendEach .error (.done (.ok ())) writes

theorem smooth_inOrder (writes : List Bytes) : (inOrder writes).smooth = (.ok (), writes) := by
  rw [inOrder, smooth_sendEach, smooth, List.append_nil]

theorem smooth_whole {α : Type} (w : Writing α) : w.whole.smooth = w.smooth := by
  induction w with
  | done a => rfl
  | writeAll b next ih => simp only [whole, smooth, ih]
  | write b next ih => simp only [whole, smooth, Except.map, ih]
  | flush next ih => simp only [whole, smooth, ih]

end Writing

namespace Stack

/-- What layers in a stack come to, and what arrives beneath them, while the topmost receives some
byte strings in order. -/
def feed : (layers : List Layer) → States layers → List Bytes → States layers × List Bytes
  | [], s, received => (s, received)
  | l :: below, (s, states), received =>
      let fed := l.feed s received
      let fedBelow := feed below states fed.2
      ((fed.1, fedBelow.1), fedBelow.2)

theorem feed_append (layers : List Layer) (states : States layers) (x y : List Bytes) :
    feed layers states (x ++ y) =
      ((feed layers (feed layers states x).1 y).1,
        (feed layers states x).2 ++ (feed layers (feed layers states x).1 y).2) := by
  induction layers generalizing x y with
  | nil => rfl
  | cons l below ih =>
      obtain ⟨s, states⟩ := states
      simp only [feed, Layer.feed_append, ih]

theorem smooth_carry {α : Type} {layers : List Layer} (steady : ∀ l ∈ layers, l.Steady)
    (w : Writing α) (states : States layers) :
    (carry layers w states).smooth =
      ((w.smooth.1, (feed layers states w.smooth.2).1), (feed layers states w.smooth.2).2) := by
  induction layers generalizing α w with
  | nil => rw [carry, Writing.smooth_map, Writing.smooth_whole]; rfl
  | cons l below ih =>
      obtain ⟨s, states⟩ := states
      obtain ⟨top, rest⟩ := List.forall_mem_cons.1 steady
      rw [carry, Writing.smooth_map, ih rest, Layer.smooth_carry top]
      rfl

/-- `stages`, for layers that are in some states already. -/
def stagesFrom : (layers : List Layer) → States layers → List Bytes → List Bytes
  | [], _, received => received
  | l :: below, (s, states), received => stagesFrom below states (l.alone s received)

theorem stagesFrom_fresh (layers : List Layer) (received : List Bytes) :
    stagesFrom layers (fresh layers) received = stages layers received := by
  induction layers generalizing received with
  | nil => rfl
  | cons l below ih => exact ih _

/-- What finalizing drives through the layers beneath joins what they received before. -/
theorem smooth_finalize {layers : List Layer} (steady : ∀ l ∈ layers, l.Steady) (depth : Nat)
    (states : States layers) (received : List Bytes) :
    let fed := feed layers states received
    (finalize depth layers fed.1).smooth.1.1 = .ok () ∧
      fed.2 ++ (finalize depth layers fed.1).smooth.2 = stagesFrom layers states received := by
  induction layers generalizing received with
  | nil => exact ⟨rfl, List.append_nil _⟩
  | cons l below ih =>
      obtain ⟨s, states⟩ := states
      obtain ⟨top, rest⟩ := List.forall_mem_cons.1 steady
      simp only [feed, stagesFrom, Layer.alone_eq, Layer.closing, finalize]
      cases final : l.finalize with
      | none =>
          simp only [Option.elim_none, List.append_nil]
          exact ih rest states _
      | some f =>
          have succeeds := top.finalize_succeeds f final (l.feed s received).1
          obtain ⟨answered, arrived⟩ := ih rest states
            ((l.feed s received).2 ++ (f (l.feed s received).1).smooth.2)
          simp only [feed_append] at answered arrived
          simp only [Option.elim_some, Writing.smooth_bind, smooth_carry rest]
          generalize (f (l.feed s received).1).smooth = final at succeeds answered arrived ⊢
          obtain ⟨⟨answer, s'⟩, sent⟩ := final
          cases succeeds
          simp only [Writing.smooth_map]
          exact ⟨answered, by rw [← List.append_assoc]; exact arrived⟩

theorem whole_carry {α : Type} (layers : List Layer) (w : Writing α) (states : States layers) :
    (carry layers w states).Whole := by
  induction layers generalizing α w with
  | nil => exact (Writing.whole_whole w).map _
  | cons l below ih => exact (ih _ _).map _

theorem whole_finalize (depth : Nat) (layers : List Layer) (states : States layers) :
    (finalize depth layers states).Whole := by
  induction layers with
  | nil => trivial
  | cons l below ih =>
      obtain ⟨s, states⟩ := states
      simp only [finalize]
      cases l.finalize with
      | none => exact ih states
      | some f =>
          apply (whole_carry below (f s) states).bind
          rintro ⟨⟨answer, _⟩, states⟩
          cases answer with
          | error e => trivial
          | ok => exact (ih states).map _

/-- What becomes of a writing that enters a stack of fresh layers, which are then finalized. -/
def passing {α : Type} (layers : List Layer) (w : Writing α) : Writing (α × Except IoError Unit) :=
  (carry layers w (fresh layers)).bind fun (a, states) =>
    (finalize layers.length layers states).map fun (finalized, _) => (a, finalized)

theorem smooth_passing {α : Type} {layers : List Layer} (steady : ∀ l ∈ layers, l.Steady)
    (w : Writing α) :
    (passing layers w).smooth = ((w.smooth.1, .ok ()), stages layers w.smooth.2) := by
  obtain ⟨answered, arrived⟩ :=
    smooth_finalize steady layers.length (fresh layers) w.smooth.2
  rw [passing, Writing.smooth_bind, smooth_carry steady]
  simp only [Writing.smooth_map, answered, arrived, stagesFrom_fresh]

theorem run_passing {α : Type} (layers : List Layer) (w : Writing α) (sink : Sink)
    (r : Sink.Record) :
    (passing layers w).run sink r =
      let (a, s, between) := Stack.run ⟨layers, fresh layers⟩ sink w r
      let (finalized, after) := s.runFinalize sink between
      ((a, finalized), after) := by
  simp only [passing, Writing.map, Writing.run_bind, Writing.run]
  rfl

/-- The calls that reach a base that takes everything, while byte strings are written into a stack
one after the other and the stack is then finalized, are those of its layers run one by one. -/
theorem run_finalize_eq_stages (layers : List Layer) (steady : ∀ l ∈ layers, l.Steady)
    (writes : List Bytes) (r : Sink.Record) :
    let (written, s, between) := Stack.run ⟨layers, fresh layers⟩ .accepting (.inOrder writes) r
    let (finalized, after) := s.runFinalize .accepting between
    written = .ok () ∧ finalized = .ok () ∧
      (passing layers (.inOrder writes)).smooth.2 = stages layers writes ∧
      after.portions = r.portions ++ (stages layers writes).filter (· ≠ []) := by
  have passed := smooth_passing steady (.inOrder writes)
  rw [Writing.smooth_inOrder] at passed
  have whole : (passing layers (.inOrder writes)).Whole := by
    apply (whole_carry ..).bind
    rintro ⟨answer, states⟩
    exact (whole_finalize ..).map _
  have portions := whole.portions_accepting r
  have results := (Writing.run_accepting (passing layers (.inOrder writes)) r).1
  rw [Writing.delivery, passed] at results
  rw [passed] at portions
  rw [run_passing] at portions results
  exact ⟨congrArg Prod.fst results, congrArg Prod.snd results, congrArg Prod.snd passed, portions⟩

/-- What the upper layer holds back up to its end still gets brackets on its way down, and what both
have written is held back by the lowest. -/
theorem run_finalize_held_twice :
    ∃ hold tag, Gallery.Encoders.hold none = .ok hold ∧ Gallery.Encoders.tag none = .ok tag ∧
      (∀ l ∈ [hold, tag, hold], l.Steady) ∧
      let (written, s, between) := Stack.run ⟨[hold, tag, hold], fresh _⟩ .accepting
        (.inOrder [Bytes.ofText "a", Bytes.ofText "bc"]) .empty
      let (finalized, after) := s.runFinalize .accepting between
      written = .ok () ∧ finalized = .ok () ∧
        after.portions = [Bytes.ofText "[", Bytes.ofText "()([)(abc)(])", Bytes.ofText "]"] := by
  obtain ⟨hold, held⟩ : ∃ hold, Gallery.Encoders.hold none = .ok hold := ⟨_, rfl⟩
  obtain ⟨tag, tagged⟩ : ∃ tag, Gallery.Encoders.tag none = .ok tag := ⟨_, rfl⟩
  have steady : ∀ l ∈ [hold, tag, hold], l.Steady := by
    simp only [List.forall_mem_cons, List.not_mem_nil, false_implies, implies_true, and_true]
    cases tagged
    exact ⟨Layer.steady_hold held, Layer.steady_stateless _, Layer.steady_hold held⟩
  obtain ⟨written, finalized, -, portions⟩ := run_finalize_eq_stages _ steady
    [Bytes.ofText "a", Bytes.ofText "bc"] .empty
  refine ⟨hold, tag, held, tagged, steady, written, finalized, portions.trans ?_⟩
  cases held
  cases tagged
  decide +kernel

end Stack
end LayeredTemplate
