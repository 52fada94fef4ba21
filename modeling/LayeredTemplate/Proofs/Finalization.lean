import LayeredTemplate.Proofs.Layering

/-! Finalizing a stack, watched event by event: which layer is visited, when the visit ends and how,
and who writes to whom meanwhile. What is watched is the same run, and so whatever the layers do and
wherever one of them or the sink fails, they are visited from the top down up to the first failure,
and a layer that has been visited is left alone. -/
namespace LayeredTemplate.Stack

/-! ## Watching -/

instance : DecidableEq (Except IoError Unit)
  | .ok (), .ok () => .isTrue rfl
  | .error e, .error e' => decidable_of_iff (e = e') ⟨congrArg _, Except.error.inj⟩
  | .ok _, .error _ | .error _, .ok _ => .isFalse nofun

/-- What happens in a stack while it is finalized. Layers are counted from the sink, which is number
zero itself. -/
inductive Event where
  | begun (layer : Nat)
  | ended (layer : Nat) (answer : Except IoError Unit)
  | passed (sender receiver : Nat) (bytes : Bytes)
  | flushed (sender : Nat)
  deriving DecidableEq

/-- What something watched comes to, the record of the sink after it, and what happened, in order.
-/
structure Seen (α : Type) where
  result : α
  record : Sink.Record
  log : List Event

/-- Something that is watched while it has a sink at its disposal. -/
def Watch (α : Type) := Sink.Record → Seen α

namespace Watch

variable {α : Type}

instance : Monad Watch where
  pure a := fun r => ⟨a, r, []⟩
  bind w f := fun r =>
    let first := w r
    let second := f first.result first.record
    ⟨second.result, second.record, first.log ++ second.log⟩

def note (e : Event) : Watch Unit := fun r => ⟨(), r, [e]⟩

/-- What is asked of the sink is not itself an event. -/
def ask (call : Sink.Record → α × Sink.Record) : Watch α := fun r => ⟨(call r).1, (call r).2, []⟩

/-- The same without being watched. -/
def unseen (w : Watch α) (r : Sink.Record) : α × Sink.Record := ((w r).result, (w r).record)

end Watch

open Watch (note ask)

variable (sink : Sink)

/-- A writing above something that has number `receiver` and serves single writes, each as a whole.
Flushing goes to the sink. -/
def watchAbove {α σ : Type} (receiver : Nat)
    (serve : Bytes → σ → Watch (Except IoError Unit × σ)) : Writing α → σ → Watch (α × σ)
  | .done a, s => pure (a, s)
  | .writeAll b next, s => do
      note (.passed (receiver + 1) receiver b)
      let (answer, s) ← serve b s
      watchAbove receiver serve (next answer) s
  | .write b next, s => do
      note (.passed (receiver + 1) receiver b)
      let (answer, s) ← serve b s
      watchAbove receiver serve (next (answer.map fun _ => b.length)) s
  | .flush next, s => do
      note (.flushed (receiver + 1))
      let answer ← ask sink.flush
      watchAbove receiver serve (next answer) s

/-- How the topmost of some layers serves a write, or the sink if there are none. -/
def serve : (layers : List Layer) → Bytes → States layers →
    Watch (Except IoError Unit × States layers)
  | [], b, s => do
      let answer ← ask (sink.writeAll b)
      pure (answer, s)
  | l :: below, b, (s, states) => do
      let ((answer, s), states) ← watchAbove sink below.length (serve below) (l.write b s) states
      pure (answer, (s, states))

/-- `carry`, run and watched. -/
def watch {α : Type} (layers : List Layer) (w : Writing α) (states : States layers) :
    Watch (α × States layers) :=
  watchAbove sink layers.length (serve sink layers) w states

/-- `finalize`, run and watched. -/
def watchFinalize : (layers : List Layer) → States layers → Watch (Except IoError Unit)
  | [], _ => pure (.ok ())
  | l :: below, (s, states) =>
      match l.finalize with
      | none => watchFinalize below states
      | some f => do
          note (.begun (below.length + 1))
          let ((answer, _), states) ← watch sink below (f s) states
          note (.ended (below.length + 1) answer)
          match answer with
          | .error e => pure (.error e)
          | .ok _ => watchFinalize below states

/-! ## The same run -/

theorem carry_flush {α : Type} (layers : List Layer) (next : Except IoError Unit → Writing α)
    (states : States layers) :
    carry layers (.flush next) states = .flush fun answer => carry layers (next answer) states := by
  induction layers generalizing α next with
  | nil => rfl
  | cons l below ih =>
      obtain ⟨s, states⟩ := states
      simp only [carry, Layer.carry, ih, Writing.map, Writing.bind]

theorem unseen_watch {α : Type} (layers : List Layer) (w : Writing α) (states : States layers)
    (r : Sink.Record) :
    (watch sink layers w states).unseen r = (carry layers w states).run sink r := by
  induction layers generalizing α w r with
  | nil =>
      rw [carry, Writing.run_map]
      induction w generalizing r with
      | done a => rfl
      | writeAll b next ih | write b next ih | flush next ih => exact ih _ _
  | cons l below ih =>
      obtain ⟨s, states⟩ := states
      rw [carry, Writing.run_map]
      induction w generalizing s states r with
      | done a =>
          rw [Layer.carry, carry_done]
          rfl
      | writeAll b next ih' | write b next ih' =>
          have served := ih (l.write b s) states r
          rw [Layer.carry, carry_bind, Writing.run_bind, ← served]
          exact ih' _ _ _ _
      | flush next ih' =>
          rw [Layer.carry, carry_flush]
          exact ih' _ _ _ _

/-! ## Who writes to whom -/

/-- A write that a layer with such a number, or one beneath it, sends to what is next beneath the
sender; or a flush. -/
def Event.Under (i : Nat) : Event → Prop
  | .passed sender receiver _ => receiver + 1 = sender ∧ sender ≤ i
  | .flushed sender => sender ≤ i
  | .begun _ | .ended _ _ => False

theorem Event.Under.mono {i j : Nat} {e : Event} (h : e.Under i) (le : i ≤ j) : e.Under j := by
  cases e with
  | passed sender receiver b => exact ⟨h.1, Nat.le_trans h.2 le⟩
  | flushed sender => exact Nat.le_trans h le
  | begun | ended => exact h

theorem under_log_watchAbove {α σ : Type} {receiver : Nat}
    {serve : Bytes → σ → Watch (Except IoError Unit × σ)}
    (served : ∀ b s r, ∀ e ∈ (serve b s r).log, e.Under (receiver + 1)) (w : Writing α) (s : σ)
    (r : Sink.Record) :
    ∀ e ∈ (watchAbove sink receiver serve w s r).log, e.Under (receiver + 1) := by
  induction w generalizing s r with
  | done a => exact List.forall_mem_nil _
  | writeAll b next ih | write b next ih =>
      refine List.forall_mem_append.2 ⟨List.forall_mem_singleton.2 ⟨rfl, Nat.le_refl _⟩, ?_⟩
      exact List.forall_mem_append.2 ⟨served b s r, ih _ _ _⟩
  | flush next ih =>
      refine List.forall_mem_append.2 ⟨List.forall_mem_singleton.2 (Nat.le_refl _), ?_⟩
      exact ih _ _ _

theorem under_log_serve (layers : List Layer) (b : Bytes) (states : States layers)
    (r : Sink.Record) : ∀ e ∈ (serve sink layers b states r).log, e.Under (layers.length + 1) := by
  induction layers generalizing b r with
  | nil => exact List.forall_mem_nil _
  | cons l below ih =>
      obtain ⟨s, states⟩ := states
      have served := under_log_watchAbove sink (fun b states r => ih b states r) (l.write b s)
        states r
      refine List.forall_mem_append.2 ⟨?_, List.forall_mem_nil _⟩
      intro e mem
      exact (served e mem).mono (Nat.le_succ _)

theorem under_log_watch {α : Type} (layers : List Layer) (w : Writing α) (states : States layers)
    (r : Sink.Record) : ∀ e ∈ (watch sink layers w states r).log, e.Under (layers.length + 1) :=
  under_log_watchAbove sink (under_log_serve sink layers) w states r

/-! ## What reaches the sink -/

/-- What an event does to the record of the sink. -/
def Event.replay : Sink.Record → Event → Sink.Record
  | r, .passed _ 0 b => (sink.writeAll b r).2
  | r, .flushed _ => (sink.flush r).2
  | r, _ => r

theorem replay_watchAbove {α σ : Type} {receiver : Nat}
    {serve : Bytes → σ → Watch (Except IoError Unit × σ)}
    (served : ∀ b s r, (serve b s r).log.foldl (Event.replay sink)
      (Event.replay sink r (.passed (receiver + 1) receiver b)) = (serve b s r).record)
    (w : Writing α) (s : σ) (r : Sink.Record) :
    (watchAbove sink receiver serve w s r).log.foldl (Event.replay sink) r =
      (watchAbove sink receiver serve w s r).record := by
  induction w generalizing s r with
  | done a => rfl
  | writeAll b next ih | write b next ih =>
      change List.foldl _ r (.passed (receiver + 1) receiver b :: ((serve b s r).log ++ _)) = _
      rw [List.foldl_cons, List.foldl_append, served]
      exact ih _ _ _
  | flush next ih => exact ih _ _ _

theorem replay_serve (layers : List Layer) (b : Bytes) (states : States layers) (r : Sink.Record) :
    (serve sink layers b states r).log.foldl (Event.replay sink)
      (Event.replay sink r (.passed (layers.length + 1) layers.length b)) =
        (serve sink layers b states r).record := by
  induction layers generalizing b r with
  | nil => rfl
  | cons l below ih =>
      obtain ⟨s, states⟩ := states
      change List.foldl _ r (_ ++ []) = _
      rw [List.append_nil]
      exact replay_watchAbove sink (fun b states r => ih b states r) (l.write b s) states r

theorem replay_watch {α : Type} (layers : List Layer) (w : Writing α) (states : States layers)
    (r : Sink.Record) :
    (watch sink layers w states r).log.foldl (Event.replay sink) r =
      (watch sink layers w states r).record :=
  replay_watchAbove sink (replay_serve sink layers) w states r

/-! ## Visits -/

/-- The layer whose visit begins. -/
def Event.begun? : Event → Option Nat
  | .begun i => some i
  | _ => none

/-- The layers visited, in order. -/
def visited (log : List Event) : List Nat := log.filterMap Event.begun?

/-- A visit, and what happens after it. -/
def visit (i : Nat) (during : List Event) (answer : Except IoError Unit) (later : List Event) :
    List Event :=
  .begun i :: (during ++ .ended i answer :: later)

theorem forall_mem_visit {p : Event → Prop} {i : Nat} {during later : List Event}
    {answer : Except IoError Unit} : (∀ e ∈ visit i during answer later, p e) ↔
      p (.begun i) ∧ (∀ e ∈ during, p e) ∧ p (.ended i answer) ∧ ∀ e ∈ later, p e := by
  rw [visit, List.forall_mem_cons, List.forall_mem_append, List.forall_mem_cons]

theorem mem_visit {e : Event} {i : Nat} {during later : List Event} {answer : Except IoError Unit} :
    e ∈ visit i during answer later ↔
      e = .begun i ∨ e ∈ during ∨ e = .ended i answer ∨ e ∈ later := by
  rw [visit, List.mem_cons, List.mem_append, List.mem_cons]

theorem getLast?_visit (i : Nat) (during : List Event) (answer : Except IoError Unit)
    (later : List Event) :
    (visit i during answer later).getLast? = later.getLast?.or (some (.ended i answer)) := by
  rw [visit, List.append_cons, ← List.cons_append, List.getLast?_append, ← List.cons_append,
    List.getLast?_concat]

theorem visited_visit {i : Nat} {during : List Event} (under : ∀ e ∈ during, e.Under i)
    (answer : Except IoError Unit) (later : List Event) :
    visited (visit i during answer later) = i :: visited later := by
  have nothing : during.filterMap Event.begun? = [] := by
    refine List.filterMap_eq_nil_iff.2 fun e mem => ?_
    have h := under e mem
    cases e with
    | begun j => exact h.elim
    | ended | passed | flushed => rfl
  change i :: List.filterMap Event.begun? (during ++ .ended i answer :: later) = _
  rw [List.filterMap_append, nothing]
  rfl

theorem watchFinalize_cons_none {l : Layer} (unfinalized : l.finalize = none) {below : List Layer}
    (s : l.State) (states : States below) :
    watchFinalize sink (l :: below) (s, states) = watchFinalize sink below states := by
  simp only [watchFinalize, unfinalized]

/-- One visit, and the others if it succeeds. -/
theorem watchFinalize_cons_some {l : Layer} {f : l.State → Writing (Except IoError Unit × l.State)}
    (finalized : l.finalize = some f) {below : List Layer} (s : l.State) (states : States below)
    (r : Sink.Record) :
    let i := below.length + 1
    let seen := watch sink below (f s) states r
    let later := watchFinalize sink below seen.result.2 seen.record
    watchFinalize sink (l :: below) (s, states) r = match seen.result.1.1 with
      | .error e => ⟨.error e, seen.record, visit i seen.log (.error e) []⟩
      | .ok () => ⟨later.result, later.record, visit i seen.log (.ok ()) later.log⟩ := by
  intro i seen later
  simp only [watchFinalize, finalized, bind, note]
  cases answer : seen.result.1.1 with
  | error e => rfl
  | ok => rfl

theorem replay_watchFinalize (layers : List Layer) (states : States layers) (r : Sink.Record) :
    let seen := watchFinalize sink layers states r
    seen.log.foldl (Event.replay sink) r = seen.record := by
  induction layers generalizing r with
  | nil => rfl
  | cons l below ih =>
      obtain ⟨s, states⟩ := states
      cases final : l.finalize with
      | none =>
          rw [watchFinalize_cons_none sink final]
          exact ih states r
      | some f =>
          have during := replay_watch sink below (f s) states r
          rw [watchFinalize_cons_some sink final]
          cases (watch sink below (f s) states r).result.1.1 with
          | error e =>
              simp only [visit, List.foldl_cons, List.foldl_append, Event.replay, during,
                List.foldl_nil]
          | ok =>
              simp only [visit, List.foldl_cons, List.foldl_append, Event.replay, during]
              exact ih _ _

/-- Finalizing reports each visit as it begins. -/
theorem run_finalize_eq (depth : Nat) (layers : List Layer) (states : States layers)
    (r : Sink.Record) :
    let seen := watchFinalize sink layers states r
    (finalize depth layers states).run sink r =
      ((seen.result, (visited seen.log).map (.finalizing · depth)), seen.record) := by
  induction layers generalizing r with
  | nil => rfl
  | cons l below ih =>
      obtain ⟨s, states⟩ := states
      cases final : l.finalize with
      | none =>
          rw [watchFinalize_cons_none sink final]
          simp only [finalize, final]
          exact ih states r
      | some f =>
          have same := unseen_watch sink below (f s) states r
          have under := under_log_watch sink below (f s) states r
          rw [watchFinalize_cons_some sink final]
          simp only [finalize, final, Writing.run_bind, ← same, Watch.unseen]
          generalize watch sink below (f s) states r = seen at under
          obtain ⟨⟨⟨answer, t⟩, states⟩, record, log⟩ := seen
          cases answer with
          | error e =>
              simp only [visited_visit under]
              rfl
          | ok =>
              simp only [visited_visit under, Writing.run_map, ih]
              rfl

/-! ## The order of visits -/

/-- The layers that can be finalized, from the top down. -/
def finalizable : List Layer → List Nat
  | [] => []
  | l :: below =>
      if l.finalize.isSome then (below.length + 1) :: finalizable below else finalizable below

theorem le_of_mem_finalizable {layers : List Layer} {i : Nat} (h : i ∈ finalizable layers) :
    i ≤ layers.length := by
  induction layers with
  | nil => cases h
  | cons l below ih =>
      have later (h : i ∈ finalizable below) : i ≤ below.length + 1 := Nat.le_succ_of_le (ih h)
      rw [finalizable] at h
      split at h
      · rcases List.mem_cons.1 h with rfl | h
        · exact Nat.le_refl _
        · exact later h
      · exact later h

theorem descending_finalizable (layers : List Layer) :
    (finalizable layers).Pairwise (· > ·) := by
  induction layers with
  | nil => exact .nil
  | cons l below ih =>
      rw [finalizable]
      split
      · refine List.pairwise_cons.2 ⟨?_, ih⟩
        intro i h
        exact Nat.lt_succ_of_le (le_of_mem_finalizable h)
      · exact ih

/-- How visiting some layers may go. Each visit ends before the next one begins, and a failure ends
them. During a visit no layer above the visited one does anything. -/
inductive Visits : List Nat → List Event → Except IoError Unit → Prop
  | complete : Visits [] [] (.ok ())
  | failed {i : Nat} {rest : List Nat} {during : List Event} {e : IoError} :
      (∀ x ∈ during, x.Under i) → Visits (i :: rest) (visit i during (.error e) []) (.error e)
  | succeeded {i : Nat} {rest : List Nat} {during later : List Event}
      {answer : Except IoError Unit} : (∀ x ∈ during, x.Under i) → Visits rest later answer →
      Visits (i :: rest) (visit i during (.ok ()) later) answer

theorem visits_watchFinalize (layers : List Layer) (states : States layers) (r : Sink.Record) :
    let seen := watchFinalize sink layers states r
    Visits (finalizable layers) seen.log seen.result := by
  induction layers generalizing r with
  | nil => exact .complete
  | cons l below ih =>
      obtain ⟨s, states⟩ := states
      cases final : l.finalize with
      | none =>
          rw [watchFinalize_cons_none sink final, finalizable, final]
          exact ih states r
      | some f =>
          have under := under_log_watch sink below (f s) states r
          rw [watchFinalize_cons_some sink final, finalizable, final]
          cases (watch sink below (f s) states r).result.1.1 with
          | error e => exact .failed under
          | ok => exact .succeeded under (ih _ _)

/-- The layer that is visited, or that sends something. -/
def Event.actor : Event → Nat
  | .begun i | .ended i _ => i
  | .passed sender _ _ | .flushed sender => sender

/-- Once the visit of a layer has begun no layer above it does anything, and once it has ended the
layer itself does nothing either. -/
def Event.Bounds : Event → Event → Prop
  | .begun i, later => later.actor ≤ i
  | .ended i _, later => later.actor < i
  | .passed .., _ | .flushed _, _ => True

theorem Event.Under.actor_le {i : Nat} {e : Event} (h : e.Under i) : e.actor ≤ i := by
  cases e with
  | passed sender receiver b => exact h.2
  | flushed sender => exact h
  | begun | ended => exact h.elim

theorem Event.Under.bounds {i : Nat} {e : Event} (h : e.Under i) (later : Event) :
    e.Bounds later := by
  cases e with
  | passed | flushed => trivial
  | begun | ended => exact h.elim

theorem pairwise_visit {i : Nat} {during later : List Event} {answer : Except IoError Unit}
    (under : ∀ e ∈ during, e.Under i) (below : ∀ e ∈ later, e.actor < i)
    (rest : later.Pairwise Event.Bounds) : (visit i during answer later).Pairwise Event.Bounds := by
  have ended : (Event.ended i answer :: later).Pairwise Event.Bounds :=
    List.pairwise_cons.2 ⟨below, rest⟩
  refine List.pairwise_cons.2 ⟨?_, List.pairwise_append.2 ⟨?_, ended, ?_⟩⟩
  · refine List.forall_mem_append.2 ⟨fun e mem => (under e mem).actor_le, ?_⟩
    exact List.forall_mem_cons.2 ⟨Nat.le_refl i, fun e mem => Nat.le_of_lt (below e mem)⟩
  · exact List.pairwise_of_forall_mem_list fun e mem e' _ => (under e mem).bounds e'
  · exact fun e mem e' _ => (under e mem).bounds e'

namespace Visits

variable {numbers : List Nat} {log : List Event} {answer : Except IoError Unit}

theorem visited_prefix (h : Visits numbers log answer) : visited log <+: numbers := by
  induction h with
  | complete => exact List.prefix_refl _
  | failed under =>
      rw [visited_visit under]
      exact List.prefix_cons_iff.2 (.inr ⟨[], rfl, List.nil_prefix⟩)
  | succeeded under _ ih =>
      rw [visited_visit under]
      exact List.prefix_cons_iff.2 (.inr ⟨_, rfl, ih⟩)

theorem receiver_eq (h : Visits numbers log answer) :
    ∀ e ∈ log, ∀ sender receiver b, e = .passed sender receiver b → receiver + 1 = sender := by
  have direct {during : List Event} {i : Nat} (under : ∀ e ∈ during, e.Under i) :
      ∀ e ∈ during, ∀ sender receiver b, e = .passed sender receiver b → receiver + 1 = sender := by
    rintro e mem sender receiver b rfl
    exact (under _ mem).1
  induction h with
  | complete => exact List.forall_mem_nil _
  | failed under => exact forall_mem_visit.2 ⟨nofun, direct under, nofun, List.forall_mem_nil _⟩
  | succeeded under _ ih => exact forall_mem_visit.2 ⟨nofun, direct under, nofun, ih⟩

theorem exists_actor_le (h : Visits numbers log answer) :
    ∀ e ∈ log, ∃ i ∈ numbers, e.actor ≤ i := by
  have visiting {e : Event} {i : Nat} {rest : List Nat} (le : e.actor ≤ i) :
      ∃ j ∈ i :: rest, e.actor ≤ j := ⟨i, List.mem_cons_self, le⟩
  induction h with
  | complete => exact List.forall_mem_nil _
  | failed under =>
      exact forall_mem_visit.2 ⟨visiting (Nat.le_refl _),
        fun e mem => visiting (under e mem).actor_le, visiting (Nat.le_refl _),
        List.forall_mem_nil _⟩
  | succeeded under _ ih =>
      refine forall_mem_visit.2 ⟨visiting (Nat.le_refl _),
        fun e mem => visiting (under e mem).actor_le, visiting (Nat.le_refl _), ?_⟩
      intro e mem
      obtain ⟨i, listed, le⟩ := ih e mem
      exact ⟨i, List.mem_cons_of_mem _ listed, le⟩

theorem pairwise_bounds (h : Visits numbers log answer) (descending : numbers.Pairwise (· > ·)) :
    log.Pairwise Event.Bounds := by
  induction h with
  | complete => exact .nil
  | failed under => exact pairwise_visit under (List.forall_mem_nil _) .nil
  | succeeded under rest ih =>
      obtain ⟨less, descending⟩ := List.pairwise_cons.1 descending
      refine pairwise_visit under ?_ (ih descending)
      intro e mem
      obtain ⟨i, listed, le⟩ := rest.exists_actor_le e mem
      exact Nat.lt_of_le_of_lt le (less i listed)

/-- A failure is the last event. -/
theorem of_failed (h : Visits numbers log answer) {i : Nat} {e : IoError}
    (mem : .ended i (.error e) ∈ log) :
    answer = .error e ∧ log.getLast? = some (.ended i (.error e)) := by
  induction h with
  | complete => cases mem
  | failed under =>
      rcases mem_visit.1 mem with other | during | here | later
      · cases other
      · exact (under _ during).elim
      · cases here
        exact ⟨rfl, getLast?_visit ..⟩
      · cases later
  | succeeded under _ ih =>
      rcases mem_visit.1 mem with other | during | other | later
      · cases other
      · exact (under _ during).elim
      · cases other
      · obtain ⟨fails, last⟩ := ih later
        exact ⟨fails, by rw [getLast?_visit, last, Option.some_or]⟩

theorem of_unfailed (h : Visits numbers log answer)
    (unfailed : ∀ i e, .ended i (.error e) ∉ log) :
    answer = .ok () ∧ visited log = numbers ∧ ∀ i ∈ numbers, .ended i (.ok ()) ∈ log := by
  induction h with
  | complete => exact ⟨rfl, rfl, List.forall_mem_nil _⟩
  | failed under => exact absurd (mem_visit.2 (.inr (.inr (.inl rfl)))) (unfailed _ _)
  | succeeded under _ ih =>
      obtain ⟨succeeds, all, ended⟩ :=
        ih fun i e later => unfailed i e (mem_visit.2 (.inr (.inr (.inr later))))
      refine ⟨succeeds, by rw [visited_visit under, all], List.forall_mem_cons.2 ⟨?_, ?_⟩⟩
      · exact mem_visit.2 (.inr (.inr (.inl rfl)))
      · exact fun i listed => mem_visit.2 (.inr (.inr (.inr (ended i listed))))

end Visits

/-! ## Finalizing -/

theorem mem_of_mem_visited {log : List Event} {i : Nat} (h : i ∈ visited log) :
    .begun i ∈ log := by
  obtain ⟨e, mem, begins⟩ := List.mem_filterMap.1 h
  cases e with
  | begun j =>
      cases begins
      exact mem
  | ended | passed | flushed => cases begins

/-- Whatever the layers hold and the sink has taken before, and wherever something fails: what is
watched is the run itself, its reports and its writes to the sink included. The layers that can be
finalized are visited from the top down, each once and all of them unless a visit fails. During a
visit nothing is sent by a layer above, and after it nothing by the layer itself either. A failure
is the end of it all. -/
theorem finalize_visits (s : Stack) (sink : Sink) (r : Sink.Record) :
    let seen := watchFinalize sink s.layers s.states r
    s.runFinalize sink r = (seen.result, seen.record) ∧
      ((finalize s.depth s.layers s.states).run sink r).1.2 =
        (visited seen.log).map (.finalizing · s.depth) ∧
      seen.log.foldl (Event.replay sink) r = seen.record ∧
      visited seen.log <+: finalizable s.layers ∧ (visited seen.log).Pairwise (· > ·) ∧
      (∀ sender receiver b, .passed sender receiver b ∈ seen.log → receiver + 1 = sender) ∧
      (∀ before after i, seen.log = before ++ .begun i :: after → ∀ e ∈ after, e.actor ≤ i) ∧
      (∀ before after i answer, seen.log = before ++ .ended i answer :: after →
        ∀ e ∈ after, e.actor < i) ∧
      (∀ i e, .ended i (.error e) ∈ seen.log → seen.result = .error e ∧
        seen.log.getLast? = some (.ended i (.error e)) ∧ ∀ j ∈ visited seen.log, i ≤ j) ∧
      ((∀ i e, .ended i (.error e) ∉ seen.log) → seen.result = .ok () ∧
        visited seen.log = finalizable s.layers ∧
        ∀ i ∈ finalizable s.layers, .ended i (.ok ()) ∈ seen.log) := by
  intro seen
  have visits : Visits (finalizable s.layers) seen.log seen.result :=
    visits_watchFinalize sink s.layers s.states r
  have same := run_finalize_eq sink s.depth s.layers s.states r
  have bounds := visits.pairwise_bounds (descending_finalizable s.layers)
  refine ⟨?_, ?_, replay_watchFinalize sink s.layers s.states r, visits.visited_prefix, ?_, ?_, ?_,
    ?_, ?_, visits.of_unfailed⟩
  · rw [runFinalize, same]
  · rw [same]
  · exact (descending_finalizable s.layers).sublist visits.visited_prefix.sublist
  · exact fun sender receiver b mem => visits.receiver_eq _ mem sender receiver b rfl
  · intro before after i split
    rw [split] at bounds
    exact (List.pairwise_cons.1 (List.pairwise_append.1 bounds).2.1).1
  · intro before after i answer split
    rw [split] at bounds
    exact (List.pairwise_cons.1 (List.pairwise_append.1 bounds).2.1).1
  · intro i e mem
    obtain ⟨fails, last⟩ := visits.of_failed mem
    refine ⟨fails, last, ?_⟩
    intro j listed
    -- the visit of `j` begins before the failure, which is the last event
    obtain ⟨before, whole⟩ := List.getLast?_eq_some_iff.1 last
    have began := mem_of_mem_visited listed
    rw [whole] at began bounds
    rcases List.mem_append.1 began with earlier | other
    · exact (List.pairwise_append.1 bounds).2.2 _ earlier _ List.mem_cons_self
    · cases List.mem_singleton.1 other

/-- The sink fails in the middle of what the topmost layer has held back, two layers beneath it. The
lowest one is not visited. -/
theorem finalize_visits_cut_off :
    ∃ hold tag unfinished, Gallery.Encoders.hold none = .ok hold ∧
      Gallery.Encoders.tag none = .ok tag ∧ Gallery.Encoders.unfinished none = .ok unfinished ∧
      let full : IoError := ⟨.other, "full"⟩
      let sink := Sink.Limits.toSink ⟨[], [1], none, none, false, false, full, by decide⟩
      let s := (Stack.run ⟨[hold, tag, unfinished], fresh _⟩ sink
        (.inOrder [Bytes.ofText "a"]) .empty).2.1
      let seen := watchFinalize sink s.layers s.states .empty
      finalizable s.layers = [3, 1] ∧
        seen.log = [.begun 3, .passed 3 2 [], .passed 2 1 [], .passed 1 0 [], .passed 2 1 [0x28],
          .passed 1 0 [0x28], .passed 2 1 [], .passed 1 0 [], .passed 2 1 [0x29],
          .passed 1 0 [0x29], .ended 3 (.error full)] ∧
        s.runFinalize sink .empty = (.error full, seen.record) ∧
        seen.log.foldl (Event.replay sink) .empty = seen.record ∧
        seen.record.held = Bytes.ofText "(" := by
  refine ⟨_, _, _, rfl, rfl, rfl, ?_⟩
  intro full sink s seen
  obtain ⟨same, -, replayed, -, -, -, -, -, failed, -⟩ := finalize_visits s sink .empty
  have log : seen.log = [.begun 3, .passed 3 2 [], .passed 2 1 [], .passed 1 0 [],
      .passed 2 1 [0x28], .passed 1 0 [0x28], .passed 2 1 [], .passed 1 0 [], .passed 2 1 [0x29],
      .passed 1 0 [0x29], .ended 3 (.error full)] := by decide +kernel
  have stopped : .ended 3 (.error full) ∈ seen.log := by simp [log]
  refine ⟨rfl, log, ?_, replayed, by decide +kernel⟩
  rw [same, (failed 3 full stopped).1]

end LayeredTemplate.Stack
