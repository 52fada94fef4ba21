import LayeredTemplate.Proofs.Layering

/-! What a writing offers to a sink and what it ends with, whatever it is answered. A layer decides
what is offered beneath it, and what is written above it decides the result. -/
namespace LayeredTemplate

namespace Sink

variable (sink : Sink) {b : Bytes}

theorem Call.mem_taken {answer : Answer} {c : UInt8} (taken : c ∈ Call.taken ⟨b, answer⟩) :
    c ∈ b := by
  cases answer with
  | took n => exact List.mem_of_mem_take taken
  | stalled => cases taken
  | failed e => cases taken

theorem held_settle (b : Bytes) (fuel : Nat) (r : Record) :
    (sink.settle b fuel r).2.held = r.held ++ Call.taken ⟨b, (sink.settle b fuel r).1⟩ := by
  induction fuel generalizing r with
  | zero => exact Record.held_add r _
  | succ fuel ih =>
      rw [settle, call]
      have called := Record.held_add r ⟨b, sink.respond r b⟩
      cases answer : sink.respond r b with
      | took n =>
          rw [answer] at called
          exact called
      | stalled =>
          rw [answer] at called
          exact called
      | failed e =>
          rw [answer] at called
          simp only [Call.taken, List.append_nil] at called
          simp only
          split
          · rw [ih, called]
          · rw [called, Call.taken, List.append_nil]

/-- All of a byte string but `rest` has come to what the sink holds. -/
def Record.Took (r after : Record) (b rest : Bytes) : Prop :=
  ∃ taken, b = taken ++ rest ∧ after.held = r.held ++ taken

theorem Record.took_nothing {r after : Record} (same : after.held = r.held) (b : Bytes) :
    r.Took after b b := ⟨[], rfl, same.trans (List.append_nil _).symm⟩

theorem Record.Took.trans {r between after : Record} {left rest : Bytes}
    (first : r.Took between b left) (second : between.Took after left rest) :
    r.Took after b rest := by
  obtain ⟨x, split, held⟩ := first
  obtain ⟨y, split', held'⟩ := second
  refine ⟨x ++ y, ?_, ?_⟩
  · rw [split, split', List.append_assoc]
  · rw [held', held, List.append_assoc]

/-- A sink that refuses an offer keeps what it has. With fuel for each byte nothing is left over
unless it refuses. -/
theorem exists_took_pour (fuel : Nat) (b : Bytes) (r : Record) :
    ∃ rest, r.Took (sink.pour fuel b r).2 b rest ∧
      ((sink.pour fuel b r).1 = .ok () → b.length ≤ fuel → rest = []) := by
  induction fuel generalizing b r with
  | zero =>
      refine ⟨b, Record.took_nothing rfl b, ?_⟩
      intro _ short
      exact List.eq_nil_of_length_eq_zero (Nat.le_zero.1 short)
  | succ fuel ih =>
      have refused {after : Record} {answer : Except IoError Unit} {e : IoError}
          (held : after.held = r.held ++ []) (fails : answer = .error e) :
          ∃ rest, r.Took after b rest ∧ (answer = .ok () → b.length ≤ fuel + 1 → rest = []) := by
        refine ⟨b, Record.took_nothing (held.trans (List.append_nil _)) b, ?_⟩
        intro succeeds
        cases fails.symm.trans succeeds
      have settled := sink.held_settle b (sink.patience r) r
      rw [pour]
      split
      · rename_i nothing
        exact ⟨b, Record.took_nothing rfl b, fun _ _ => nothing⟩
      · generalize sink.settle b (sink.patience r) r = done at settled ⊢
        obtain ⟨answer, after⟩ := done
        cases answer with
        | took n =>
            cases n with
            | zero => exact refused settled rfl
            | succ n =>
                obtain ⟨rest, later, all⟩ := ih (b.drop (n + 1)) after
                have first : r.Took after b (b.drop (n + 1)) :=
                  ⟨_, (List.take_append_drop ..).symm, settled⟩
                refine ⟨rest, first.trans later, ?_⟩
                intro succeeds short
                exact all succeeds (by rw [List.length_drop]; omega)
        | stalled => exact refused settled rfl
        | failed e => exact refused settled rfl

/-- Of a byte string to be written as a whole a sink takes a beginning, and all of it if that
succeeds. -/
theorem exists_took_writeAll (b : Bytes) (r : Record) :
    ∃ rest, r.Took (sink.writeAll b r).2 b rest ∧
      ((sink.writeAll b r).1 = .ok () → rest = []) := by
  obtain ⟨rest, took, all⟩ := sink.exists_took_pour b.length b r
  exact ⟨rest, took, fun succeeds => all succeeds (Nat.le_refl _)⟩

theorem held_write (b : Bytes) (r : Record) :
    (sink.write b r).2.held = r.held ++ Call.taken ⟨b, sink.respond r b⟩ := by
  have after : (sink.write b r).2 = r.add ⟨b, sink.respond r b⟩ := by
    rw [write, call]
    cases sink.respond r b <;> rfl
  rw [after, Record.held_add]

theorem held_flush (r : Record) : (sink.flush r).2.held = r.held := by
  rw [flush]
  cases sink.flushError r <;> rfl

end Sink

namespace Writing

universe u v

variable {α : Type u} {β : Type v} {offers : Bytes → Prop} {ends : α → Prop} {ends' : β → Prop}

/-- Whatever the writing is answered, it offers only such byte strings and ends only with such
results. -/
def Keeps (offers : Bytes → Prop) (ends : α → Prop) : Writing α → Prop
  | .done a => ends a
  | .writeAll b next => offers b ∧ ∀ answer, (next answer).Keeps offers ends
  | .write b next => offers b ∧ ∀ answer, (next answer).Keeps offers ends
  | .flush next => ∀ answer, (next answer).Keeps offers ends

theorem keeps_true (w : Writing α) : w.Keeps (fun _ => True) fun _ => True := by
  induction w with
  | done a => trivial
  | writeAll b next ih => exact ⟨trivial, ih⟩
  | write b next ih => exact ⟨trivial, ih⟩
  | flush next ih => exact ih

theorem Keeps.bind {w : Writing α} (h : w.Keeps offers ends) {f : α → Writing β}
    (rest : ∀ a, ends a → (f a).Keeps offers ends') : (w.bind f).Keeps offers ends' := by
  induction w with
  | done a => exact rest a h
  | writeAll b next ih =>
      refine ⟨h.1, ?_⟩
      intro answer
      exact ih answer (h.2 answer)
  | write b next ih =>
      refine ⟨h.1, ?_⟩
      intro answer
      exact ih answer (h.2 answer)
  | flush next ih =>
      intro answer
      exact ih answer (h answer)

theorem Keeps.map {w : Writing α} (h : w.Keeps offers ends) {f : α → β}
    (gives : ∀ a, ends a → ends' (f a)) : (w.map f).Keeps offers ends' := h.bind gives

theorem Keeps.mono {ends' : α → Prop} {w : Writing α} (h : w.Keeps offers ends)
    (more : ∀ a, ends a → ends' a) : w.Keeps offers ends' := by
  induction w with
  | done a => exact more a h
  | writeAll b next ih => exact ⟨h.1, fun answer => ih answer (h.2 answer)⟩
  | write b next ih => exact ⟨h.1, fun answer => ih answer (h.2 answer)⟩
  | flush next ih => exact fun answer => ih answer (h answer)

theorem Keeps.of_map {w : Writing α} {f : α → β} (h : (w.map f).Keeps offers ends') :
    w.Keeps offers fun a => ends' (f a) := by
  induction w with
  | done a => exact h
  | writeAll b next ih => exact ⟨h.1, fun answer => ih answer (h.2 answer)⟩
  | write b next ih => exact ⟨h.1, fun answer => ih answer (h.2 answer)⟩
  | flush next ih => exact fun answer => ih answer (h answer)

theorem Keeps.whole {w : Writing α} (h : w.Keeps offers ends) : w.whole.Keeps offers ends := by
  induction w with
  | done a => exact h
  | writeAll b next ih =>
      refine ⟨h.1, ?_⟩
      intro answer
      exact ih answer (h.2 answer)
  | write b next ih =>
      refine ⟨h.1, ?_⟩
      intro answer
      exact ih _ (h.2 _)
  | flush next ih =>
      intro answer
      exact ih answer (h answer)

theorem keeps_sendEach {stop : IoError → α} (stops : ∀ e, ends (stop e)) {next : Writing α}
    (rest : next.Keeps offers ends) {fragments : List Bytes} (kind : ∀ b ∈ fragments, offers b) :
    (sendEach stop next fragments).Keeps offers ends := by
  induction fragments with
  | nil => exact rest
  | cons b fragments ih =>
      obtain ⟨first, others⟩ := List.forall_mem_cons.1 kind
      refine ⟨first, ?_⟩
      intro answer
      cases answer with
      | ok => exact ih others
      | error e => exact stops e

theorem Keeps.smooth_ends {w : Writing α} (h : w.Keeps offers ends) : ends w.smooth.1 := by
  induction w with
  | done a => exact h
  | writeAll b next ih => exact ih _ (h.2 _)
  | write b next ih => exact ih _ (h.2 _)
  | flush next ih => exact ih _ (h _)

/-- Running the writing ends with such a result. -/
theorem Keeps.run_ends {w : Writing α} (h : w.Keeps offers ends) (sink : Sink) (r : Sink.Record) :
    ends (w.run sink r).1 := by
  induction w generalizing r with
  | done a => exact h
  | writeAll b next ih => exact ih _ (h.2 _) _
  | write b next ih => exact ih _ (h.2 _) _
  | flush next ih => exact ih _ (h _) _

/-- A writing that offers nothing but good bytes adds nothing else to a sink, though the sink may
take them in any portions, or fail. -/
theorem Keeps.run_held {good : UInt8 → Prop} {w : Writing α}
    (h : w.Keeps (fun b => ∀ c ∈ b, good c) ends) (sink : Sink) (r : Sink.Record) :
    ∃ added, (w.run sink r).2.held = r.held ++ added ∧ ∀ c ∈ added, good c := by
  have step {r between after : Sink.Record} {x : Bytes} (held : between.held = r.held ++ x)
      (first : ∀ c ∈ x, good c)
      (later : ∃ added, after.held = between.held ++ added ∧ ∀ c ∈ added, good c) :
      ∃ added, after.held = r.held ++ added ∧ ∀ c ∈ added, good c := by
    obtain ⟨y, held', second⟩ := later
    refine ⟨x ++ y, ?_, ?_⟩
    · rw [held', held, List.append_assoc]
    · exact List.forall_mem_append.2 ⟨first, second⟩
  induction w generalizing r with
  | done a => exact ⟨[], (List.append_nil _).symm, List.forall_mem_nil _⟩
  | writeAll b next ih =>
      obtain ⟨rest, ⟨taken, split, held⟩, -⟩ := sink.exists_took_writeAll b r
      have offered : ∀ c ∈ taken ++ rest, good c := split ▸ h.1
      exact step held (List.forall_mem_append.1 offered).1 (ih _ (h.2 _) _)
  | write b next ih =>
      refine step (sink.held_write b r) ?_ (ih _ (h.2 _) _)
      intro c taken
      exact h.1 c (Sink.Call.mem_taken taken)
  | flush next ih =>
      obtain ⟨added, held, mem⟩ := ih _ (h (sink.flush r).1) (sink.flush r).2
      rw [sink.held_flush] at held
      exact ⟨added, held, mem⟩

end Writing

open Writing (Keeps)

variable {α : Type} {offers : Bytes → Prop}

/-! ## Through layers -/

/-- What is offered beneath a layer is up to the layer, and the result to what is written above. -/
theorem Layer.keeps_carry {l : Layer} {above : Bytes → Prop}
    (writes : ∀ b, above b → ∀ s, (l.write b s).Keeps offers fun _ => True) {ends : α → Prop}
    {w : Writing α} (h : w.Keeps above ends) (s : l.State) :
    (l.carry w s).Keeps offers fun a => ends a.1 := by
  induction w generalizing s with
  | done a => exact h
  | writeAll b next ih =>
      apply (writes b h.1 s).bind
      rintro ⟨answer, s⟩ -
      exact ih _ (h.2 _) s
  | write b next ih =>
      apply (writes b h.1 s).bind
      rintro ⟨answer, s⟩ -
      exact ih _ (h.2 _) s
  | flush next ih =>
      intro answer
      exact ih answer (h answer) s

namespace Stack

theorem keeps_carry (layers : List Layer) {ends : α → Prop} {w : Writing α}
    (h : w.Keeps (fun _ => True) ends) (states : States layers) :
    (carry layers w states).Keeps (fun _ => True) fun a => ends a.1 := by
  induction layers generalizing α w with
  | nil => exact h.whole.map fun _ ending => ending
  | cons l below ih =>
      obtain ⟨s, states⟩ := states
      have top := Layer.keeps_carry (fun b _ s => (l.write b s).keeps_true) h s
      exact (ih top states).map fun _ ending => ending

/-- A directive ends with what its head ends with, unless finalizing fails. -/
theorem keeps_pass (layers : List Layer) {ends : Except Failure Unit → Prop}
    (succeeds : ends (.ok ())) (breaks : ∀ e, ends (.error (.io e)))
    {head : Writing (Except Failure Unit)} (h : head.Keeps (fun _ => True) ends) :
    (pass layers head).Keeps (fun _ => True) ends := by
  apply (keeps_carry layers h (fresh layers)).bind
  rintro ⟨result, states⟩ ending
  cases result with
  | error e => exact ending
  | ok =>
      apply (close layers states).keeps_true.map
      intro answer _
      cases answer with
      | ok => exact succeeds
      | error e => exact breaks e

end Stack
end LayeredTemplate
