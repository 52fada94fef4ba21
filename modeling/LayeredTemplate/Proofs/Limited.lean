import LayeredTemplate.Proofs.Smooth

/-! Limited sinks: they take what they are offered in parts, with interruptions, and refuse the
rest once they are full. Writing to one fills it to the last byte, and no call follows a refusal. -/
namespace LayeredTemplate.Sink

/-- The error of a write that gets this answer. After an interruption the call is made again. -/
def Answer.refusal? : Answer → Option IoError
  | .took 0 | .stalled => some .nothingTaken
  | .took (_ + 1) => none
  | .failed e => if e.kind = .interrupted then none else some e

def Answer.Interrupted (answer : Answer) : Prop := ∃ e, answer = .failed e ∧ e.kind = .interrupted

/-- The sink takes at least a byte of what it is offered, but no more than it has room for, until it
holds `capacity` bytes, and refuses every byte from then on. Any call may be interrupted instead. -/
structure Truncates (sink : Sink) (capacity : Nat) (error : IoError) : Prop where
  takes : ∀ r b, b ≠ [] → r.size < capacity → (sink.respond r b).Interrupted ∨
    ∃ n, sink.respond r b = .took (n + 1) ∧ r.size + min (n + 1) b.length ≤ capacity
  refuses : ∀ r b, b ≠ [] → capacity ≤ r.size → (sink.respond r b).Interrupted ∨
    (sink.respond r b).refusal? = some error

/-! ## Calls -/

namespace Record

def Unrefused (r : Record) : Prop := ∀ c ∈ r.calls, c.answer.refusal? = none

/-- No call follows a refused one. -/
def EndsAtRefusal (r : Record) : Prop := ∀ c ∈ r.calls.tail, c.answer.refusal? = none

theorem Unrefused.add {r : Record} (h : r.Unrefused) {c : Call}
    (goes_on : c.answer.refusal? = none) : (r.add c).Unrefused :=
  List.forall_mem_cons.2 ⟨goes_on, h⟩

theorem Unrefused.endsAtRefusal_add {r : Record} (h : r.Unrefused) (c : Call) :
    (r.add c).EndsAtRefusal := h

theorem Unrefused.endsAtRefusal {r : Record} (h : r.Unrefused) : r.EndsAtRefusal := fun c hc =>
  h c (List.mem_of_mem_tail hc)

theorem size_of_held {r s : Record} {x : Bytes} (held : s.held = r.held ++ x) :
    s.size = r.size + x.length := by
  rw [← s.length_held, held, List.length_append, r.length_held]

end Record

theorem Answer.Interrupted.refusal?_eq_none {answer : Answer} (h : answer.Interrupted) :
    answer.refusal? = none := by
  obtain ⟨e, rfl, interrupted⟩ := h
  exact if_pos interrupted

theorem Answer.cases_of_refused {answer : Answer} {error : IoError}
    (refused : answer.refusal? = some error) :
    (answer = .took 0 ∨ answer = .stalled) ∧ error = .nothingTaken ∨ answer = .failed error := by
  cases answer with
  | took n =>
      cases n with
      | zero => exact .inl ⟨.inl rfl, (Option.some.inj refused).symm⟩
      | succ n => cases refused
  | stalled => exact .inl ⟨.inr rfl, (Option.some.inj refused).symm⟩
  | failed e =>
      rw [refusal?] at refused
      split at refused
      · cases refused
      · cases refused
        exact .inr rfl

/-- A call that is made again while it is interrupted comes to one that is not. In between the sink
takes nothing. -/
theorem settle_eq_call (sink : Sink) (b : Bytes) {fuel : Nat} {r : Record}
    (enough : sink.patience r ≤ fuel) (unrefused : r.Unrefused) :
    ∃ waited : Record, sink.settle b fuel r = sink.call b waited ∧
      ¬ (sink.respond waited b).Interrupted ∧ waited.held = r.held ∧ waited.size = r.size ∧
      waited.Unrefused := by
  induction fuel generalizing r with
  | zero =>
      -- An interruption would leave less patience than none.
      refine ⟨r, rfl, ?_, rfl, rfl, unrefused⟩
      rintro ⟨e, failed, interrupted⟩
      have less := sink.settles r b e failed interrupted
      omega
  | succ fuel ih =>
      by_cases again : (sink.respond r b).Interrupted
      · have goes_on := again.refusal?_eq_none
        obtain ⟨e, failed, interrupted⟩ := again
        have less := sink.settles r b e failed interrupted
        rw [failed] at goes_on
        obtain ⟨waited, settled, lasting, held, size, still⟩ :=
          ih (r := r.add ⟨b, .failed e⟩) (by omega) (unrefused.add goes_on)
        refine ⟨waited, ?_, lasting, ?_, ?_, still⟩
        · rw [← settled, settle]
          simp only [call, failed, interrupted, ↓reduceIte]
        · rw [held, Record.held_add]
          exact List.append_nil _
        · rw [size]
          exact Nat.zero_add _
      · refine ⟨r, ?_, again, rfl, rfl, unrefused⟩
        rw [settle]
        cases answer : sink.respond r b with
        | took n => simp only [call, answer]
        | stalled => simp only [call, answer]
        | failed e =>
            have lasting : e.kind ≠ .interrupted := fun interrupted =>
              again ⟨e, answer, interrupted⟩
            simp only [call, answer, if_neg lasting]

namespace Truncates

variable {sink : Sink} {capacity : Nat} {error : IoError}

/-- With room left, one portion is taken. -/
theorem pour_of_room (limited : sink.Truncates capacity error) {b : Bytes} (left : b ≠ [])
    {r : Record} (unrefused : r.Unrefused) (room : r.size < capacity) (fuel : Nat) :
    ∃ n next, 0 < n ∧ n ≤ b.length ∧ r.size + n ≤ capacity ∧
      sink.pour (fuel + 1) b r = sink.pour fuel (b.drop n) next ∧
      next.held = r.held ++ b.take n ∧ next.Unrefused := by
  obtain ⟨waited, settled, lasting, held, size, still⟩ :=
    settle_eq_call sink b (Nat.le_refl (sink.patience r)) unrefused
  have positive : 0 < b.length := List.length_pos_iff.2 left
  rcases limited.takes waited b left (by omega) with interrupted | ⟨n, took, fits⟩
  · exact absurd interrupted lasting
  refine ⟨min (n + 1) b.length, waited.add ⟨b, .took (n + 1)⟩, by omega, by omega, by omega,
    ?_, ?_, still.add rfl⟩
  · rw [pour, if_neg left, settled, call, took]
    by_cases emptied : b.length ≤ n + 1
    · simp only [Nat.min_eq_right emptied, List.drop_length, List.drop_of_length_le emptied]
    · rw [Nat.min_eq_left (by omega)]
  · rw [Record.held_add, held]
    simp only [Call.taken, List.append_cancel_left_eq]
    exact List.take_eq_take_min

/-- With no room left, nothing is taken, and the call is the last. -/
theorem pour_of_full (limited : sink.Truncates capacity error) {b : Bytes} (left : b ≠ [])
    {r : Record} (unrefused : r.Unrefused) (full : capacity ≤ r.size) (fuel : Nat) :
    ∃ after, sink.pour (fuel + 1) b r = (.error error, after) ∧ after.held = r.held ∧
      after.EndsAtRefusal := by
  obtain ⟨waited, settled, lasting, held, size, still⟩ :=
    settle_eq_call sink b (Nat.le_refl (sink.patience r)) unrefused
  rcases limited.refuses waited b left (by omega) with interrupted | refused
  · exact absurd interrupted lasting
  refine ⟨waited.add ⟨b, sink.respond waited b⟩, ?_, ?_, still.endsAtRefusal_add _⟩
  · rw [pour, if_neg left, settled, call]
    rcases Answer.cases_of_refused refused with ⟨answer | answer, rfl⟩ | answer <;> rw [answer]
  · rw [Record.held_add, held]
    rcases Answer.cases_of_refused refused with ⟨answer | answer, -⟩ | answer <;>
      simp [Call.taken, answer]

/-! ## Whole byte strings -/

/-- What fits is taken whole. -/
theorem pour_of_fits (limited : sink.Truncates capacity error) {fuel : Nat} {b : Bytes}
    (enough : b.length ≤ fuel) {r : Record} (unrefused : r.Unrefused)
    (fits : b.length ≤ capacity - r.size) :
    ∃ after, sink.pour fuel b r = (.ok (), after) ∧ after.held = r.held ++ b ∧
      after.Unrefused := by
  induction fuel generalizing b r with
  | zero =>
      cases List.length_eq_zero_iff.1 (Nat.le_zero.1 enough)
      exact ⟨r, rfl, (List.append_nil _).symm, unrefused⟩
  | succ fuel ih =>
      by_cases nothing : b = []
      · cases nothing
        exact ⟨r, rfl, (List.append_nil _).symm, unrefused⟩
      have positive : 0 < b.length := List.length_pos_iff.2 nothing
      obtain ⟨n, next, taken, within, room, step, held, still⟩ :=
        limited.pour_of_room nothing unrefused (by omega) fuel
      have size := Record.size_of_held held
      rw [List.length_take_of_le within] at size
      obtain ⟨after, rest, all, still⟩ := ih (b := b.drop n) (r := next)
        (by rw [List.length_drop]; omega) still (by rw [List.length_drop]; omega)
      refine ⟨after, step.trans rest, ?_, still⟩
      rw [all, held, List.append_assoc, List.take_append_drop]

/-- Of what does not fit the front is taken that does, and then the write is refused. -/
theorem pour_of_excess (limited : sink.Truncates capacity error) {fuel : Nat} {b : Bytes}
    (enough : b.length ≤ fuel) {r : Record} (unrefused : r.Unrefused)
    (excess : capacity - r.size < b.length) :
    ∃ after, sink.pour fuel b r = (.error error, after) ∧
      after.held = r.held ++ b.take (capacity - r.size) ∧ after.EndsAtRefusal := by
  induction fuel generalizing b r with
  | zero => omega
  | succ fuel ih =>
      have left : b ≠ [] := List.length_pos_iff.1 (by omega)
      by_cases full : capacity ≤ r.size
      · obtain ⟨after, refused, held, ends⟩ := limited.pour_of_full left unrefused full fuel
        refine ⟨after, refused, ?_, ends⟩
        rw [held, Nat.sub_eq_zero_of_le full, List.take_zero, List.append_nil]
      · obtain ⟨n, next, taken, within, room, step, held, still⟩ :=
          limited.pour_of_room left unrefused (by omega) fuel
        have size := Record.size_of_held held
        rw [List.length_take_of_le within] at size
        obtain ⟨after, rest, all, ends⟩ := ih (b := b.drop n) (r := next)
          (by rw [List.length_drop]; omega) still (by rw [List.length_drop]; omega)
        -- What the portion took is missing from the room for the rest.
        have whole : capacity - r.size = n + (capacity - next.size) := by omega
        refine ⟨after, step.trans rest, ?_, ends⟩
        rw [all, held, List.append_assoc, whole, List.take_add]

end Truncates

namespace Limits

/-- How a sink answers that falls short only by its capacity, by interruptions and by taking less
than it is offered. -/
theorem respond_eq (limits : Limits) {capacity : Nat} (bounded : limits.capacity = some capacity)
    (reliable : limits.failing = []) (portions : limits.portion ≠ some 0) (r : Record) {b : Bytes}
    (left : b ≠ []) :
    ∃ n, limits.respond r b =
      if r.number ∈ limits.interrupted then .failed .interruption
      else if capacity ≤ r.size then
        if limits.stalls then .stalled else .failed limits.error
      else .took (min (n + 1) (capacity - r.size)) := by
  have positive : 0 < b.length := List.length_pos_iff.2 left
  unfold respond
  rw [bounded, reliable]
  simp only [List.not_mem_nil, ↓reduceIte]
  cases portion : limits.portion with
  | none =>
      refine ⟨b.length - 1, ?_⟩
      simp only [positive, true_and, Nat.sub_add_cancel positive]
  | some m =>
      have some_taken : 0 < (b.take m).length := by
        have nonzero : m ≠ 0 := by
          rintro rfl
          exact portions portion
        rw [List.length_take]
        omega
      refine ⟨(b.take m).length - 1, ?_⟩
      simp only [some_taken, true_and, Nat.sub_add_cancel some_taken]

theorem truncates_toSink (limits : Limits) {capacity : Nat}
    (bounded : limits.capacity = some capacity) (reliable : limits.failing = [])
    (portions : limits.portion ≠ some 0) :
    limits.toSink.Truncates capacity (if limits.stalls then .nothingTaken else limits.error) := by
  constructor
  · intro r b left room
    obtain ⟨n, answer⟩ := limits.respond_eq bounded reliable portions r left
    by_cases interrupted : r.number ∈ limits.interrupted
    · rw [if_pos interrupted] at answer
      exact .inl ⟨.interruption, answer, rfl⟩
    · rw [if_neg interrupted, if_neg (Nat.not_le.2 room)] at answer
      refine .inr ⟨min n (capacity - r.size - 1), answer.trans ?_, by omega⟩
      congr 1
      omega
  · intro r b left full
    obtain ⟨n, answer⟩ := limits.respond_eq bounded reliable portions r left
    by_cases interrupted : r.number ∈ limits.interrupted
    · rw [if_pos interrupted] at answer
      exact .inl ⟨.interruption, answer, rfl⟩
    · rw [if_neg interrupted, if_pos full] at answer
      refine .inr ?_
      change (limits.respond r b).refusal? = _
      rw [answer]
      cases limits.stalls with
      | true => rfl
      | false => exact if_neg limits.lasting

end Limits
end LayeredTemplate.Sink
