import LayeredTemplate.Proofs.Parity
import LayeredTemplate.Proofs.Sessions

/-! Reading by chunks can be taken up again at any point: a call that fails has done nothing, and
what is pending is carried to the next one. So calls in a row, whatever fails between them, come to
one read of all the bytes. -/
namespace LayeredTemplate

namespace Source

/-- A failure is no interruption, and no chunk reads as the end. -/
def Event.Regular : Event → Prop
  | .chunk b => b ≠ []
  | .interrupted => True
  | .failed e => e.kind ≠ .interrupted

instance : DecidablePred Event.Regular
  | .chunk b => inferInstanceAs (Decidable (b ≠ []))
  | .interrupted => .isTrue trivial
  | .failed e => inferInstanceAs (Decidable (e.kind ≠ .interrupted))

def Regular (s : Source) : Prop := ∀ e ∈ s.events, e.Regular

instance (s : Source) : Decidable s.Regular :=
  inferInstanceAs (Decidable (∀ e ∈ s.events, e.Regular))

def Event.chunk? : Event → Option Bytes
  | .chunk b => some b
  | .interrupted | .failed _ => none

/-- The chunk that the next bytes come from. -/
def present (s : Source) : Bytes :=
  if s.unread ≠ [] then s.unread else (s.events.findSome? Event.chunk?).getD []

theorem weight_afterFailure_lt {s : Source} {e : IoError} (failed : s.fill = .error e) :
    s.afterFailure.weight < s.weight := by
  have less (events : List Event) (failed : (nextChunk events).1 = .error e) :
      Event.weight (nextChunk events).2 < Event.weight events := by
    induction events with
    | nil => cases failed
    | cons event rest ih =>
        cases event with
        | chunk b => cases failed
        | interrupted =>
            have := ih failed
            simp only [nextChunk, Event.weight]; omega
        | failed e =>
            simp only [nextChunk, Event.weight]; omega
  unfold fill at failed
  split at failed
  · cases failed
  · split at failed
    · cases failed
    · rename_i next
      cases failed
      have := less s.events (by rw [next])
      simp only [afterFailure, weight]; omega

/-- The source is at its end, or gives its present chunk, or fails and loses nothing. -/
inductive Filled (s : Source) : Except IoError Source → Prop
  | ended : s.remaining = [] → Filled s (.ok (.ofEvents []))
  | given {later : List Event} : s.present ≠ [] → s.remaining = s.present ++ Event.bytes later →
      (ofEvents later).Regular → Filled s (.ok ⟨s.present, later⟩)
  | failed {e : IoError} : e.kind ≠ .interrupted → s.afterFailure.remaining = s.remaining →
      s.afterFailure.Regular → Filled s (.error e)

theorem Regular.filled {s : Source} (regular : s.Regular) : s.Filled s.fill := by
  obtain ⟨unread, events⟩ := s
  by_cases used : unread = []
  · subst used
    induction events with
    | nil => exact .ended rfl
    | cons event events ih =>
        obtain ⟨first, rest⟩ := List.forall_mem_cons.1 regular
        cases event with
        | chunk b => exact .given first rfl rest
        | interrupted =>
            -- the interruption is passed over by all that a filled source is described by
            generalize filled : fill ⟨[], events⟩ = answer at ih
            have passed : fill ⟨[], .interrupted :: events⟩ = answer := filled
            rw [passed]
            cases ih rest with
            | ended nothing => exact .ended nothing
            | given nonempty bytes later => exact .given nonempty bytes later
            | failed lasting same later => exact .failed lasting same later
        | failed e => exact .failed first rfl rest
  · have given : fill ⟨unread, events⟩ = .ok ⟨present ⟨unread, events⟩, events⟩ := by
      simp only [fill, present, ne_eq, used, not_false_eq_true, ↓reduceIte]
    have unread_eq : present ⟨unread, events⟩ = unread := if_pos used
    rw [given]
    refine .given ?_ ?_ regular
    · rwa [unread_eq]
    · rw [unread_eq]
      rfl

end Source

namespace Scan

open Bytes (backslash)
open Escape (find splitFirst resolve trailing dangles)

variable {escapes : Escapes} {delim : UInt8} {pending : Bool}

/-! ## What a sweep leaves -/

/-- What follows a delimiter is left as it is, and nothing is pending there. -/
theorem sweep_of_some {x rest : Bytes} (found : (sweep escapes delim pending x).rest = some rest) :
    (sweep escapes delim pending x).pending = false ∧ rest <:+ x := by
  induction x generalizing pending with
  | nil => cases pending <;> cases found
  | cons b x ih =>
      have later {p : Bool} (found : (sweep escapes delim p x).rest = some rest) :
          (sweep escapes delim p x).pending = false ∧ rest <:+ b :: x := by
        obtain ⟨settled, suffix⟩ := ih found
        exact ⟨settled, suffix.trans (List.suffix_cons b x)⟩
      cases pending with
      | true => exact later found
      | false =>
          simp only [sweep] at found ⊢
          split at found
          · rename_i escaping
            rw [if_pos escaping]
            cases escapes <;> exact later found
          · rename_i unescaping
            rw [if_neg unescaping]
            split at found
            · rename_i here
              rw [if_pos here]
              cases found
              exact ⟨rfl, List.suffix_cons b _⟩
            · rename_i other
              rw [if_neg other]
              exact later found

/-- At the end of a chunk a backslash is pending if it stands there without being escaped. -/
theorem sweep_pending_iff {x : Bytes} (nonempty : x ≠ [])
    (absent : (sweep .resolved delim pending x).rest = none) :
    (sweep .resolved delim pending x).pending = true ↔
      ∃ before, x = before ++ [backslash] ∧ trailing (held pending ++ before) % 2 = 0 := by
  rw [sweep_held] at absent ⊢
  rw [sweep_rest] at absent
  rw [Escape.pending_sweep .resolved absent, Escape.dangles_iff]
  obtain ⟨before, b, rfl⟩ : ∃ before b, x = before ++ [b] :=
    ⟨_, _, (List.dropLast_concat_getLast nonempty).symm⟩
  rw [← List.append_assoc, Escape.trailing_concat]
  constructor
  · intro odd
    by_cases escaping : b = backslash
    · rw [if_pos escaping] at odd
      exact ⟨before, by rw [escaping], by omega⟩
    · rw [if_neg escaping] at odd
      cases odd
  · rintro ⟨front, same, even⟩
    obtain ⟨rfl, last⟩ := List.append_inj' same rfl
    rw [if_pos (List.singleton_inj.1 last)]
    omega

namespace Session

variable {s : Session}

/-! ## One call -/

theorem weight_readChunk_lt {t : Session} {answer : Except IoError Ending}
    (called : s.readChunk delim = (answer, t))
    (goes_on : answer = .ok .unfinished ∨ ∃ e, answer = .error e) :
    t.source.weight < s.source.weight := by
  obtain ⟨rfl, rfl⟩ := Prod.mk.inj called
  rcases goes_on with unfinished | ⟨e, failed⟩
  · exact weight_chunk_lt (.inr unfinished)
  · change (chunk .resolved delim s.pending s.source).source.weight < _
    unfold chunk at failed ⊢
    split at failed
    · rename_i filled
      exact Source.weight_afterFailure_lt filled
    · split at failed
      · cases failed
      · simp only at failed
        split at failed <;> cases failed

/-- All that a call can come to. -/
inductive Called (delim : UInt8) (s : Session) : Except IoError Ending × Session → Prop
  | failed {e : IoError} {source : Source} : e.kind ≠ .interrupted →
      source.remaining = s.source.remaining → source.Regular →
      Called delim s (.error e, { s with source })
  | exhausted : s.source.remaining = [] →
      Called delim s (.ok .exhausted, { s with source := .ofEvents [] })
  | delimited {later : List Source.Event} {rest : Bytes} :
      s.source.remaining = s.source.present ++ Source.Event.bytes later →
      (Source.ofEvents later).Regular →
      (sweep .resolved delim s.pending s.source.present).rest = some rest →
      Called delim s (.ok .delimited,
        ⟨s.buffer ++ (sweep .resolved delim s.pending s.source.present).output, false,
          ⟨rest, later⟩⟩)
  | unfinished {later : List Source.Event} : s.source.present ≠ [] →
      s.source.remaining = s.source.present ++ Source.Event.bytes later →
      (Source.ofEvents later).Regular →
      (sweep .resolved delim s.pending s.source.present).rest = none →
      Called delim s (.ok .unfinished,
        ⟨s.buffer ++ (sweep .resolved delim s.pending s.source.present).output,
          (sweep .resolved delim s.pending s.source.present).pending, .ofEvents later⟩)

theorem called_readChunk (delim : UInt8) (regular : s.source.Regular) :
    s.Called delim (s.readChunk delim) := by
  have filled := regular.filled
  unfold readChunk chunk
  generalize s.source.fill = answer at filled
  cases filled with
  | failed lasting same later =>
      simp only [List.append_nil]
      exact .failed lasting same later
  | ended nothing =>
      simp only [Source.ofEvents, ↓reduceIte, List.append_nil]
      exact .exhausted nothing
  | given nonempty bytes later =>
      simp only [if_neg nonempty]
      cases found : (sweep .resolved delim s.pending s.source.present).rest with
      | some rest =>
          simp only [(sweep_of_some found).1]
          exact .delimited bytes later found
      | none => exact .unfinished nonempty bytes later found

/-- What one call does: it takes bytes from the present chunk only, and none unless it comes to a
delimiter or to the end of the chunk. -/
structure Call (s : Session) (answer : Except IoError Ending) (t : Session) (taken : Bytes) :
    Prop where
  within : taken <+: s.source.present
  remaining : s.source.remaining = taken ++ t.source.remaining
  regular : t.source.Regular
  unchanged : answer = .ok .exhausted ∨ (∃ e, answer = .error e) →
    taken = [] ∧ t.buffer = s.buffer ∧ t.pending = s.pending
  lasting : ∀ e, answer = .error e → e.kind ≠ .interrupted
  delimited : answer = .ok .delimited → t.pending = false
  unfinished : answer = .ok .unfinished → taken ≠ [] ∧
    (t.pending = true ↔
      ∃ before, taken = before ++ [backslash] ∧ trailing (held s.pending ++ before) % 2 = 0)

theorem Called.call {t : Session} {answer : Except IoError Ending}
    (called : s.Called delim (answer, t)) : ∃ taken, s.Call answer t taken := by
  cases called with
  | @failed e source lasting same later =>
      refine ⟨[], List.nil_prefix, same.symm, later, ?_, ?_, ?_, ?_⟩
      · intro _
        exact ⟨rfl, rfl, rfl⟩
      · intro e' same
        cases same
        exact lasting
      · intro other
        cases other
      · intro other
        cases other
  | exhausted nothing =>
      refine ⟨[], List.nil_prefix, nothing, ?_, ?_, ?_, ?_, ?_⟩
      · intro e none_there
        cases none_there
      · intro _
        exact ⟨rfl, rfl, rfl⟩
      · intro e other
        cases other
      · intro other
        cases other
      · intro other
        cases other
  | @delimited later rest bytes regular found =>
      obtain ⟨taken, present⟩ := (sweep_of_some found).2
      refine ⟨taken, ⟨rest, present⟩, ?_, regular, ?_, ?_, ?_, ?_⟩
      · rw [bytes, ← present, List.append_assoc]
        rfl
      · rintro (other | ⟨e, other⟩) <;> cases other
      · intro e other
        cases other
      · intro _
        rfl
      · intro other
        cases other
  | @unfinished later nonempty bytes regular absent =>
      refine ⟨s.source.present, List.prefix_rfl, bytes, regular, ?_, ?_, ?_, ?_⟩
      · rintro (other | ⟨e, other⟩) <;> cases other
      · intro e other
        cases other
      · intro other
        cases other
      · intro _
        exact ⟨nonempty, sweep_pending_iff nonempty absent⟩

/-! ## Calls in a row -/

/-- Calls in a row, whatever fails between them, up to one that comes to a delimiter or to the end
of the source. -/
def readOn (delim : UInt8) (s : Session) : Ending × Session :=
  match _eq : s.readChunk delim with
  | (.ok .delimited, t) => (.delimited, t)
  | (.ok .exhausted, t) => (.exhausted, t)
  | (.ok .unfinished, t) => readOn delim t
  | (.error _, t) => readOn delim t
termination_by s.source.weight
decreasing_by
  · exact weight_readChunk_lt _eq (.inl rfl)
  · exact weight_readChunk_lt _eq (.inr ⟨_, rfl⟩)

/-- What calls in a row come to if they come to one sweep. -/
def Follows (s : Session) (swept : Sweep) (done : Ending × Session) : Prop :=
  done.1 = swept.rest.elim .exhausted (fun _ => .delimited) ∧
    done.2.buffer = s.buffer ++ swept.output ∧ done.2.source.remaining = swept.rest.getD []

/-- The bytes of all chunks are swept once, with what was pending at the start. -/
theorem readOn_follows (delim : UInt8) (regular : s.source.Regular) :
    s.Follows (sweep .resolved delim s.pending s.source.remaining) (s.readOn delim) := by
  -- each call sweeps some of the bytes and leaves the others to the calls behind it
  fun_induction readOn delim s with
  | case1 s t eq =>
      have called := called_readChunk delim regular
      rw [eq] at called
      cases called with
      | delimited bytes later found =>
          rw [bytes, sweep_append_of_some found]
          exact ⟨rfl, rfl, rfl⟩
  | case2 s t eq =>
      have called := called_readChunk delim regular
      rw [eq] at called
      cases called with
      | exhausted nothing =>
          have swept : sweep .resolved delim s.pending [] = ⟨[], s.pending, none⟩ := by
            cases s.pending <;> rfl
          rw [nothing, swept]
          exact ⟨rfl, (List.append_nil _).symm, rfl⟩
  | case3 s t eq ih =>
      have called := called_readChunk delim regular
      rw [eq] at called
      cases called with
      | unfinished nonempty bytes later absent =>
          obtain ⟨ending, buffer, rest⟩ := ih later
          rw [bytes, sweep_append_of_none absent]
          refine ⟨ending, ?_, rest⟩
          rw [buffer, List.append_assoc]
          rfl
  | case4 s e t eq ih =>
      have called := called_readChunk delim regular
      rw [eq] at called
      cases called with
      | failed lasting same later =>
          have done := ih later
          rw [same] at done
          exact done

/-- Calls in a row find what searching all the bytes finds, after a backslash if one is pending. -/
theorem readOn_of_find (delim : UInt8) (regular : s.source.Regular) :
    let x := held s.pending ++ s.source.remaining
    let (ending, t) := s.readOn delim
    match find delim x with
    | some i => ending = .delimited ∧ t.buffer = s.buffer ++ resolve (x.take i) ∧
        t.source.remaining = x.drop (i + 1)
    | none => ending = .exhausted ∧ t.buffer = s.buffer ++ resolve x ∧
        t.source.remaining = [] := by
  intro x
  obtain ⟨ending, buffer, rest⟩ := readOn_follows delim regular
  rw [sweep_held] at ending buffer rest
  rw [sweep_rest] at ending rest
  rw [sweep_resolved] at buffer
  unfold splitFirst at ending buffer rest
  cases found : find delim x with
  | some i =>
      simp only [x] at found
      rw [found] at ending buffer rest
      exact ⟨ending, buffer, rest⟩
  | none =>
      simp only [x] at found
      rw [found] at ending buffer rest
      exact ⟨ending, buffer, rest⟩

/-- Whatever interrupts a source of nonempty chunks, and wherever it fails, each call does its part
and no more, and calls in a row come to one read of all the bytes, after a backslash if one was
pending: they append what that read appends, up to the same delimiter. -/
theorem readOn_eq_read (delim : UInt8) (regular : s.source.Regular) :
    (∀ t : Session, t.source.Regular →
      ∃ taken, t.Call (t.readChunk delim).1 (t.readChunk delim).2 taken) ∧
    let x := held s.pending ++ s.source.remaining
    let (ending, t) := s.readOn delim
    let (answer, whole) := read .resolved delim ⟨s.buffer, false, .ofBytes x⟩
    answer = .ok ending ∧ t.buffer = whole.buffer ∧
      t.source.remaining = whole.source.remaining ∧
      match find delim x with
      | some i => ending = .delimited ∧ t.buffer = s.buffer ++ resolve (x.take i) ∧
          t.source.remaining = x.drop (i + 1)
      | none => ending = .exhausted ∧ t.buffer = s.buffer ++ resolve x ∧
          t.source.remaining = [] := by
  refine ⟨?_, ?_⟩
  · intro t regular
    exact (called_readChunk delim regular).call
  · intro x
    have done := readOn_of_find delim regular
    have whole := read_of_find (s := ⟨s.buffer, false, .ofBytes x⟩) .resolved delim
      (Source.delivers_ofBytes x)
    cases found : find delim x with
    | some i =>
        simp only [x] at found
        simp only [x, found] at done whole
        obtain ⟨ending, buffer, rest⟩ := done
        obtain ⟨answer, delivers, read⟩ := whole
        exact ⟨answer.trans (congrArg Except.ok ending.symm), buffer.trans read.symm,
          rest.trans delivers.1.symm, ending, buffer, rest⟩
    | none =>
        simp only [x] at found
        simp only [x, found] at done whole
        obtain ⟨ending, buffer, rest⟩ := done
        obtain ⟨answer, delivers, read⟩ := whole
        exact ⟨answer.trans (congrArg Except.ok ending.symm), buffer.trans read.symm,
          rest.trans delivers.1.symm, ending, buffer, rest⟩

/-- A delimiter is escaped from before the start and another one across a failure. -/
theorem readOn_eq_read_after_failures :
    let late : IoError := ⟨.timedOut, "too late"⟩
    let source := Source.ofEvents [.failed late, .chunk (Bytes.ofText "%a\\"), .interrupted,
      .failed late, .chunk (Bytes.ofText "%b%"), .chunk (Bytes.ofText "c")]
    let s : Session := ⟨Bytes.ofText "!", true, source⟩
    source.Regular ∧
      (∃ taken, s.Call (s.readChunk Bytes.percent).1 (s.readChunk Bytes.percent).2 taken) ∧
      (s.readOn Bytes.percent).1 = .delimited ∧
      (s.readOn Bytes.percent).2.buffer = Bytes.ofText "!%a%b" ∧
      (s.readOn Bytes.percent).2.source.remaining = Bytes.ofText "c" := by
  intro late source s
  have regular : source.Regular := by decide +kernel
  have found : find Bytes.percent (held s.pending ++ s.source.remaining) = some 6 := by
    decide +kernel
  obtain ⟨calls, -, -, -, whole⟩ := readOn_eq_read (s := s) Bytes.percent regular
  simp only [found] at whole
  obtain ⟨ending, buffer, rest⟩ := whole
  exact ⟨regular, calls s regular, ending, buffer, rest⟩

end Session
end Scan
end LayeredTemplate
