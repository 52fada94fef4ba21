import LayeredTemplate.Proofs.Escaping
import LayeredTemplate.Scan

/-! Scanning a source chunk by chunk comes to the same as one sweep over all its bytes, and a sweep
to the same as searching the byte string for the delimiter. -/
namespace LayeredTemplate

namespace Source

/-- No failure, and no chunk that reads as the end. -/
def Event.Clean (events : List Event) : Prop :=
  ∀ e ∈ events, e = .interrupted ∨ ∃ b, b ≠ [] ∧ e = .chunk b

def Event.isClean : Event → Bool
  | .chunk b => b ≠ []
  | .interrupted => true
  | .failed _ => false

theorem Event.clean_iff {events : List Event} :
    Event.Clean events ↔ ∀ e ∈ events, e.isClean = true := by
  apply forall₂_congr
  intro e _
  cases e <;> simp [isClean]

instance (events : List Event) : Decidable (Event.Clean events) :=
  decidable_of_iff _ Event.clean_iff.symm

instance (s : Source) (x : Bytes) : Decidable (s.Delivers x) :=
  inferInstanceAs (Decidable (s.remaining = x ∧ Event.Clean s.events))

theorem delivers_ofBytes (x : Bytes) : (ofBytes x).Delivers x := by
  constructor
  · exact List.append_nil x
  · intro e he
    cases he

/-- The source gives `x` in nonempty chunks, interrupted at times, before the events of `tail`. -/
def Begins (s : Source) (x : Bytes) (tail : List Event) : Prop :=
  ∃ events, s.events = events ++ tail ∧ s.unread ++ Event.bytes events = x ∧ Event.Clean events

theorem begins_iff_delivers {s : Source} {x : Bytes} : s.Begins x [] ↔ s.Delivers x := by
  constructor
  · rintro ⟨events, rest, bytes, clean⟩
    rw [List.append_nil] at rest
    subst rest
    exact ⟨bytes, clean⟩
  · rintro ⟨bytes, clean⟩
    exact ⟨s.events, (List.append_nil _).symm, bytes, clean⟩

/-- With nothing to come before it, the source reads as its tail. -/
theorem Begins.fill_of_nil {s : Source} {tail : List Event} (h : s.Begins [] tail) :
    s.fill = fill ⟨[], tail⟩ ∧ s.afterFailure = afterFailure ⟨[], tail⟩ := by
  obtain ⟨events, rest, bytes, clean⟩ := h
  obtain ⟨used, nothing⟩ := List.append_eq_nil_iff.1 bytes
  have next : nextChunk s.events = nextChunk tail := by
    rw [rest]
    clear rest bytes
    induction events with
    | nil => rfl
    | cons event events ih =>
        obtain rfl | ⟨b, nonempty, rfl⟩ := clean event (by simp)
        · exact ih (fun e he => clean e (List.mem_cons_of_mem _ he)) nothing
        · exact absurd (List.append_eq_nil_iff.1 nothing).1 nonempty
  constructor
  · rw [Source.fill, Source.fill, if_neg (not_not_intro used), if_neg (not_not_intro rfl), next]
  · rw [afterFailure, afterFailure, used, next]

/-- While bytes are to come, filling makes some of them the unread ones. -/
theorem Begins.fill {s : Source} {x : Bytes} {tail : List Event} (h : s.Begins x tail)
    (more : x ≠ []) :
    ∃ t y, s.fill = .ok t ∧ t.unread ≠ [] ∧ x = t.unread ++ y ∧
      ∀ u, (⟨u, t.events⟩ : Source).Begins (u ++ y) tail := by
  obtain ⟨events, rest, bytes, clean⟩ := h
  by_cases unread : s.unread = []
  · rw [unread, List.nil_append] at bytes
    unfold Source.fill
    rw [if_neg (not_not_intro unread), rest]
    clear rest unread
    induction events with
    | nil => exact absurd bytes.symm more
    | cons event events ih =>
        have later : Event.Clean events := by
          intro e he
          exact clean e (List.mem_cons_of_mem _ he)
        obtain rfl | ⟨b, nonempty, rfl⟩ := clean event (by simp)
        · exact ih bytes later
        · refine ⟨⟨b, events ++ tail⟩, Event.bytes events, rfl, nonempty, bytes.symm, ?_⟩
          intro u
          exact ⟨events, rfl, rfl, later⟩
  · refine ⟨s, Event.bytes events, ?_, unread, bytes.symm, ?_⟩
    · rw [Source.fill, if_pos unread]
    · intro u
      exact ⟨events, rest, rfl, clean⟩

/-- What a source comes to an end with: nothing more, or a failure. -/
def Event.Ends (tail : List Event) : Option IoError → Prop
  | none => tail = []
  | some e => ∃ later, tail = .failed e :: later

/-- The source gives `x` in nonempty chunks, interrupted at times, and then fails. -/
def FailsAfter (s : Source) (x : Bytes) (e : IoError) : Prop :=
  e.kind ≠ .interrupted ∧ ∃ later, s.Begins x (.failed e :: later)

end Source

namespace Scan

open Bytes (backslash)
open Escape (splitFirst resolve)

variable {escapes : Escapes} {delim : UInt8} {pending : Bool}

/-! ## Sweeps and searches -/

theorem sweep_rest (escapes : Escapes) (delim : UInt8) (x : Bytes) :
    (sweep escapes delim false x).rest = (splitFirst delim x).2 := by
  induction x using Escape.readingInduction with
  | nil => rfl
  | dangling => cases escapes <;> simp [sweep]
  | escaped b x ih => cases escapes <;> simp [sweep, ih]
  | bare b x unescaping ih =>
      by_cases found : b = delim
      · subst found
        simp [sweep, unescaping, Escape.splitFirst_delim unescaping]
      · simp [sweep, unescaping, found, Escape.splitFirst_bare unescaping found, ih]

theorem sweep_kept (delim : UInt8) (x : Bytes) :
    (sweep .kept delim false x).output = (splitFirst delim x).1 := by
  induction x using Escape.readingInduction with
  | nil => rfl
  | dangling => simp [sweep]
  | escaped b x ih => simp [sweep, ih]
  | bare b x unescaping ih =>
      by_cases found : b = delim
      · subst found
        simp [sweep, unescaping, Escape.splitFirst_delim unescaping]
      · simp [sweep, unescaping, found, Escape.splitFirst_bare unescaping found, ih]

theorem sweep_resolved (delim : UInt8) (x : Bytes) :
    (sweep .resolved delim false x).output = resolve (splitFirst delim x).1 := by
  induction x using Escape.readingInduction with
  | nil => rfl
  | dangling => simp [sweep]
  | escaped b x ih => simp [sweep, ih]
  | bare b x unescaping ih =>
      by_cases found : b = delim
      · subst found
        simp [sweep, unescaping, Escape.splitFirst_delim unescaping, resolve]
      · simp [sweep, unescaping, found, Escape.splitFirst_bare unescaping found,
          Escape.resolve_bare unescaping, ih]

/-- A pending backslash, as a byte string. -/
def held (pending : Bool) : Bytes := if pending then [backslash] else []

/-- Resolving, a backslash carried over does as much as one that is still to be read. -/
theorem sweep_held (delim : UInt8) (pending : Bool) (x : Bytes) :
    sweep .resolved delim pending x = sweep .resolved delim false (held pending ++ x) := by
  cases pending <;> simp [held, sweep]

/-! ## Sweeps over two byte strings in a row -/

/-- A sweep that meets a delimiter reads up to it, whatever comes behind. -/
theorem exists_swept {x rest : Bytes} (h : (sweep escapes delim pending x).rest = some rest) :
    ∃ u, u ≠ [] ∧ x = u ++ rest ∧ ∀ y, sweep escapes delim pending (u ++ y) =
      { sweep escapes delim pending x with rest := some y } := by
  induction x generalizing pending with
  | nil => cases pending <;> simp [sweep] at h
  | cons b x ih =>
      have longer (p : Bool) (out : Bytes → Bytes)
          (step : ∀ y, sweep escapes delim pending (b :: y) =
            { sweep escapes delim p y with output := out (sweep escapes delim p y).output }) :
          ∃ u, u ≠ [] ∧ b :: x = u ++ rest ∧ ∀ y, sweep escapes delim pending (u ++ y) =
            { sweep escapes delim pending (b :: x) with rest := some y } := by
        rw [step] at h
        obtain ⟨u, -, bytes, swept⟩ := ih h
        refine ⟨b :: u, List.cons_ne_nil _ _, congrArg (b :: ·) bytes, ?_⟩
        intro y
        rw [List.cons_append, step, step, swept]
      cases pending with
      | true => exact longer false (b :: ·) fun y => rfl
      | false =>
          by_cases escaping : b = backslash
          · cases escapes with
            | kept =>
                apply longer true (b :: ·)
                intro y
                simp only [sweep, if_pos escaping]
            | resolved =>
                apply longer true id
                intro y
                simp only [sweep, if_pos escaping, id]
          · by_cases found : b = delim
            · simp only [sweep, if_neg escaping, if_pos found, Option.some.injEq] at h
              subst h
              refine ⟨[b], List.cons_ne_nil _ _, rfl, ?_⟩
              intro y
              simp only [List.singleton_append, sweep, if_neg escaping, if_pos found]
            · apply longer false (b :: ·)
              intro y
              simp only [sweep, if_neg escaping, if_neg found]

theorem sweep_append_of_some {x rest : Bytes} (h : (sweep escapes delim pending x).rest = some rest)
    (y : Bytes) :
    sweep escapes delim pending (x ++ y) =
      { sweep escapes delim pending x with rest := some (rest ++ y) } := by
  obtain ⟨u, -, rfl, swept⟩ := exists_swept h
  rw [List.append_assoc, swept]

theorem sweep_append_of_none {x : Bytes} (h : (sweep escapes delim pending x).rest = none)
    (y : Bytes) :
    sweep escapes delim pending (x ++ y) =
      let first := sweep escapes delim pending x
      let more := sweep escapes delim first.pending y
      { more with output := first.output ++ more.output } := by
  induction x generalizing pending with
  | nil => cases pending <;> simp [sweep]
  | cons b x ih =>
      cases pending with
      | true => simp only [sweep, List.cons_append] at h ⊢; rw [ih h]
      | false =>
          simp only [sweep, List.cons_append] at h ⊢
          by_cases escaping : b = backslash
          · rw [if_pos escaping] at h
            rw [if_pos escaping, if_pos escaping]
            cases escapes with
            | kept =>
                rw [ih h]
                rfl
            | resolved => rw [ih h]
          · rw [if_neg escaping] at h
            rw [if_neg escaping, if_neg escaping]
            by_cases found : b = delim
            · simp [if_pos found] at h
            · rw [if_neg found] at h
              rw [if_neg found, if_neg found, ih h]
              rfl

/-! ## Chunks and scans of a source -/

variable (escapes delim pending)

theorem chunk_of_nil {s : Source} {tail : List Source.Event} (h : s.Begins [] tail) :
    chunk escapes delim pending s = chunk escapes delim pending ⟨[], tail⟩ := by
  obtain ⟨filled, failed⟩ := h.fill_of_nil
  rw [chunk, chunk, filled, failed]

/-- While bytes are to come, a chunk is swept. -/
theorem chunk_of_ne_nil {s : Source} {x : Bytes} {tail : List Source.Event} (h : s.Begins x tail)
    (more : x ≠ []) :
    ∃ u y later, u ≠ [] ∧ x = u ++ y ∧ (∀ v, (⟨v, later⟩ : Source).Begins (v ++ y) tail) ∧
      chunk escapes delim pending s =
        let swept := sweep escapes delim pending u
        ⟨.ok (if swept.rest.isSome then .delimited else .unfinished), swept.output, swept.pending,
          ⟨swept.rest.getD [], later⟩⟩ := by
  obtain ⟨t, y, filled, nonempty, bytes, begins⟩ := h.fill more
  refine ⟨t.unread, y, t.events, nonempty, bytes, begins, ?_⟩
  unfold chunk
  rw [filled]
  simp only [if_neg nonempty]
  split <;> rename_i found <;> rw [found] <;> rfl

theorem scan_eq (s : Source) :
    scan escapes delim pending s =
      let first := chunk escapes delim pending s
      match first.result with
      | .ok .unfinished =>
          let more := scan escapes delim first.pending first.source
          { more with output := first.output ++ more.output }
      | _ => first := by
  rw [scan]
  split <;> simp_all

theorem scan_of_ne_nil {s : Source} {x : Bytes} {tail : List Source.Event} (h : s.Begins x tail)
    (more : x ≠ []) :
    ∃ u y later, u ≠ [] ∧ x = u ++ y ∧ (∀ v, (⟨v, later⟩ : Source).Begins (v ++ y) tail) ∧
      scan escapes delim pending s =
        let swept := sweep escapes delim pending u
        let more := scan escapes delim swept.pending ⟨[], later⟩
        swept.rest.elim { more with output := swept.output ++ more.output }
          fun rest => ⟨.ok .delimited, swept.output, swept.pending, ⟨rest, later⟩⟩ := by
  obtain ⟨u, y, later, nonempty, bytes, begins, first⟩ :=
    chunk_of_ne_nil escapes delim pending h more
  refine ⟨u, y, later, nonempty, bytes, begins, ?_⟩
  rw [scan_eq, first]
  cases found : (sweep escapes delim pending u).rest <;> simp [found]

/-- A scan is one sweep over the bytes to come. It goes on with what is behind them only if they
hold no delimiter. -/
theorem scan_of_begins {s : Source} {x : Bytes} {tail : List Source.Event} (h : s.Begins x tail) :
    let swept := sweep escapes delim pending x
    match swept.rest with
    | some rest => ∃ t : Source, t.Begins rest tail ∧
        scan escapes delim pending s = ⟨.ok .delimited, swept.output, swept.pending, t⟩
    | none =>
        let more := scan escapes delim swept.pending ⟨[], tail⟩
        scan escapes delim pending s = { more with output := swept.output ++ more.output } := by
  -- each chunk leaves fewer bytes to come
  induction size : x.length using Nat.strongRecOn generalizing s x pending with
  | ind n ih =>
      by_cases more : x = []
      · subst more
        have swept : sweep escapes delim pending [] = ⟨[], pending, none⟩ := by
          cases pending <;> rfl
        simp only [swept, List.nil_append]
        rw [scan_eq, chunk_of_nil escapes delim pending h, ← scan_eq]
      · obtain ⟨u, y, later, nonempty, bytes, begins, first⟩ :=
          scan_of_ne_nil escapes delim pending h more
        rw [first, bytes]
        cases found : (sweep escapes delim pending u).rest with
        | some rest =>
            simp only [sweep_append_of_some found, found, Option.elim]
            exact ⟨_, begins rest, rfl⟩
        | none =>
            have shorter : y.length < n := by
              have := List.length_pos_iff.2 nonempty
              rw [← size, bytes, List.length_append]; omega
            have rest := ih _ shorter (sweep escapes delim pending u).pending (begins []) rfl
            simp only [sweep_append_of_none found, found, Option.elim]
            generalize sweep escapes delim pending u = swept at rest ⊢
            cases last : (sweep escapes delim swept.pending y).rest with
            | some r =>
                simp only [List.nil_append, last] at rest ⊢
                obtain ⟨t, begins, scanned⟩ := rest
                exact ⟨t, begins, by rw [scanned]⟩
            | none =>
                simp only [List.nil_append, last] at rest ⊢
                rw [rest, List.append_assoc]

theorem chunk_at_end {tail : List Source.Event} {stop : Option IoError}
    (h : Source.Event.Ends tail stop) :
    (chunk escapes delim pending ⟨[], tail⟩).result = stop.elim (.ok .exhausted) .error ∧
      (chunk escapes delim pending ⟨[], tail⟩).output = [] := by
  cases stop with
  | none => rw [h]; exact ⟨rfl, rfl⟩
  | some e => obtain ⟨later, rfl⟩ := h; exact ⟨rfl, rfl⟩

theorem scan_at_end {tail : List Source.Event} {stop : Option IoError}
    (h : Source.Event.Ends tail stop) :
    (scan escapes delim pending ⟨[], tail⟩).result = stop.elim (.ok .exhausted) .error := by
  have ended := (chunk_at_end escapes delim pending h).1
  rw [scan_eq]
  cases stop with
  | none => simp only [ended, Option.elim]
  | some e => simp only [ended, Option.elim]

end Scan
end LayeredTemplate
