import LayeredTemplate.Escape
import LayeredTemplate.Source

/-! Scanning a source up to an unprotected delimiter, chunk by chunk or to the end. A backslash may
be the last byte of one chunk and its target the first byte of the next. -/
namespace LayeredTemplate.Scan

open Bytes (backslash)

/-- Whether backslashes are dropped from the output or stay in it. -/
inductive Escapes where
  | resolved | kept
  deriving DecidableEq, Repr

/-- `unfinished`: one chunk was used up and held no delimiter. -/
inductive Ending where
  | delimited | exhausted | unfinished
  deriving DecidableEq, Repr

/-- What one run over a chunk gives; `rest` is what follows the delimiter, if one was met. -/
structure Sweep where
  output : Bytes
  pending : Bool
  rest : Option Bytes
  deriving DecidableEq, Repr

/-- Runs over a chunk. `pending` says that the byte before it was a backslash without its target. -/
def sweep (escapes : Escapes) (delim : UInt8) : (pending : Bool) → Bytes → Sweep
  | pending, [] => ⟨[], pending, none⟩
  | true, b :: x =>
      let more := sweep escapes delim false x
      { more with output := b :: more.output }
  | false, b :: x =>
      if b = backslash then
        let more := sweep escapes delim true x
        match escapes with
        | .kept => { more with output := b :: more.output }
        | .resolved => more
      else if b = delim then ⟨[], false, some x⟩
      else
        let more := sweep escapes delim false x
        { more with output := b :: more.output }

theorem sweep_rest_lt {escapes : Escapes} {delim : UInt8} {pending : Bool} {x rest : Bytes}
    (h : (sweep escapes delim pending x).rest = some rest) : rest.length < x.length := by
  induction x generalizing pending with
  | nil => cases pending <;> simp [sweep] at h
  | cons b x ih =>
      have longer {p : Bool} (h : (sweep escapes delim p x).rest = some rest) :
          rest.length < (b :: x).length := by
        have := ih h
        simp only [List.length_cons]; omega
      cases pending with
      | true => exact longer h
      | false =>
          simp only [sweep] at h
          split at h
          · cases escapes <;> exact longer h
          · split at h
            · cases h; simp
            · exact longer h

structure Reading where
  result : Except IoError Ending
  output : Bytes
  pending : Bool
  source : Source

/-- Reads on, but through no more than one chunk. -/
def chunk (escapes : Escapes) (delim : UInt8) (pending : Bool) (s : Source) : Reading :=
  match s.fill with
  | .error e => ⟨.error e, [], pending, s.afterFailure⟩
  | .ok t =>
      if t.unread = [] then ⟨.ok .exhausted, [], pending, t⟩
      else
        let swept := sweep escapes delim pending t.unread
        match swept.rest with
        | some rest => ⟨.ok .delimited, swept.output, swept.pending, ⟨rest, t.events⟩⟩
        | none => ⟨.ok .unfinished, swept.output, swept.pending, ⟨[], t.events⟩⟩

theorem weight_chunk_lt {escapes : Escapes} {delim : UInt8} {pending : Bool} {s : Source}
    (h : (chunk escapes delim pending s).result = .ok .delimited ∨
      (chunk escapes delim pending s).result = .ok .unfinished) :
    (chunk escapes delim pending s).source.weight < s.weight := by
  revert h
  unfold chunk
  split
  · simp
  · rename_i t filled
    have le := Source.weight_fill filled
    split
    · simp
    · rename_i nonempty
      have pos : 0 < t.unread.length := List.length_pos_iff.2 nonempty
      simp only
      split
      · rename_i rest eq
        have := sweep_rest_lt eq
        intro _
        simp only [Source.weight] at le ⊢; omega
      · intro _
        simp only [Source.weight, List.length_nil] at le ⊢; omega

theorem weight_chunk_le (escapes : Escapes) (delim : UInt8) (pending : Bool) (s : Source) :
    (chunk escapes delim pending s).source.weight ≤ s.weight := by
  cases eq : (chunk escapes delim pending s).result with
  | error e =>
      unfold chunk at eq ⊢
      split at eq
      · have := Source.weight_nextChunk s.events
        simp only [Source.afterFailure, Source.weight]; omega
      · split at eq
        · simp at eq
        · simp only at eq; split at eq <;> simp at eq
  | ok ending =>
      cases ending with
      | delimited => exact Nat.le_of_lt (weight_chunk_lt (.inl eq))
      | unfinished => exact Nat.le_of_lt (weight_chunk_lt (.inr eq))
      | exhausted =>
          unfold chunk at eq ⊢
          split at eq
          · simp at eq
          · rename_i filled
            have := Source.weight_fill filled
            split at eq
            · simp_all
            · simp only at eq; split at eq <;> simp at eq

/-- Reads on up to the delimiter, the end of the source or a failure. -/
def scan (escapes : Escapes) (delim : UInt8) (pending : Bool) (s : Source) : Reading :=
  let first := chunk escapes delim pending s
  match _eq : first.result with
  | .ok .unfinished =>
      let more := scan escapes delim first.pending first.source
      { more with output := first.output ++ more.output }
  | _ => first
termination_by s.weight
decreasing_by exact weight_chunk_lt (.inr _eq)

theorem weight_scan_le (escapes : Escapes) (delim : UInt8) (pending : Bool) (s : Source) :
    (scan escapes delim pending s).source.weight ≤ s.weight := by
  fun_induction scan escapes delim pending s with
  | case1 pending s first eq more ih =>
      exact Nat.le_trans ih (Nat.le_of_lt (weight_chunk_lt (.inr eq)))
  | case2 pending s => exact weight_chunk_le ..

/-- What a caller keeps from one read to the next: a buffer that each read appends to, whether a
read by chunks has met a backslash without its target, and the source. -/
structure Session where
  buffer : Bytes
  pending : Bool
  source : Source
  deriving DecidableEq, Repr

namespace Session

/-- Reads up to the delimiter, the end or a failure, whatever is pending. -/
def read (escapes : Escapes) (delim : UInt8) (s : Session) : Except IoError Ending × Session :=
  let reading := scan escapes delim false s.source
  (reading.result,
    { s with buffer := s.buffer ++ reading.output, source := reading.source })

/-- Reads on through no more than one chunk and drops backslashes. -/
def readChunk (delim : UInt8) (s : Session) : Except IoError Ending × Session :=
  let reading := chunk .resolved delim s.pending s.source
  (reading.result, ⟨s.buffer ++ reading.output, reading.pending, reading.source⟩)

end Session
end LayeredTemplate.Scan
