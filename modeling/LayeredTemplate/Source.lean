import LayeredTemplate.Bytes
import LayeredTemplate.IoError

/-! Byte sources that deliver chunks and may fail or be interrupted between them. An empty chunk
reads as the end of input once; what stands behind it is still there for a later call. -/
namespace LayeredTemplate

namespace Source

inductive Event where
  | chunk (bytes : Bytes)
  | interrupted
  | failed (error : IoError)
  deriving DecidableEq, Repr

/-- The bytes of the chunks among `events`. -/
def Event.bytes : List Event → Bytes
  | [] => []
  | .chunk b :: rest => b ++ bytes rest
  | .interrupted :: rest | .failed _ :: rest => bytes rest

/-- Counts the bytes and the events, each of which a reader can take only once. -/
def Event.weight : List Event → Nat
  | [] => 0
  | .chunk b :: rest => b.length + 1 + weight rest
  | .interrupted :: rest | .failed _ :: rest => 1 + weight rest

end Source

/-- `unread` is what is left of the chunk being read. -/
structure Source where
  unread : Bytes
  events : List Source.Event
  deriving DecidableEq, Repr

namespace Source

def ofEvents (events : List Event) : Source := ⟨[], events⟩

/-- The whole of `x` as one chunk. -/
def ofBytes (x : Bytes) : Source := ⟨x, []⟩

/-- Every byte not yet read. -/
def remaining (s : Source) : Bytes := s.unread ++ Event.bytes s.events

/-- The source gives `x` in nonempty chunks, interrupted at times, and then ends. -/
def Delivers (s : Source) (x : Bytes) : Prop :=
  s.remaining = x ∧ ∀ e ∈ s.events, e = .interrupted ∨ ∃ b, b ≠ [] ∧ e = .chunk b

def weight (s : Source) : Nat := s.unread.length + Event.weight s.events

/-- Takes events up to the next chunk, or up to a failure; interruptions are passed over. -/
def nextChunk : List Event → Except IoError Bytes × List Event
  | [] => (.ok [], [])
  | .chunk b :: rest => (.ok b, rest)
  | .interrupted :: rest => nextChunk rest
  | .failed e :: rest => (.error e, rest)

theorem weight_nextChunk (events : List Event) :
    (match (nextChunk events).1 with | .ok b => b.length | .error _ => 0)
      + Event.weight (nextChunk events).2 ≤ Event.weight events := by
  induction events with
  | nil => simp [nextChunk, Event.weight]
  | cons event rest ih =>
      cases event with
      | chunk b => simp only [nextChunk, Event.weight]; omega
      | interrupted => simp only [nextChunk, Event.weight]; omega
      | failed e => simp only [nextChunk, Event.weight]; omega

/-- Makes the next bytes of the source its unread ones. No unread bytes afterwards mean the end. -/
def fill (s : Source) : Except IoError Source :=
  if s.unread ≠ [] then .ok s
  else match nextChunk s.events with
    | (.ok b, rest) => .ok ⟨b, rest⟩
    | (.error e, _) => .error e

/-- The source after a failed `fill`: the failure is reported once. -/
def afterFailure (s : Source) : Source := ⟨s.unread, (nextChunk s.events).2⟩

theorem weight_fill {s t : Source} (h : s.fill = .ok t) : t.weight ≤ s.weight := by
  unfold fill at h
  split at h
  · cases h; exact Nat.le_refl _
  · have := weight_nextChunk s.events
    split at h
    · rename_i b rest eq
      cases h
      simp only [eq] at this
      simp only [weight]; omega
    · cases h

/-- The reads of at most `limit` bytes that copying the source makes: up to the first read of
nothing, or up to a failure. -/
def readsFrom (limit : Nat) : List Event → List Bytes × Except IoError Unit
  | [] => ([], .ok ())
  | .chunk b :: rest =>
      if b = [] then ([], .ok ())
      else ((b.cut limit) ++ (readsFrom limit rest).1, (readsFrom limit rest).2)
  | .interrupted :: rest => readsFrom limit rest
  | .failed e :: _ => ([], .error e)

def reads (limit : Nat) (s : Source) : List Bytes × Except IoError Unit :=
  ((s.unread.cut limit) ++ (readsFrom limit s.events).1, (readsFrom limit s.events).2)

end Source
end LayeredTemplate
