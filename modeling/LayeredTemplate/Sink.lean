import LayeredTemplate.Bytes
import LayeredTemplate.IoError

/-! Sinks: where the bytes go in the end. A sink may take fewer bytes than it is offered, fail, or
be interrupted; its record keeps every call. Writing all of a byte string repeats interrupted calls
and offers what was not taken again. -/
namespace LayeredTemplate

namespace Sink

/-- A sink that has `stalled` takes nothing, though that is no failure yet. -/
inductive Answer where
  | took (count : Nat)
  | stalled
  | failed (error : IoError)
  deriving DecidableEq, Repr

structure Call where
  offered : Bytes
  answer : Answer
  deriving DecidableEq, Repr

/-- A sink never takes more than it was offered. -/
def Call.taken (c : Call) : Bytes :=
  match c.answer with
  | .took n => c.offered.take n
  | .stalled | .failed _ => []

/-- The calls made so far, the latest first, with their number and the number of bytes taken. -/
structure Record where
  calls : List Call
  flushes : Nat
  number : Nat
  size : Nat
  number_eq : number = calls.length
  size_eq : size = (calls.flatMap Call.taken).length
  deriving DecidableEq, Repr

namespace Record

def empty : Record := ⟨[], 0, 0, 0, rfl, rfl⟩

def add (r : Record) (c : Call) : Record where
  calls := c :: r.calls
  flushes := r.flushes
  number := r.number + 1
  size := c.taken.length + r.size
  number_eq := by simp [r.number_eq]
  size_eq := by simp [r.size_eq]

/-- The bytes taken after the first `past` calls. -/
def heldSince (r : Record) (past : Nat) : Bytes :=
  (r.calls.take (r.number - past)).reverse.flatMap Call.taken

/-- The bytes that reached the sink. -/
def held (r : Record) : Bytes := r.calls.reverse.flatMap Call.taken

theorem length_held (r : Record) : r.held.length = r.size := by
  rw [r.size_eq, held]
  induction r.calls with
  | nil => rfl
  | cons c cs ih => simp [ih, Nat.add_comm]

/-- The portions in which they came, empty ones too. -/
def portions (r : Record) : List Bytes :=
  r.calls.reverse.filterMap fun c => match c.answer with
    | .took _ => some c.taken
    | .stalled | .failed _ => none

end Record
end Sink

/-- A sink answers by its whole record. `patience` bounds how often a repeated call can still be
interrupted. -/
structure Sink where
  respond : Sink.Record → Bytes → Sink.Answer
  flushError : Sink.Record → Option IoError
  patience : Sink.Record → Nat
  settles : ∀ r b e, respond r b = .failed e → e.kind = .interrupted →
    patience (r.add ⟨b, .failed e⟩) < patience r

namespace Sink

variable (sink : Sink)

/-- One call. -/
def call (b : Bytes) (r : Record) : Answer × Record :=
  (sink.respond r b, r.add ⟨b, sink.respond r b⟩)

def write (b : Bytes) (r : Record) : Except IoError Nat × Record :=
  match sink.call b r with
  | (.took n, r) => (.ok (min n b.length), r)
  | (.stalled, r) => (.ok 0, r)
  | (.failed e, r) => (.error e, r)

/-- Makes a call again while it is interrupted, `fuel` times at most. -/
def settle (b : Bytes) : (fuel : Nat) → Record → Answer × Record
  | 0, r => sink.call b r
  | fuel + 1, r =>
      match sink.call b r with
      | (.took n, r) => (.took n, r)
      | (.stalled, r) => (.stalled, r)
      | (.failed e, r) => if e.kind = .interrupted then settle b fuel r else (.failed e, r)

/-- Offers what is left of a byte string until nothing is; `fuel` bounds the portions. -/
def pour : (fuel : Nat) → Bytes → Record → Except IoError Unit × Record
  | 0, _, r => (.ok (), r)
  | fuel + 1, b, r =>
      if b = [] then (.ok (), r)
      else match sink.settle b (sink.patience r) r with
        | (.took 0, r) | (.stalled, r) => (.error .nothingTaken, r)
        | (.took (n + 1), r) => pour fuel (b.drop (n + 1)) r
        | (.failed e, r) => (.error e, r)

/-- Each portion holds a byte at least, so that there are no more portions than bytes. -/
def writeAll (b : Bytes) (r : Record) : Except IoError Unit × Record := sink.pour b.length b r

def flush (r : Record) : Except IoError Unit × Record :=
  let after := { r with flushes := r.flushes + 1 }
  match sink.flushError r with
  | none => (.ok (), after)
  | some e => (.error e, after)

/-- Takes everything. -/
def accepting : Sink where
  respond _ b := .took b.length
  flushError _ := none
  patience _ := 0
  settles := by simp

/-- How a sink falls short. The calls numbered in `interrupted` and `failing` take nothing, no call
takes more than `portion` bytes, and no more than `capacity` bytes are held. A full sink fails, or
stalls if it `stalls`. -/
structure Limits where
  interrupted : List Nat
  failing : List Nat
  portion : Option Nat
  capacity : Option Nat
  stalls : Bool
  flushFails : Bool
  error : IoError
  lasting : error.kind ≠ .interrupted

namespace Limits

variable (limits : Limits)

def respond (r : Record) (b : Bytes) : Answer :=
  if r.number ∈ limits.interrupted then .failed .interruption
  else if r.number ∈ limits.failing then .failed limits.error
  else
    let n := match limits.portion with
      | some m => (b.take m).length
      | none => b.length
    match limits.capacity with
    | none => .took n
    | some capacity =>
        if 0 < n ∧ capacity ≤ r.size then
          if limits.stalls then .stalled else .failed limits.error
        else .took (min n (capacity - r.size))

/-- The interruptions still to come. -/
def patience (r : Record) : Nat := limits.interrupted.countP (r.number ≤ ·)

theorem countP_succ_lt {n : Nat} {ns : List Nat} (h : n ∈ ns) :
    ns.countP (n + 1 ≤ ·) < ns.countP (n ≤ ·) := by
  induction ns with
  | nil => simp at h
  | cons m ns ih =>
      have mono : ns.countP (n + 1 ≤ ·) ≤ ns.countP (n ≤ ·) :=
        List.countP_mono_left fun k _ hk => by simp at hk ⊢; omega
      simp only [List.countP_cons]
      rcases List.mem_cons.1 h with rfl | h
      · rw [if_neg (by simp), if_pos (by simp)]; omega
      · have := ih h
        by_cases le : n + 1 ≤ m
        · rw [if_pos (decide_eq_true le), if_pos (decide_eq_true (by omega))]; omega
        · rw [if_neg fun h => le (of_decide_eq_true h)]; omega

theorem patience_add_lt (r : Record) (b : Bytes) (e : IoError)
    (h : limits.respond r b = .failed e) (interrupted : e.kind = .interrupted) :
    limits.patience (r.add ⟨b, .failed e⟩) < limits.patience r := by
  have here : r.number ∈ limits.interrupted := by
    unfold respond at h
    split at h
    · assumption
    · exfalso
      have ne : e ≠ limits.error := fun eq => limits.lasting (eq ▸ interrupted)
      split at h
      · exact ne (by simpa using h.symm)
      · revert h
        cases limits.capacity with
        | none => simp
        | some capacity =>
            simp only
            generalize (match limits.portion with
              | some m => (b.take m).length
              | none => b.length) = n
            split
            · split
              · simp
              · exact fun h => ne (by simpa using h.symm)
            · simp
  exact countP_succ_lt here

def toSink : Sink where
  respond := limits.respond
  flushError _ := if limits.flushFails then some limits.error else none
  patience := limits.patience
  settles := limits.patience_add_lt

end Limits
end Sink
end LayeredTemplate
