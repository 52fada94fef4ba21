import LayeredTemplate.Vocabulary

/-! Handlers that between them use all that a handler can do: look at the shape of a value or at a
foreign one, write in several portions or a single one, flush, hold bytes back, and fail at each of
these points. -/
namespace LayeredTemplate.Gallery

/-- The foreign values of this collection. -/
inductive Payload where
  | point (x y : Int)
  | unit
  deriving DecidableEq, Repr

namespace Payload

def point? : Payload → Option (Int × Int)
  | .point x y => some (x, y)
  | .unit => none

end Payload

/-- Writes fragments for a formatter, then ends with `result`. -/
def send (fragments : List Bytes) (result : Except Failure Unit := .ok ()) :
    Writing (Except Failure Unit) :=
  .sendEach (fun e => .error (.io e)) (.done result) fragments

/-- Writes fragments for a layer, then goes on in state `s`. -/
def forward {σ : Type} (s : σ) (fragments : List Bytes) : Writing (Except IoError Unit × σ) :=
  .sendEach (fun e => (.error e, s)) (.done (.ok (), s)) fragments

namespace Formatters

variable {ω : Type}

/-- The arguments, if any, and then the value as it is. -/
def echo : Formatter ω := fun v args =>
  match args with
  | none => v.writeRaw
  | some a => .sendEach (fun e => .error (.io e)) v.writeRaw [a]

/-- The arguments before a text. Other values fail after the arguments were written. -/
def labelled : Formatter ω := fun v args =>
  match v.text? with
  | some s => send [args.getD [], Bytes.ofText s]
  | none => send [args.getD []] (.error (.noDefaultHandling "non-text"))

/-- What the formatter is given. -/
def inspect : Formatter ω := fun v args =>
  send ([Bytes.ofText v.shape, Bytes.ofText "/"] ++ match args with
    | none => [Bytes.ofText "none"]
    | some a => [Bytes.ofText "some:", a])

/-- The arguments in place of a missing value. -/
def orElse : Formatter ω := fun v args =>
  if v.isNotGiven then send [args.getD (Bytes.ofText "default")] else v.writeRaw

def point : Formatter Payload := fun v _ =>
  match v.foreign?.bind Payload.point? with
  | some (x, y) => send [Bytes.ofText s!"({x}, {y})"]
  | none => .done (.error (.noDefaultHandling v.shape))

/-- Fails for a reason of its own, after something was written. -/
def fail : Formatter ω := fun _ args =>
  send [Bytes.ofText "partial"]
    (.error (.handler ((args.map Utf8.decodeLossy).getD "formatter failed")))

def bytewise : Formatter ω := fun v _ =>
  match v.bytes? with
  | some b => send (b.map ([·]))
  | none => .done (.error (.noDefaultHandling v.shape))

def flush : Formatter ω := fun v _ =>
  .sendEach (fun e => .error (.io e)) (.flush fun answer => .done (answer.mapError .io))
    [v.bytes?.getD (Bytes.ofText "-")]

/-- Writes no more than the sink takes at once, and then how much that was. -/
def once : Formatter ω := fun v _ =>
  .write (v.bytes?.getD []) fun
    | .error e => .done (.error (.io e))
    | .ok n => send [Bytes.ofText s!"={n}"]

def silent : Formatter ω := fun _ _ => .done (.ok ())

end Formatters

namespace Encoders

/-- Brackets around each write, with a label before them. -/
def tag : Encoder := fun args =>
  .ok (.stateless fun b => [args.getD [], Bytes.ofText "(", b, Bytes.ofText ")"])

def upper : Encoder := fun _ =>
  .ok (.stateless fun b => [b.map fun n => if 0x61 ≤ n ∧ n ≤ 0x7a then n - 0x20 else n])

/-- The size of each write, and of all writes up to it. -/
def count : Encoder := fun _ => .ok {
  State := Nat
  start := 0
  write b total :=
    let total := total + b.length
    forward total [Bytes.ofText s!"<{b.length}/{total}>"]
  finalize := none }

def bytewise : Encoder := fun _ => .ok (.stateless fun b => b.map ([·]))

def drop : Encoder := fun _ => .ok (.stateless fun _ => [])

def flushing : Encoder := fun _ => .ok {
  State := Unit
  start := ()
  write b _ :=
    .sendEach (fun e => (.error e, ())) (.flush fun answer => .done (answer, ())) [b]
  finalize := none }

/-- Writes no more than is taken at once, and then how much that was. -/
def once : Encoder := fun _ => .ok {
  State := Unit
  start := ()
  write b _ := .write b fun
    | .error e => .done (.error e, ())
    | .ok n => forward () [Bytes.ofText s!"={n}"]
  finalize := none }

/-- Refuses every write. -/
def broken : Encoder := fun args =>
  let label := Utf8.decodeLossy (args.getD [])
  .ok {
    State := Unit
    start := ()
    write _ _ := .done (.error ⟨.brokenPipe, s!"layer failed {label}"⟩, ())
    finalize := none }

/-- Holds everything back, the latest write first, and writes it in brackets at the end. -/
def hold : Encoder := fun args => .ok {
  State := List Bytes
  start := []
  write b held := .done (.ok (), b :: held)
  finalize := some fun held =>
    forward [] [args.getD [], Bytes.ofText "[", held.reverse.flatten, Bytes.ofText "]"] }

/-- Holds everything back, and writes it in reverse at the end. -/
def reverse : Encoder := fun _ => .ok {
  State := List Bytes
  start := []
  write b held := .done (.ok (), b.reverse :: held)
  finalize := some fun held => forward [] [held.flatten] }

/-- Passes writes on, but cannot be finalized with success. -/
def unfinished : Encoder := fun args =>
  let label := Utf8.decodeLossy (args.getD [])
  .ok {
    State := Unit
    start := ()
    write b _ := forward () [b]
    finalize := some fun _ => .done (.error ⟨.other, s!"finalize failed {label}"⟩, ()) }

def reject : Encoder := fun args =>
  .error (.invalidArguments (args.getD (Bytes.ofText "(none)")) "never accepted")

def decline : Encoder := fun _ => .error (.handler "declined")

end Encoders
end LayeredTemplate.Gallery
