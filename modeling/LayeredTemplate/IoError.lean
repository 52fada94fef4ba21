/-! Failures of the devices at the two ends: the sink, a layer, or a source. -/
namespace LayeredTemplate

namespace IoError

/-- Besides those that are named there may be any number of further kinds. -/
inductive Kind where
  | other | brokenPipe | unexpectedEof | writeZero | notFound | permissionDenied | invalidData
  | timedOut | interrupted
  | further (number : Nat)
  deriving DecidableEq, Repr

end IoError

structure IoError where
  kind : IoError.Kind
  message : String
  deriving DecidableEq, Repr

namespace IoError

/-- A call that did nothing and may simply be made again. -/
def interruption : IoError := ⟨.interrupted, "operation interrupted"⟩

/-- A sink that takes none of the bytes offered. -/
def nothingTaken : IoError := ⟨.writeZero, "failed to write whole buffer"⟩

end IoError
end LayeredTemplate
