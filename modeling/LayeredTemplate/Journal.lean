/-! The journal: what is reported while handlers are registered and templates are expanded. -/
namespace LayeredTemplate

/-- The two kinds of handler. -/
inductive Role where
  | formatter | encoder
  deriving DecidableEq, Repr

def Role.name : Role → String
  | .formatter => "formatter"
  | .encoder => "encoder"

namespace Journal

/-- Layers are counted from the sink, from one. -/
inductive Entry where
  | registered (role : Role) (name : String)
  | ready (handlers : Nat) (strict : Bool)
  | percent
  | directive (name : String) (role : Role) (encoders : Nat)
  | finalizing (layer depth : Nat)
  | unused (count : Nat)
  deriving DecidableEq, Repr

/-- Setting up and what is left over are of interest more often than the single steps of a run. -/
inductive Level where
  | debug | trace
  deriving DecidableEq, Repr

def Entry.level : Entry → Level
  | .registered .. | .ready .. | .unused .. => .debug
  | .percent | .directive .. | .finalizing .. => .trace

def Entry.message : Entry → String
  | .registered role name => s!"registered {role.name} '{name}'"
  | .ready handlers strict =>
      s!"interpolator ready with {handlers} handler(s), strict arguments {strict}"
  | .percent => "escape directive"
  | .directive name role encoders =>
      s!"directive '{name}' ({role.name}) with {encoders} encoder(s)"
  | .finalizing layer depth => s!"finalizing layer {layer} of {depth}"
  | .unused count => s!"{count} argument(s) left unused"

end Journal
end LayeredTemplate
