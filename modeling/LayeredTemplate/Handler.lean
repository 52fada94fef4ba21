import LayeredTemplate.Journal
import LayeredTemplate.Layer
import LayeredTemplate.Value

/-! Handlers: what a stage of a directive stands for. Both kinds are given the stage's arguments. -/
namespace LayeredTemplate

/-- Turns a value into bytes. -/
abbrev Formatter (ω : Type) := Value ω → Option Bytes → Writing (Except Failure Unit)

/-- Builds the layer that transforms what is written above it. -/
abbrev Encoder := Option Bytes → Except Failure Layer

inductive Handler (ω : Type) where
  | formatter (format : Formatter ω)
  | encoder (build : Encoder)

namespace Handler

variable {ω : Type}

def role : Handler ω → Role
  | .formatter _ => .formatter
  | .encoder _ => .encoder

def describe (h : Handler ω) : String := s!"Handler::{h.role.name}"

end Handler
end LayeredTemplate
