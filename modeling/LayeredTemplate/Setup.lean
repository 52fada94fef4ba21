import LayeredTemplate.Expander

/-! Setting up an expander step by step. -/
namespace LayeredTemplate

structure Setup (ω : Type) where
  vocabulary : Vocabulary ω
  strict : Bool
  journal : List Journal.Entry

namespace Setup

variable {ω : Type}

/-- The encoder that changes nothing is always there. -/
def start : Setup ω := ⟨.withRaw, false, []⟩

def add (s : Setup ω) (name : String) (h : Handler ω) : Except Failure (Setup ω) :=
  match s.vocabulary.add name h with
  | .ok vocabulary => .ok { s with vocabulary, journal := s.journal ++ [.registered h.role name] }
  | .error e => .error e

def addEach (s : Setup ω) : List (String × Handler ω) → Except Failure (Setup ω)
  | [] => .ok s
  | (name, h) :: rest =>
      match s.add name h with
      | .ok s => s.addEach rest
      | .error e => .error e

def addDefaults (s : Setup ω) : Except Failure (Setup ω) := s.addEach Vocabulary.bundled

def setStrict (s : Setup ω) (strict : Bool) : Setup ω := { s with strict }

def build (s : Setup ω) : Expander ω × List Journal.Entry :=
  (⟨s.vocabulary, s.strict⟩, s.journal ++ [.ready s.vocabulary.size s.strict])

end Setup
end LayeredTemplate
