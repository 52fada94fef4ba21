import LayeredTemplate.Handler
import LayeredTemplate.Substitution

/-! Character data of markup: bytes with a meaning in markup become named references and control
bytes decimal ones, so that the result is safe in element text and attribute values alike. -/
namespace LayeredTemplate.CharacterData

/-- Line breaks stay if `keepLineBreaks`. A decimal reference is written in three parts. -/
def reference (keepLineBreaks : Bool) (b : UInt8) : Option (List Bytes) :=
  match b with
  | 0x26 => some [Bytes.ofText "&amp;"]
  | 0x3c => some [Bytes.ofText "&lt;"]
  | 0x3e => some [Bytes.ofText "&gt;"]
  | 0x22 => some [Bytes.ofText "&quot;"]
  | 0x27 => some [Bytes.ofText "&apos;"]
  | _ =>
      if keepLineBreaks ∧ (b = 0x0a ∨ b = 0x0d) then none
      else if b < 0x20 then
        some [Bytes.ofText "&#", Bytes.ofText (toString b.toNat), Bytes.ofText ";"]
      else none

def encode (keepLineBreaks : Bool) (x : Bytes) : Bytes :=
  Substitution.apply (reference keepLineBreaks) x

/-- The references that are understood, with the byte each of them names. -/
def references : List (Bytes × UInt8) :=
  [(Bytes.ofText "&amp;", 0x26), (Bytes.ofText "&lt;", 0x3c), (Bytes.ofText "&gt;", 0x3e),
    (Bytes.ofText "&quot;", 0x22), (Bytes.ofText "&apos;", 0x27)] ++
  (List.range 32).map fun n => (Bytes.ofText s!"&#{n};", .ofNat n)

/-- Replaces each reference by its byte, in one pass from the left. -/
def decode : Bytes → Bytes
  | [] => []
  | b :: rest =>
      match references.find? fun (name, _) => name.isPrefixOf (b :: rest) with
      | some (name, named) => named :: decode (rest.drop (name.length - 1))
      | none => b :: decode rest
termination_by x => x.length
decreasing_by all_goals simp only [List.length_drop, List.length_cons]; omega

def layer (keepLineBreaks : Bool) : Layer :=
  .stateless (Substitution.fragments (reference keepLineBreaks))

def encoder : Encoder
  | none => .ok (layer false)
  | some args =>
      if args = Bytes.ofText "nocrlf" then .ok (layer true)
      else .error (.invalidArguments args "only nocrlf allowed for cdata")

end LayeredTemplate.CharacterData
