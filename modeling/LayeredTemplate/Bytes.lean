/-! Byte strings and the bytes with a meaning of their own in templates. -/
namespace LayeredTemplate

abbrev Bytes := List UInt8

namespace Bytes

/-- The UTF-8 form of a text. -/
def ofText (s : String) : Bytes := s.toList.flatMap String.utf8EncodeChar

abbrev backslash : UInt8 := 0x5c
abbrev percent : UInt8 := 0x25
abbrev semicolon : UInt8 := 0x3b
abbrev bar : UInt8 := 0x7c
abbrev colon : UInt8 := 0x3a

/-- Pieces of `limit` bytes, the last one shorter if need be. -/
def cut (limit : Nat) (x : Bytes) : List Bytes :=
  if x = [] ∨ limit = 0 then [] else x.take limit :: cut limit (x.drop limit)
termination_by x.length
decreasing_by
  have nonempty : x.length ≠ 0 := by simp_all
  simp only [List.length_drop]; omega

end Bytes
end LayeredTemplate
