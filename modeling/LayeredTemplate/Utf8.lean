import LayeredTemplate.Bytes

/-! Reading bytes as UTF-8: strictly, with the place and size of the first fault, or lossily, with a
replacement character for each longest start of a sequence that cannot be completed. -/
namespace LayeredTemplate.Utf8

/-- What the bytes from a lead byte on hold; `more` counts the bytes after the lead byte. -/
inductive Front where
  | scalar (c : Char) (more : Nat)
  | invalid (more : Nat)
  | incomplete
  deriving DecidableEq, Repr

/-- Collects `need` further bytes onto `acc`. The first of them has to lie between `lo` and `hi`,
the others between `0x80` and `0xbf`. -/
def collect : (need : Nat) → (lo hi : UInt8) → (acc taken : Nat) → Bytes → Front
  | 0, _, _, acc, taken, _ => .scalar (Char.ofNat acc) taken
  | _ + 1, _, _, _, _, [] => .incomplete
  | need + 1, lo, hi, acc, taken, b :: rest =>
      if lo ≤ b ∧ b ≤ hi then
        collect need 0x80 0xbf (acc * 64 + (b.toNat - 0x80)) (taken + 1) rest
      else .invalid taken

/-- The second byte is held to a narrower range where the sequence could otherwise be overlong, a
surrogate or beyond the last code point. -/
def front (lead : UInt8) (rest : Bytes) : Front :=
  let n := lead.toNat
  if n < 0x80 then .scalar (Char.ofNat n) 0
  else if n < 0xc2 then .invalid 0
  else if n < 0xe0 then collect 1 0x80 0xbf (n - 0xc0) 0 rest
  else if n = 0xe0 then collect 2 0xa0 0xbf 0 0 rest
  else if n = 0xed then collect 2 0x80 0x9f 0xd 0 rest
  else if n < 0xf0 then collect 2 0x80 0xbf (n - 0xe0) 0 rest
  else if n = 0xf0 then collect 3 0x90 0xbf 0 0 rest
  else if n < 0xf4 then collect 3 0x80 0xbf (n - 0xf0) 0 rest
  else if n = 0xf4 then collect 3 0x80 0x8f 4 0 rest
  else .invalid 0

/-- The first fault of a byte string: `width` bytes that begin no sequence, or an end in the middle
of one. -/
inductive Fault where
  | invalid (width index : Nat)
  | incomplete (index : Nat)
  deriving DecidableEq, Repr

def Fault.message : Fault → String
  | .invalid width index => s!"invalid utf-8 sequence of {width} bytes from index {index}"
  | .incomplete index => s!"incomplete utf-8 byte sequence from index {index}"

/-- The characters of bytes that start at `index` of a larger byte string. -/
def scalars (index : Nat) : Bytes → Except Fault (List Char)
  | [] => .ok []
  | lead :: rest =>
      match front lead rest with
      | .scalar c more => (scalars (index + 1 + more) (rest.drop more)).map (c :: ·)
      | .invalid more => .error (.invalid (1 + more) index)
      | .incomplete => .error (.incomplete index)
termination_by x => x.length
decreasing_by simp only [List.length_drop, List.length_cons]; omega

def decode (x : Bytes) : Except Fault String := (scalars 0 x).map String.ofList

def lossyScalars : Bytes → List Char
  | [] => []
  | lead :: rest =>
      match front lead rest with
      | .scalar c more => c :: lossyScalars (rest.drop more)
      | .invalid more => '\ufffd' :: lossyScalars (rest.drop more)
      | .incomplete => ['\ufffd']
termination_by x => x.length
decreasing_by all_goals simp only [List.length_drop, List.length_cons]; omega

def decodeLossy (x : Bytes) : String := String.ofList (lossyScalars x)

/-- The bytes of some text. -/
def Valid (x : Bytes) : Prop := ∃ s : String, x = Bytes.ofText s

end LayeredTemplate.Utf8
