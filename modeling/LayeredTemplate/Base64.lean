import LayeredTemplate.Handler

/-! Base64 with either alphabet, padded or not: of a whole byte string, and as a layer that encodes
blocks of three bytes as they come and holds back the remainder. -/
namespace LayeredTemplate.Base64

structure Variant where
  urlSafe : Bool
  padded : Bool
  deriving DecidableEq, Repr

/-- The letter for six bits. -/
def Variant.letter (v : Variant) (n : Nat) : UInt8 :=
  if n < 26 then .ofNat (0x41 + n)
  else if n < 52 then .ofNat (0x61 + (n - 26))
  else if n < 62 then .ofNat (0x30 + (n - 52))
  else if n = 62 then if v.urlSafe then 0x2d else 0x2b
  else if v.urlSafe then 0x5f else 0x2f

/-- The alphabets in the order of the letters' values. -/
theorem Variant.map_letter (v : Variant) : (List.range 64).map v.letter =
    Bytes.ofText "ABCDEFGHIJKLMNOPQRSTUVWXYZabcdefghijklmnopqrstuvwxyz0123456789" ++
      Bytes.ofText (if v.urlSafe then "-_" else "+/") := by
  obtain ⟨urlSafe, padded⟩ := v
  cases urlSafe <;> cases padded <;> decide +kernel

def Variant.padding (v : Variant) (n : Nat) : Bytes :=
  if v.padded then List.replicate n 0x3d else []

def encode (v : Variant) : Bytes → Bytes
  | [] => []
  | [a] => [v.letter (a.toNat / 4), v.letter (a.toNat % 4 * 16)] ++ v.padding 2
  | [a, b] =>
      [v.letter (a.toNat / 4), v.letter (a.toNat % 4 * 16 + b.toNat / 16),
        v.letter (b.toNat % 16 * 4)] ++ v.padding 1
  | a :: b :: c :: rest =>
      v.letter (a.toNat / 4) :: v.letter (a.toNat % 4 * 16 + b.toNat / 16) ::
        v.letter (b.toNat % 16 * 4 + c.toNat / 64) :: v.letter (c.toNat % 64) :: encode v rest

/-- The six bits that a letter stands for. -/
def Variant.value (v : Variant) (b : UInt8) : Option Nat :=
  (List.range 64).find? fun n => v.letter n = b

/-- Three bytes from the six bits of four letters. -/
def bytesOf (p q r s : Nat) : Bytes :=
  [.ofNat (p * 4 + q / 16), .ofNat (q % 16 * 16 + r / 4), .ofNat (r % 4 * 64 + s)]

/-- The last letters of a text that end in the middle of a block: unused bits have to be zero. -/
def decodeTail (v : Variant) : Bytes → Option Bytes
  | [] => some []
  | [a, b] => do
      let p ← v.value a
      let q ← v.value b
      if q % 16 = 0 then some ((bytesOf p q 0 0).take 1) else none
  | [a, b, c] => do
      let p ← v.value a
      let q ← v.value b
      let r ← v.value c
      if r % 4 = 0 then some ((bytesOf p q r 0).take 2) else none
  | _ => none

/-- The bytes that a text encodes. -/
def decode (v : Variant) : Bytes → Option Bytes
  | a :: b :: c :: d :: rest =>
      if v.padded ∧ d = 0x3d ∧ rest = [] then
        decodeTail v (if c = 0x3d then [a, b] else [a, b, c])
      else do
        let p ← v.value a
        let q ← v.value b
        let r ← v.value c
        let s ← v.value d
        (decode v rest).map (bytesOf p q r s ++ ·)
  | short => if v.padded ∧ short ≠ [] then none else decodeTail v short

/-- Encodes all whole blocks at once and holds back the rest. Nothing was held before. -/
def writeBlocks (v : Variant) (x : Bytes) : Writing (Except IoError Unit × Bytes) :=
  let whole := x.length - x.length % 3
  if whole = 0 then .done (.ok (), x)
  else .sendEach (fun e => (.error e, [])) (.done (.ok (), x.drop whole)) [encode v (x.take whole)]

/-- Bytes held back are completed to a block first, which is then written for itself. -/
def write (v : Variant) (x held : Bytes) : Writing (Except IoError Unit × Bytes) :=
  if held = [] then writeBlocks v x
  else
    let block := held ++ x.take (3 - held.length)
    if block.length < 3 then .done (.ok (), block)
    else
      .sendEach (fun e => (.error e, [])) (writeBlocks v (x.drop (3 - held.length)))
        [encode v block]

def finalize (v : Variant) (held : Bytes) : Writing (Except IoError Unit × Bytes) :=
  if held = [] then .done (.ok (), [])
  else .sendEach (fun e => (.error e, [])) (.done (.ok (), [])) [encode v held]

def layer (v : Variant) : Layer where
  State := Bytes
  start := []
  write := write v
  finalize := some (finalize v)

def Variant.ofArgs : Option Bytes → Except Failure Variant
  | none => .ok ⟨false, true⟩
  | some args =>
      if args = Bytes.ofText "std" then .ok ⟨false, true⟩
      else if args = Bytes.ofText "url" then .ok ⟨true, true⟩
      else if args = Bytes.ofText "std-nopad" then .ok ⟨false, false⟩
      else if args = Bytes.ofText "url-nopad" then .ok ⟨true, false⟩
      else .error (.invalidArguments args "can only be std, url, std-nopad or url-nopad")

def encoder : Encoder := fun args =>
  match Variant.ofArgs args with
  | .ok v => .ok (layer v)
  | .error e => .error e

end LayeredTemplate.Base64
