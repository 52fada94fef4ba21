import LayeredTemplate.Decimal.Nearest
import LayeredTemplate.Json.Document
import LayeredTemplate.Utf8

/-! Reading JSON texts. Each reader takes what it reads from the front and gives back the rest. -/
namespace LayeredTemplate.Json

def isBlank (b : UInt8) : Bool := b = 0x20 ∨ b = 0x09 ∨ b = 0x0a ∨ b = 0x0d

def skipBlanks (x : Bytes) : Bytes := x.dropWhile isBlank

def isDigit (b : UInt8) : Bool := 0x30 ≤ b ∧ b ≤ 0x39

/-- The digits at the front, as many as there are. -/
def readDigits (x : Bytes) : Bytes × Bytes := x.span isDigit

/-- The number that some digits stand for, after `n`. -/
def numeral (n : Nat) (digits : Bytes) : Nat :=
  digits.foldl (fun n b => n * 10 + (b.toNat - 0x30)) n

/-- A fraction, if there is a point, without the point. -/
def readFraction : Bytes → Option (Bytes × Bytes)
  | 0x2e :: x =>
      let (digits, rest) := readDigits x
      if digits = [] then none else some (digits, rest)
  | x => some ([], x)

/-- An exponent, if there is a mark for one. -/
def readExponent : Bytes → Option (Option Int × Bytes)
  | [] => some (none, [])
  | mark :: x =>
      if mark = 0x65 ∨ mark = 0x45 then
        let negative := x.head? = some 0x2d
        let unsigned := if negative ∨ x.head? = some 0x2b then x.tail else x
        let (digits, rest) := readDigits unsigned
        if digits = [] then none
        else
          let n : Int := numeral 0 digits
          some (some (if negative then -n else n), rest)
      else some (none, mark :: x)

/-- A number. One with a fraction or an exponent is binary, any other an integer. Zero is the only
integer part that begins with a zero. -/
def readNumber (x : Bytes) : Option (Json × Bytes) := do
  let negative := x.head? = some 0x2d
  let (whole, rest) := readDigits (if negative then x.tail else x)
  if whole = [] ∨ whole.head? = some 0x30 ∧ whole ≠ [0x30] then none
  let (fraction, rest) ← readFraction rest
  let (exponent, rest) ← readExponent rest
  let n := numeral 0 whole
  if fraction = [] ∧ exponent = none then
    return (.integer (if negative then -n else n), rest)
  else
    let value ← Decimal.nearest negative (numeral n fraction)
      (exponent.getD 0 - (fraction.length : Int))
    return (.float value, rest)

def hexValue (b : UInt8) : Option Nat :=
  if isDigit b then some (b.toNat - 0x30)
  else if 0x61 ≤ b ∧ b ≤ 0x66 then some (b.toNat - 0x57)
  else if 0x41 ≤ b ∧ b ≤ 0x46 then some (b.toNat - 0x37)
  else none

/-- The code unit that four digits stand for. -/
def codeUnit (a b c d : UInt8) : Option Nat := do
  let a ← hexValue a
  let b ← hexValue b
  let c ← hexValue c
  let d ← hexValue d
  return ((a * 16 + b) * 16 + c) * 16 + d

/-- The byte that a short escape stands for. -/
def shortEscape (b : UInt8) : Option UInt8 :=
  match b with
  | 0x62 => some 0x08
  | 0x74 => some 0x09
  | 0x6e => some 0x0a
  | 0x66 => some 0x0c
  | 0x72 => some 0x0d
  | 0x22 | 0x2f | 0x5c => some b
  | _ => none

/-- What follows an opening quotation mark, up to the closing one, with escapes resolved. Two code
units that belong together make one character; one alone that does not make one is refused. -/
def readQuoted : Bytes → Option (Bytes × Bytes)
  | [] => none
  | 0x22 :: rest => some ([], rest)
  | 0x5c :: 0x75 :: a :: b :: c :: d :: 0x5c :: 0x75 :: e :: f :: g :: h :: rest => do
      let n ← codeUnit a b c d
      if 0xd800 ≤ n ∧ n < 0xdc00 then
        let m ← codeUnit e f g h
        if 0xdc00 ≤ m ∧ m < 0xe000 then
          let (more, rest) ← readQuoted rest
          let c := Char.ofNat (0x10000 + (n - 0xd800) * 0x400 + (m - 0xdc00))
          return (String.utf8EncodeChar c ++ more, rest)
        else none
      else if 0xdc00 ≤ n ∧ n < 0xe000 then none
      else
        let (more, rest) ← readQuoted (0x5c :: 0x75 :: e :: f :: g :: h :: rest)
        return (String.utf8EncodeChar (Char.ofNat n) ++ more, rest)
  | 0x5c :: 0x75 :: a :: b :: c :: d :: rest => do
      let n ← codeUnit a b c d
      if 0xd800 ≤ n ∧ n < 0xe000 then none
      else
        let (more, rest) ← readQuoted rest
        return (String.utf8EncodeChar (Char.ofNat n) ++ more, rest)
  | 0x5c :: b :: rest => do
      let b ← shortEscape b
      let (more, rest) ← readQuoted rest
      return (b :: more, rest)
  | b :: rest => do
      if b < 0x20 then none
      let (more, rest) ← readQuoted rest
      return (b :: more, rest)

/-- A text, from the byte after its opening quotation mark. -/
def readText (x : Bytes) : Option (String × Bytes) := do
  let (inner, rest) ← readQuoted x
  match Utf8.decode inner with
  | .ok s => return (s, rest)
  | .error _ => none

/-- Takes a word from the front. -/
def readWord (word : String) (x : Bytes) : Option Bytes :=
  if (Bytes.ofText word).isPrefixOf x then some (x.drop (Bytes.ofText word).length) else none

mutual

/-- A value, after blanks. `fuel` bounds the values that begin in the text. -/
def readValue : (fuel : Nat) → Bytes → Option (Json × Bytes)
  | 0, _ => none
  | fuel + 1, x =>
      match skipBlanks x with
      | [] => none
      | 0x6e :: rest => (readWord "ull" rest).map (.null, ·)
      | 0x74 :: rest => (readWord "rue" rest).map (.boolean true, ·)
      | 0x66 :: rest => (readWord "alse" rest).map (.boolean false, ·)
      | 0x22 :: rest => (readText rest).map fun (s, rest) => (.text s, rest)
      | 0x5b :: rest =>
          match skipBlanks rest with
          | 0x5d :: rest => some (.array [], rest)
          | _ => (readElements fuel rest).map fun (elements, rest) => (.array elements, rest)
      | 0x7b :: rest =>
          match skipBlanks rest with
          | 0x7d :: rest => some (.object [], rest)
          | _ => (readMembers fuel rest).map fun (members, rest) => (.object members, rest)
      | x => readNumber x

/-- The elements up to the end of an array, of which there is at least one. -/
def readElements : (fuel : Nat) → Bytes → Option (List Json × Bytes)
  | 0, _ => none
  | fuel + 1, x => do
      let (j, rest) ← readValue fuel x
      match skipBlanks rest with
      | 0x2c :: rest =>
          let (more, rest) ← readElements fuel rest
          return (j :: more, rest)
      | 0x5d :: rest => return ([j], rest)
      | _ => none

/-- The members up to the end of an object, of which there is at least one. -/
def readMembers : (fuel : Nat) → Bytes → Option (List (String × Json) × Bytes)
  | 0, _ => none
  | fuel + 1, x =>
      match skipBlanks x with
      | 0x22 :: rest => do
          let (key, rest) ← readText rest
          match skipBlanks rest with
          | 0x3a :: rest =>
              let (j, rest) ← readValue fuel rest
              match skipBlanks rest with
              | 0x2c :: rest =>
                  let (more, rest) ← readMembers fuel rest
                  return ((key, j) :: more, rest)
              | 0x7d :: rest => return ([(key, j)], rest)
              | _ => none
          | _ => none
      | _ => none

end

/-- The document that a whole text denotes. A value takes a byte and at most two calls, so that the
fuel is never used up by a text that denotes one. -/
def read (x : Bytes) : Option Json :=
  match readValue (2 * x.length + 1) x with
  | some (j, rest) => if skipBlanks rest = [] then some j else none
  | none => none

end LayeredTemplate.Json
