import LayeredTemplate.Decimal.Binary64

/-! The binary number nearest to a decimal; of two equally near ones the one with an even
significand. -/
namespace LayeredTemplate.Decimal

/-- The integer nearest to `num / den`. -/
def roundQuotient (num den : Nat) : Nat :=
  let below := num / den
  let rest := num % den
  if den < 2 * rest ∨ den = 2 * rest ∧ below % 2 = 1 then below + 1 else below

/-- `num / den` in units of `2 ^ exponent`, as a fraction again. -/
def scaled (num den : Nat) (exponent : Int) : Nat × Nat :=
  (num <<< (-exponent).toNat, den <<< exponent.toNat)

/-- The exponent at which the significand of `num / den` has 53 bits, or the least there is. -/
def exponentOf (num den : Nat) : Int :=
  let e := max ((num.log2 : Int) - den.log2 - 52) (-1074)
  let (n, d) := scaled num den e
  if n < d <<< 52 ∧ -1074 < e then e - 1 else e

/-- The bits of a magnitude. None are large enough beyond the greatest finite one. -/
def assemble (significand : Nat) (exponent : Int) : Option Nat :=
  if significand < 1 <<< 52 then some significand
  else
    let (m, e) :=
      if significand = 1 <<< 53 then (1 <<< 52, exponent + 1) else (significand, exponent)
    if e ≤ 971 then some (((e + 1075).toNat <<< 52) + (m - (1 <<< 52))) else none

/-- The bits of the magnitude nearest to `num / den`. -/
def nearestBits (num den : Nat) : Option Nat :=
  let e := exponentOf num den
  let (n, d) := scaled num den e
  assemble (roundQuotient n d) e

/-- The number nearest to `digits * 10 ^ place`. What is below `10 ^ -400` or above `10 ^ 400` is
beyond all numbers, however large the exponent. -/
def nearest (negative : Bool) (digits : Nat) (place : Int) : Option Binary64 :=
  let last := (Nat.toDigits 10 digits).length + place
  let bits :=
    if digits = 0 ∨ last < -400 then some 0
    else if 400 < last then none
    else nearestBits (digits * Nat.pow 10 place.toNat) (Nat.pow 10 (-place).toNat)
  bits.map fun bits => ⟨UInt64.ofNat ((if negative then 1 <<< 63 else 0) + bits)⟩

end LayeredTemplate.Decimal
