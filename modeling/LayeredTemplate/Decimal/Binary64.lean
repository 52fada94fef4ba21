/-! Binary floating-point numbers by their bits. -/
namespace LayeredTemplate

structure Binary64 where
  bits : UInt64
  deriving DecidableEq, Repr

namespace Binary64

def isNegative (x : Binary64) : Bool := x.bits.toNat.testBit 63

def exponentBits (x : Binary64) : Nat := (x.bits.toNat >>> 52) % 2048

def fractionBits (x : Binary64) : Nat := x.bits.toNat % (1 <<< 52)

/-- A finite magnitude is `significand * 2 ^ exponent`. It is `narrow` if the next smaller number is
only half as far away as the next larger one. -/
inductive Magnitude where
  | nan
  | infinite
  | finite (significand : Nat) (exponent : Int) (narrow : Bool)
  deriving DecidableEq, Repr

def magnitude (x : Binary64) : Magnitude :=
  let e := x.exponentBits
  let f := x.fractionBits
  if e = 2047 then if f = 0 then .infinite else .nan
  else if e = 0 then .finite f (-1074) false
  else .finite ((1 <<< 52) + f) (e - 1075) (f = 0 ∧ 1 < e)

def isFinite (x : Binary64) : Bool :=
  match x.magnitude with
  | .finite .. => true
  | _ => false

/-- The number with the same value as the single-precision one with these bits. A subnormal one of
those has a leading bit of its own here. -/
def ofBinary32 (bits : UInt32) : Binary64 :=
  let n := bits.toNat
  let sign := (n >>> 31) <<< 63
  let e := (n >>> 23) % 256
  let f := n % (1 <<< 23)
  let rest :=
    if e = 255 then (2047 <<< 52) + (f <<< 29)
    else if e = 0 then
      if f = 0 then 0
      else
        let k := f.log2
        ((k + 874) <<< 52) + ((f - (1 <<< k)) <<< (52 - k))
    else ((e + 896) <<< 52) + (f <<< 29)
  ⟨UInt64.ofNat (sign + rest)⟩

end Binary64
end LayeredTemplate
