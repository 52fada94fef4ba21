import LayeredTemplate.Decimal.Binary64

/-! The shortest decimal that reads back as a given binary number, and among those of that length
the one nearest to it. For each number of digits the two neighbours of the number on the decimal
grid are tested in exact arithmetic against the interval of reals that round to it. -/
namespace LayeredTemplate.Decimal

/-- Which of two neighbours counts as nearer to a number half way between them. -/
inductive Tie where
  | even | above
  deriving DecidableEq, Repr

/-- A positive decimal by its digits, without leading or trailing zeros, and the exponent of the
first of them. -/
structure Digits where
  digits : List Char
  leading : Int
  deriving DecidableEq, Repr

/-- `value`, `low` and `high` are multiples of one unit, `unit = 1 / scale`. The ends of the
interval count if `closed`. -/
structure Target where
  value : Nat
  low : Nat
  high : Nat
  scale : Nat
  closed : Bool
  deriving DecidableEq, Repr

/-- The interval reaches half way to the neighbouring binary numbers. -/
def Target.of (significand : Nat) (exponent : Int) (narrow : Bool) : Target :=
  let up := (exponent - 2).toNat
  { value := (4 * significand) <<< up
    low := (4 * significand - if narrow then 1 else 2) <<< up
    high := (4 * significand + 2) <<< up
    scale := 1 <<< (2 - exponent).toNat
    closed := significand % 2 = 0 }

namespace Target

variable (t : Target)

/-- The exponent of the first digit. No positive binary number is below `10 ^ -400`. -/
def leading : Int :=
  ((Nat.toDigits 10 (t.value * Nat.pow 10 400 / t.scale)).length : Int) - 401

/-- The unit of the grid `10 ^ place`, as `step / shrink` units of the target. -/
def step (place : Int) : Nat := t.scale * Nat.pow 10 place.toNat

def shrink (place : Int) : Nat := Nat.pow 10 (-place).toNat

/-- The grid point `c * 10 ^ place` reads back as the number. -/
def holds (place : Int) (c : Nat) : Bool :=
  let point := c * t.step place
  let low := t.low * shrink place
  let high := t.high * shrink place
  if t.closed then low ≤ point ∧ point ≤ high else low < point ∧ point < high

/-- The grid point below the number is the nearer one. -/
def belowIsNearer (tie : Tie) (place : Int) (below : Nat) : Bool :=
  let twice := 2 * (t.value * shrink place - below * t.step place)
  twice < t.step place ∨ twice = t.step place ∧ tie = .even ∧ below % 2 = 0

/-- The nearer of the two neighbours on the grid that read back, if one does. -/
def neighbour (tie : Tie) (place : Int) : Option Nat :=
  let below := t.value * shrink place / t.step place
  match t.holds place below, t.holds place (below + 1) with
  | true, true => some (if t.belowIsNearer tie place below then below else below + 1)
  | true, false => some below
  | false, true => some (below + 1)
  | false, false => none

/-- The first hit at the places from `place` down; `tries` bounds how many. -/
def search (tie : Tie) : (tries : Nat) → (place : Int) → Option (Nat × Int)
  | 0, _ => none
  | tries + 1, place =>
      match t.neighbour tie place with
      | some c => some (c, place)
      | none => search tie tries (place - 1)

end Target

/-- Seventeen digits always suffice. -/
def shortest (tie : Tie) (significand : Nat) (exponent : Int) (narrow : Bool) : Digits :=
  let t := Target.of significand exponent narrow
  let (c, place) := (t.search tie 17 t.leading).getD (0, 0)
  let digits := Nat.toDigits 10 c
  ⟨(digits.reverse.dropWhile (· = '0')).reverse, place + digits.length - 1⟩

end LayeredTemplate.Decimal
