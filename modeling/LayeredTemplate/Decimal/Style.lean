import LayeredTemplate.Decimal.Shortest

/-! How a binary number is written in decimal. -/
namespace LayeredTemplate.Decimal

/-- Numbers whose first digit has an exponent from `least` to `most` are written positionally,
others with an exponent, which has a sign in any case if `signed`. -/
structure Style where
  least : Int
  most : Int
  signed : Bool
  tie : Tie
  deriving DecidableEq, Repr

def Digits.positional (d : Digits) : String :=
  let zeros (n : Int) := List.replicate n.toNat '0'
  if d.leading < 0 then
    String.ofList ('0' :: '.' :: zeros (-d.leading - 1) ++ d.digits)
  else
    let whole := (d.leading + 1).toNat
    let fraction := d.digits.drop whole
    String.ofList (d.digits.take whole ++ zeros (whole - d.digits.length) ++
      '.' :: if fraction = [] then ['0'] else fraction)

def Digits.exponential (signed : Bool) (d : Digits) : String :=
  let fraction := d.digits.drop 1
  let mark := if signed ∧ 0 ≤ d.leading then "e+" else "e"
  String.ofList (d.digits.take 1 ++ if fraction = [] then [] else '.' :: fraction) ++
    mark ++ toString d.leading

/-- The text of a number that is neither infinite nor no number; nothing for those. -/
def Style.write (style : Style) (x : Binary64) : Option String :=
  match x.magnitude with
  | .finite significand exponent narrow =>
      let sign := if x.isNegative then "-" else ""
      let d := shortest style.tie significand exponent narrow
      some <| sign ++
        if significand = 0 then "0.0"
        else if style.least ≤ d.leading ∧ d.leading ≤ style.most then d.positional
        else d.exponential style.signed
  | _ => none

end LayeredTemplate.Decimal
