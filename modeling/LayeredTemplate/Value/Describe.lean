import LayeredTemplate.Json.Describe
import LayeredTemplate.Value

/-! A description of values that names their shape. What a reader or a foreign value holds is not
shown. -/
namespace LayeredTemplate.Value

/-- Numbers are written positionally while their first digit has an exponent from -4 to 15. -/
def numberStyle : Decimal.Style := ⟨-4, 15, false, .above⟩

def describeFloat (x : Binary64) : String :=
  match x.magnitude with
  | .nan => "NaN"
  | .infinite => if x.isNegative then "-inf" else "inf"
  | .finite .. => (numberStyle.write x).getD ""

def describe {ω : Type} : Value ω → String
  | .text s =>
      let shown := Text.quote s
      s!"Text({shown})"
  | .bytes b =>
      let shown := ", ".intercalate (b.map fun n => toString n.toNat)
      s!"Bytes([{shown}])"
  | .reader _ => "Reader(..)"
  | .integer n => s!"Int({n})"
  | .unsigned n => s!"UInt({n})"
  | .float x =>
      let shown := describeFloat x
      s!"Float({shown})"
  | .boolean b => s!"Bool({b})"
  | .json document =>
      let shown := document.describe
      s!"Json({shown})"
  | .foreign _ => "Opaque(..)"
  | .notGiven => "NotGiven"

end LayeredTemplate.Value
