import LayeredTemplate.Handler
import LayeredTemplate.Json.Text

/-! The formatter that writes values as JSON. -/
namespace LayeredTemplate.Json

/-- The document that stands for a value. Readers, foreign values and missing ones have none. -/
def ofValue? {ω : Type} : Value ω → Option Json
  | .text s => some (.text s)
  | .bytes b => some (.ofBytes b)
  | .integer n => some (.integer n)
  | .unsigned n => some (.integer n)
  | .float x => some (.ofFloat x)
  | .boolean b => some (.boolean b)
  | .json document => some document
  | .reader _ | .foreign _ | .notGiven => none

def Layout.ofArgs : Option Bytes → Except Failure Layout
  | none => .ok .compact
  | some args =>
      if args = Bytes.ofText "compact" then .ok .compact
      else if args = Bytes.ofText "pretty" then .ok .pretty
      else .error (.invalidArguments args "can only be compact or pretty")

def formatter {ω : Type} : Formatter ω := fun v args =>
  match Layout.ofArgs args, ofValue? v with
  | .error e, _ => .done (.error e)
  | .ok layout, some document =>
      .sendEach (fun e => .error (.io e)) (.done (.ok ())) (fragments layout 0 document)
  | .ok _, none =>
      .done (.error (if v.isNotGiven then .notGiven else .noDefaultHandling v.shape))

end LayeredTemplate.Json
