import LayeredTemplate.Failure
import LayeredTemplate.Json.Document
import LayeredTemplate.Source
import LayeredTemplate.Writing

/-! Values: the arguments that directives take. -/
namespace LayeredTemplate

/-- `foreign` carries what only a formatter that knows the type `ω` can use. `notGiven` stands for
an argument that is missing. -/
inductive Value (ω : Type) where
  | text (s : String)
  | bytes (b : Bytes)
  | reader (source : Source)
  | integer (n : Int)
  | unsigned (n : Nat)
  | float (x : Binary64)
  | boolean (b : Bool)
  | json (document : Json)
  | foreign (payload : ω)
  | notGiven

namespace Value

variable {ω : Type}

def shape : Value ω → String
  | .text _ => "text"
  | .bytes _ => "bytes"
  | .reader _ => "reader"
  | .integer _ => "integer"
  | .unsigned _ => "unsigned integer"
  | .float _ => "float"
  | .boolean _ => "boolean"
  | .json _ => "json"
  | .foreign _ => "opaque"
  | .notGiven => "not given"

def isNotGiven : Value ω → Bool
  | .notGiven => true
  | _ => false

def isNumber : Value ω → Bool
  | .integer _ | .unsigned _ | .float _ => true
  | _ => false

def text? : Value ω → Option String
  | .text s => some s
  | _ => none

def bytes? : Value ω → Option Bytes
  | .text s => some (Bytes.ofText s)
  | .bytes b => some b
  | _ => none

def foreign? : Value ω → Option ω
  | .foreign payload => some payload
  | _ => none

/-- How many bytes of a reader are passed on at a time. -/
def portion : Nat := 8192

/-- Writes the bytes of a value as they are: a text or byte string at once, a reader in the portions
in which it is read. Other values have no bytes of their own. -/
def writeRaw (v : Value ω) : Writing (Except Failure Unit) :=
  let send (fragments : List Bytes) (result : Except IoError Unit) :=
    Writing.sendEach (fun e => .error (.io e)) (.done (result.mapError .io)) fragments
  match v with
  | .text s => send [Bytes.ofText s] (.ok ())
  | .bytes b => send [b] (.ok ())
  | .reader source =>
      let (portions, result) := source.reads portion
      send portions result
  | .notGiven => .done (.error .notGiven)
  | other => .done (.error (.noDefaultHandling other.shape))

end Value
end LayeredTemplate
