import LayeredTemplate.Failure
import LayeredTemplate.Json.Text

/-! Data of other kinds than documents have, and the documents that they are turned into. -/
namespace LayeredTemplate.Json

inductive Datum where
  | wide (n : Nat)
  | float (x : Binary64)
  | bytes (b : Bytes)
  | document (j : Json)
  | map (entries : List (Datum × Datum))

namespace Datum

/-- The largest integer that a document holds. -/
def greatest : Nat := 18446744073709551615

/-- The text that stands for a key. Only what has one form as a text can be a key. -/
def key : Datum → Except Failure String
  | .wide n => .ok (toString n)
  | .float x => floatKey x
  | .document (.text s) => .ok s
  | .document (.integer n) => .ok (toString n)
  | .document (.boolean b) => .ok (toString b)
  | .document (.float x) => floatKey x
  | .document _ | .bytes _ | .map _ => .error (.handler "key must be a string")
where
  floatKey (x : Binary64) : Except Failure String :=
    match numberStyle.write x with
    | some s => .ok s
    | none => .error (.handler "float key must be finite (got NaN or +/-inf)")

mutual

/-- The document that a datum is turned into. A number out of range has none. -/
def toDocument : Datum → Except Failure Json
  | .wide n => if n ≤ greatest then .ok (.integer n) else .error (.handler "number out of range")
  | .float x => .ok (.ofFloat x)
  | .bytes b => .ok (.ofBytes b)
  | .document j => .ok j
  | .map entries => (toMembers entries).map .ofMembers

/-- Entries are turned into members in order, a key before its value. -/
def toMembers : List (Datum × Datum) → Except Failure (List (String × Json))
  | [] => .ok []
  | (k, v) :: rest =>
      match k.key with
      | .error e => .error e
      | .ok key =>
          match toDocument v with
          | .error e => .error e
          | .ok value => (toMembers rest).map ((key, value) :: ·)

end

end Datum
end LayeredTemplate.Json
