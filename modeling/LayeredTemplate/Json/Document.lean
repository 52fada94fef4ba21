import LayeredTemplate.Decimal.Binary64

/-! JSON documents. -/
namespace LayeredTemplate

inductive Json where
  | null
  | boolean (b : Bool)
  | integer (n : Int)
  | float (x : Binary64)
  | text (s : String)
  | array (elements : List Json)
  | object (members : List (String × Json))
  deriving Repr

namespace Json

/-- A number that is not finite has no JSON form and gives way to `null`. -/
def ofFloat (x : Binary64) : Json := if x.isFinite then .float x else .null

/-- Puts a member among members in ascending order of keys, in place of one with its key. -/
def insert (key : String) (value : Json) : List (String × Json) → List (String × Json)
  | [] => [(key, value)]
  | (k, v) :: rest =>
      if key < k then (key, value) :: (k, v) :: rest
      else if key = k then (key, value) :: rest
      else (k, v) :: insert key value rest

/-- Members are ordered by the code points of their keys; of two with one key the later counts. -/
def ofMembers (members : List (String × Json)) : Json :=
  .object (members.foldl (fun sorted (k, v) => insert k v sorted) [])

/-- The array of the bytes as numbers. -/
def ofBytes (x : List UInt8) : Json := .array (x.map fun b => .integer b.toNat)

/-- An array of one element, `n` times over. -/
def nest : (n : Nat) → Json → Json
  | 0, j => j
  | n + 1, j => .array [nest n j]

end Json
end LayeredTemplate
