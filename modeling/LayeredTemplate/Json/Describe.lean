import LayeredTemplate.Decimal.Style
import LayeredTemplate.Json.Document
import LayeredTemplate.Json.Text
import LayeredTemplate.Text.Quoted

/-! A description of documents that names the kind of each part. -/
namespace LayeredTemplate.Json

mutual

def describe : Json → String
  | .null => "Null"
  | .boolean b => s!"Bool({b})"
  | .integer n => s!"Number({n})"
  | .float x =>
      let shown := (numberStyle.write x).getD "null"
      s!"Number({shown})"
  | .text s =>
      let shown := Text.quote s
      s!"String({shown})"
  | .array elements => "Array [" ++ ", ".intercalate (describeElements elements) ++ "]"
  | .object members => "Object \x7b" ++ ", ".intercalate (describeMembers members) ++ "\x7d"

def describeElements : List Json → List String
  | [] => []
  | j :: rest => describe j :: describeElements rest

def describeMembers : List (String × Json) → List String
  | [] => []
  | (key, j) :: rest => (Text.quote key ++ ": " ++ describe j) :: describeMembers rest

end

end LayeredTemplate.Json
