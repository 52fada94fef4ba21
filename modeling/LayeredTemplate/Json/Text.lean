import LayeredTemplate.Decimal.Style
import LayeredTemplate.Json.Document
import LayeredTemplate.Substitution

/-! The JSON text of a document, in one line or indented, as the fragments in which it is written.
Control characters are escaped, and of the others only the quotation mark and the backslash. -/
namespace LayeredTemplate.Json

/-- Numbers are written positionally while their first digit has an exponent from -5 to 15. -/
def numberStyle : Decimal.Style := ⟨-5, 15, true, .even⟩

inductive Layout where
  | compact | pretty
  deriving DecidableEq, Repr

def escape (b : UInt8) : Option (List Bytes) :=
  match b with
  | 0x08 => some [Bytes.ofText "\\b"]
  | 0x09 => some [Bytes.ofText "\\t"]
  | 0x0a => some [Bytes.ofText "\\n"]
  | 0x0c => some [Bytes.ofText "\\f"]
  | 0x0d => some [Bytes.ofText "\\r"]
  | 0x22 => some [Bytes.ofText "\\\""]
  | 0x5c => some [Bytes.ofText "\\\\"]
  | _ =>
      if b < 0x20 then
        some [Bytes.ofText "\\u00" ++ [0x30 + b / 16, if b % 16 < 10 then 0x30 + b % 16
          else 0x57 + b % 16]]
      else none

def quoteFragments (s : String) : List Bytes :=
  [[0x22]] ++ Substitution.fragments escape (Bytes.ofText s) ++ [[0x22]]

namespace Layout

/-- A new line, with two spaces for each level. -/
def newline (before : Bytes) (level : Nat) : Layout → List Bytes
  | .compact => if before = [] then [] else [before]
  | .pretty => (before ++ [0x0a]) :: List.replicate level [0x20, 0x20]

/-- What stands before the first element and between elements. -/
def separator (layout : Layout) (isFirst : Bool) (level : Nat) : List Bytes :=
  layout.newline (if isFirst then [] else [0x2c]) level

def colon : Layout → Bytes
  | .compact => [0x3a]
  | .pretty => [0x3a, 0x20]

end Layout

mutual

/-- The fragments of a document that stands at an indentation of `level`. -/
def fragments (layout : Layout) (level : Nat) : Json → List Bytes
  | .null => [Bytes.ofText "null"]
  | .boolean b => [Bytes.ofText (if b then "true" else "false")]
  | .integer n => [Bytes.ofText (toString n)]
  | .float x => [Bytes.ofText ((numberStyle.write x).getD "null")]
  | .text s => quoteFragments s
  | .array [] => [[0x5b], [0x5d]]
  | .array elements =>
      [0x5b] :: (elementFragments layout (level + 1) true elements ++
        (layout.newline [] level ++ [[0x5d]]))
  | .object [] => [[0x7b], [0x7d]]
  | .object members =>
      [0x7b] :: (memberFragments layout (level + 1) true members ++
        (layout.newline [] level ++ [[0x7d]]))

def elementFragments (layout : Layout) (level : Nat) : (isFirst : Bool) → List Json → List Bytes
  | _, [] => []
  | isFirst, j :: rest =>
      layout.separator isFirst level ++ (fragments layout level j ++
        elementFragments layout level false rest)

def memberFragments (layout : Layout) (level : Nat) :
    (isFirst : Bool) → List (String × Json) → List Bytes
  | _, [] => []
  | isFirst, (key, j) :: rest =>
      layout.separator isFirst level ++ (quoteFragments key ++ layout.colon ::
        (fragments layout level j ++ memberFragments layout level false rest))

end

/-- The JSON text of a document. -/
def render (layout : Layout) (j : Json) : Bytes := (fragments layout 0 j).flatten

end LayeredTemplate.Json
