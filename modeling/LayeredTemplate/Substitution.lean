import LayeredTemplate.Bytes

/-! Replacing single bytes. The result comes in fragments: each longest run of bytes that stay, and
the parts of each replacement. -/
namespace LayeredTemplate.Substitution

/-- `run` holds, last byte first, the bytes since the last one replaced. -/
def fragmentsFrom (replacement : UInt8 → Option (List Bytes)) : (run : Bytes) → Bytes → List Bytes
  | run, [] => if run = [] then [] else [run.reverse]
  | run, b :: rest =>
      match replacement b with
      | none => fragmentsFrom replacement (b :: run) rest
      | some parts =>
          (if run = [] then [] else [run.reverse]) ++ parts ++ fragmentsFrom replacement [] rest

def fragments (replacement : UInt8 → Option (List Bytes)) (x : Bytes) : List Bytes :=
  fragmentsFrom replacement [] x

/-- What the fragments amount to: each byte in order, as itself or replaced. -/
def apply (replacement : UInt8 → Option (List Bytes)) (x : Bytes) : Bytes :=
  x.flatMap fun b => match replacement b with
    | none => [b]
    | some parts => parts.flatten

end LayeredTemplate.Substitution
