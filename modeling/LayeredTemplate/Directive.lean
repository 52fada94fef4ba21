import LayeredTemplate.Escape
import LayeredTemplate.Utf8

/-! Directives: a chain of named stages, separated by `|`, each with optional arguments after `:`.
Both splits come before escapes are resolved, so that an escaped separator separates nothing. -/
namespace LayeredTemplate

/-- `args` is absent where no `:` was written, and empty where nothing follows it. -/
structure Stage where
  name : String
  args : Option Bytes
  deriving DecidableEq, Repr

namespace Stage

def parse (raw : Bytes) : Stage :=
  let (name, args) := Escape.splitFirst Bytes.colon raw
  ⟨Utf8.decodeLossy (Escape.resolve name), args.map Escape.resolve⟩

/-- The ways to write a stage: in the name `|`, `:` and `;` are protected, in the arguments `|` and
`;`, in both the backslash, and other bytes as one likes. -/
inductive Written : Stage → Bytes → Prop
  | bare {name : String} {x : Bytes} :
      Escape.Protects (· ∈ [Bytes.bar, Bytes.colon, Bytes.semicolon]) (Bytes.ofText name) x →
      Written ⟨name, none⟩ x
  | withArgs {name : String} {args x y : Bytes} :
      Escape.Protects (· ∈ [Bytes.bar, Bytes.colon, Bytes.semicolon]) (Bytes.ofText name) x →
      Escape.Protects (· ∈ [Bytes.bar, Bytes.semicolon]) args y →
      Written ⟨name, some args⟩ (x ++ Bytes.colon :: y)

end Stage

/-- `percent` stands for the sign itself. In a chain the head makes the first bytes and the
encoders are applied to them from left to right. -/
inductive Directive where
  | percent
  | chain (head : Stage) (encoders : List Stage)
  deriving DecidableEq, Repr

namespace Directive

/-- Reads the body of a directive, without its `%` and `;`. Every body is a directive; whether its
names mean anything is seen when it runs. -/
def parse (raw : Bytes) : Directive :=
  match Escape.split Bytes.bar raw with
  | [] => .chain (Stage.parse []) []
  | [head] =>
      if Escape.resolve head = [Bytes.percent] then .percent else .chain (Stage.parse head) []
  | head :: encoders => .chain (Stage.parse head) (encoders.map Stage.parse)

/-- The ways to write the stages of a chain after its head. -/
inductive TailWritten : List Stage → Bytes → Prop
  | nil : TailWritten [] []
  | cons {stage : Stage} {stages : List Stage} {x y : Bytes} :
      stage.Written x → TailWritten stages y →
      TailWritten (stage :: stages) (Bytes.bar :: x ++ y)

/-- The ways to write the body of a directive. A chain of one stage named `%` without arguments has
none, since what one would write for it stands for the sign. -/
inductive Written : Directive → Bytes → Prop
  | percent : Written .percent [Bytes.percent]
  | chain {head : Stage} {encoders : List Stage} {x y : Bytes} :
      (encoders = [] → head ≠ ⟨"%", none⟩) → head.Written x → TailWritten encoders y →
      Written (.chain head encoders) (x ++ y)

end Directive
end LayeredTemplate
