import LayeredTemplate.Expander

/-! Evaluating a template that is at hand as a whole, without a source and without a sink: the
output comes as a value. -/
namespace LayeredTemplate.Expander

variable {ω : Type}

structure Evaluation where
  output : Bytes
  result : Except Failure Unit
  drawn : Nat

namespace Evaluation

/-- The same after some output and some arguments drawn. -/
def after (output : Bytes) (drawn : Nat) (e : Evaluation) : Evaluation :=
  { e with output := output ++ e.output, drawn := drawn + e.drawn }

end Evaluation

/-- What is left of the arguments at the end. -/
def leftover (strict : Bool) (args : List (Value ω)) : Except Failure Unit :=
  if strict ∧ args ≠ [] then .error (.unusedArguments args.length) else .ok ()

/-- The output of a directive by itself, its result, and the arguments that it leaves. -/
def evaluateDirective (known : Vocabulary ω) (d : Directive) (args : List (Value ω)) :
    Bytes × Except Failure Unit × List (Value ω) :=
  let ((result, p), sent) := (perform known d (.start args)).smooth
  (sent.flatten, result, p.waiting)

/-- Text up to the first `%`, the directive up to the next `;`, and so on with what follows it. -/
def evaluate (expander : Expander ω) (template : Bytes) (args : List (Value ω)) : Evaluation :=
  match _outer : Escape.splitFirst Bytes.percent template with
  | (text, none) => ⟨Escape.resolve text, leftover expander.strict args, args.length⟩
  | (text, some rest) =>
      match _inner : Escape.splitFirst Bytes.semicolon rest with
      | (_, none) => ⟨Escape.resolve text, .error .incompleteDirective, 0⟩
      | (body, some rest) =>
          let (output, result, waiting) := evaluateDirective expander.vocabulary (.parse body) args
          let output := Escape.resolve text ++ output
          let drawn := args.length - waiting.length
          match result with
          | .error e => ⟨output, .error e, drawn⟩
          | .ok _ => (expander.evaluate rest waiting).after output drawn
termination_by template.length
decreasing_by
  exact Nat.lt_trans (Escape.splitFirst_rest_lt _inner) (Escape.splitFirst_rest_lt _outer)

end LayeredTemplate.Expander
