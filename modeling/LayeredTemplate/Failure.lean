import LayeredTemplate.IoError
import LayeredTemplate.Utf8

/-! What can go wrong when handlers are registered or a template is expanded. -/
namespace LayeredTemplate

inductive Failure where
  | incompleteDirective
  | unknownName (name : String)
  | notAnEncoder (name : String)
  | invalidArguments (arguments : Bytes) (reason : String)
  | notGiven
  | noDefaultHandling (shape : String)
  | alreadyRegistered (name : String)
  | unusedArguments (count : Nat)
  | io (error : IoError)
  | invalidUtf8 (fault : Utf8.Fault)
  | handler (reason : String)
  deriving DecidableEq, Repr

def Failure.message : Failure → String
  | .incompleteDirective => "incomplete directive: '%' without a closing ';'"
  | .unknownName name => s!"unknown formatter or encoder '{name}'"
  | .notAnEncoder name => s!"'{name}' is a formatter and cannot follow '|'"
  | .invalidArguments arguments reason =>
      let shown := Utf8.decodeLossy arguments
      s!"invalid arguments \"{shown}\": {reason}"
  | .notGiven => "value not given"
  | .noDefaultHandling shape => s!"no default handling for {shape} values"
  | .alreadyRegistered name => s!"'{name}' is already registered"
  | .unusedArguments count => s!"{count} argument(s) left unused"
  | .io error => s!"I/O error: {error.message}"
  | .invalidUtf8 _ => "interpolated output is not valid UTF-8"
  | .handler reason => reason

end LayeredTemplate
