import LayeredTemplate.Directive
import LayeredTemplate.Scan

/-! Templates: literal text with directives between `%` and `;`. A template is read from a source
as it arrives, one chunk after the other, or given as a whole; both ways give the same segments. -/
namespace LayeredTemplate.Template

/-- `unclosed` and `broken` end a template: a `%` without its `;`, and a source that failed. -/
inductive Segment where
  | text (bytes : Bytes)
  | directive (directive : Directive)
  | unclosed
  | broken (error : IoError)
  deriving DecidableEq, Repr

/-- Reads from inside literal text. Text is passed on after each chunk of the source; the body of a
directive is collected up to its `;`. -/
def readFrom (pending : Bool) (source : Source) : List Segment :=
  let text := Scan.chunk .resolved Bytes.percent pending source
  match _eq : text.result with
  | .error e => [.broken e]
  | .ok .exhausted => [.text text.output]
  | .ok .unfinished => .text text.output :: readFrom text.pending text.source
  | .ok .delimited =>
      let body := Scan.scan .kept Bytes.semicolon false text.source
      .text text.output ::
        match body.result with
        | .error e => [.broken e]
        | .ok .delimited => .directive (Directive.parse body.output) :: readFrom false body.source
        | .ok _ => [.unclosed]
termination_by source.weight
decreasing_by
  · exact Scan.weight_chunk_lt (.inr _eq)
  · exact Nat.lt_of_le_of_lt (Scan.weight_scan_le ..) (Scan.weight_chunk_lt (.inl _eq))

def read (source : Source) : List Segment := readFrom false source

/-- Inside literal text or inside a directive, with what was collected of the directive's body, the
last byte first. -/
inductive Stand where
  | literal (pending : Bool)
  | body (collected : Bytes) (pending : Bool)
  deriving DecidableEq, Repr

/-- A template of which some was read, and the source that the rest of it comes from. -/
structure Position where
  stand : Stand
  source : Source
  deriving DecidableEq, Repr

namespace Position

/-- In front of a template. -/
def start (source : Source) : Position := ⟨.literal false, source⟩

/-- Reads on through no more than one chunk: the segment that this makes complete, if it makes one
complete, and where the template goes on, if it does. -/
def read (position : Position) : Option Segment × Option Position :=
  match position.stand with
  | .literal pending =>
      let text := Scan.chunk .resolved Bytes.percent pending position.source
      match text.result with
      | .error e => (some (.broken e), none)
      | .ok .exhausted => (some (.text text.output), none)
      | .ok .unfinished => (some (.text text.output), some ⟨.literal text.pending, text.source⟩)
      | .ok .delimited => (some (.text text.output), some ⟨.body [] false, text.source⟩)
  | .body collected pending =>
      let body := Scan.chunk .kept Bytes.semicolon pending position.source
      let collected := body.output.reverse ++ collected
      match body.result with
      | .error e => (some (.broken e), none)
      | .ok .exhausted => (some .unclosed, none)
      | .ok .unfinished => (none, some ⟨.body collected body.pending, body.source⟩)
      | .ok .delimited =>
          let directive := Directive.parse collected.reverse
          (some (.directive directive), some ⟨.literal false, body.source⟩)

theorem weight_read_lt {position next : Position} {segment : Option Segment}
    (h : position.read = (segment, some next)) : next.source.weight < position.source.weight := by
  obtain ⟨stand, source⟩ := position
  cases stand with
  | literal pending =>
      simp only [read] at h
      split at h <;> rename_i ended <;> cases h
      · exact Scan.weight_chunk_lt (.inr ended)
      · exact Scan.weight_chunk_lt (.inl ended)
  | body collected pending =>
      simp only [read] at h
      split at h <;> rename_i ended <;> cases h
      · exact Scan.weight_chunk_lt (.inr ended)
      · exact Scan.weight_chunk_lt (.inl ended)

end Position

/-- The segments of a template that is at hand as a whole. -/
def segments (template : Bytes) : List Segment :=
  match _outer : Escape.splitFirst Bytes.percent template with
  | (text, none) => [.text (Escape.resolve text)]
  | (text, some rest) =>
      .text (Escape.resolve text) ::
        match _inner : Escape.splitFirst Bytes.semicolon rest with
        | (_, none) => [.unclosed]
        | (body, some rest) => .directive (Directive.parse body) :: segments rest
termination_by template.length
decreasing_by
  exact Nat.lt_trans (Escape.splitFirst_rest_lt _inner) (Escape.splitFirst_rest_lt _outer)

/-- What a template is written from. -/
inductive Piece where
  | literal (bytes : Bytes)
  | directive (directive : Directive)
  deriving DecidableEq, Repr

/-- The ways to write a template: `%` and the backslash are protected in literals. -/
inductive Written : List Piece → Bytes → Prop
  | nil : Written [] []
  | literal {b x y : Bytes} {pieces : List Piece} :
      Escape.Protects (· = Bytes.percent) b x → Written pieces y →
      Written (.literal b :: pieces) (x ++ y)
  | directive {d : Directive} {x y : Bytes} {pieces : List Piece} :
      d.Written x → Written pieces y →
      Written (.directive d :: pieces) (Bytes.percent :: x ++ Bytes.semicolon :: y)

/-- The segments that stand for some pieces after `text`: literals in a row make one text, and there
is a text, if only an empty one, on both sides of each directive. -/
def segmentsOf : (text : Bytes) → List Piece → List Segment
  | text, [] => [.text text]
  | text, .literal b :: pieces => segmentsOf (text ++ b) pieces
  | text, .directive d :: pieces => .text text :: .directive d :: segmentsOf [] pieces

end LayeredTemplate.Template
