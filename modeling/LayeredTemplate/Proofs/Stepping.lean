import LayeredTemplate.Expander
import LayeredTemplate.Proofs.Reading

/-! Running each segment as soon as it is read, before more of the template is asked for, comes to
the same as reading the whole template first and then running its segments in order. -/
namespace LayeredTemplate

namespace Template.Position

/-- The segments that reading on from a position gives. -/
def segments (position : Position) : List Segment :=
  match position.stand with
  | .literal pending => readFrom pending position.source
  | .body collected pending => readBody collected.reverse pending position.source

/-- Reading on takes one read, and then goes on where that came to. -/
theorem segments_eq (position : Position) :
    position.segments = position.read.1.toList ++ position.read.2.elim [] segments := by
  obtain ⟨stand, source⟩ := position
  cases stand with
  | literal pending =>
      change readFrom pending source = _
      rw [readFrom_eq]
      simp only [read]
      generalize Scan.chunk .resolved Bytes.percent pending source = first
      obtain ⟨result, output, left, rest⟩ := first
      cases result with
      | error e => rfl
      | ok ending => cases ending <;> rfl
  | body collected pending =>
      change readBody collected.reverse pending source = _
      rw [readBody, Scan.scan_eq]
      simp only [read]
      generalize Scan.chunk .kept Bytes.semicolon pending source = first
      obtain ⟨result, output, left, rest⟩ := first
      cases result with
      | error e => rfl
      | ok ending =>
          cases ending with
          | exhausted => rfl
          | delimited => simp [segments]
          | unfinished => simp [segments, readBody]

end Template.Position

namespace Expander

variable {ω : Type}

theorem expandFrom_eq (expander : Expander ω) (position : Template.Position) (p : Progress ω) :
    expander.expandFrom position p =
      (advance expander.vocabulary position.read.1 p).bind fun
        | (.ok _, p) => position.read.2.elim (.done (p.finish expander.strict)) fun next =>
            expander.expandFrom next p
        | (.error e, p) => .done (p.stop e) := by
  rw [expandFrom]
  split <;> rename_i read <;> simp only [read] <;> rfl

theorem runFrom_toList_append (expander : Expander ω) (segment : Option Template.Segment)
    (rest : List Template.Segment) (p : Progress ω) :
    expander.runFrom (segment.toList ++ rest) p =
      (advance expander.vocabulary segment p).bind fun
        | (.ok _, p) => expander.runFrom rest p
        | (.error e, p) => .done (p.stop e) := by
  cases segment <;> rfl

/-- Expanding what is left of a template runs the segments that reading on gives. -/
theorem expandFrom_eq_runFrom (expander : Expander ω) (position : Template.Position)
    (p : Progress ω) : expander.expandFrom position p = expander.runFrom position.segments p := by
  induction size : position.source.weight using Nat.strongRecOn generalizing position p with
  | ind n ih =>
      rw [expandFrom_eq, Template.Position.segments_eq, runFrom_toList_append]
      congr 1
      funext ⟨answer, q⟩
      cases answer with
      | error e => rfl
      | ok =>
          cases read : position.read.2 with
          | none => rfl
          | some next =>
              have fewer : next.source.weight < n :=
                size ▸ Template.Position.weight_read_lt (Prod.ext rfl read)
              exact ih _ fewer next q rfl

theorem expand_eq_runFrom (expander : Expander ω) (template : Source) (args : List (Value ω)) :
    expander.expand template args = expander.runFrom (Template.read template) (.start args) :=
  expander.expandFrom_eq_runFrom (.start template) (.start args)

end Expander
end LayeredTemplate
