import LayeredTemplate.Proofs.Reading

/-! A template that is complete in itself keeps its reading whatever is written behind it: the
segments of the whole are those of the two parts, with the texts at the seam made one. -/
namespace LayeredTemplate

namespace Escape

open Bytes (backslash)

variable {delim : UInt8} {x y : Bytes}

/-- The last backslash has no target. -/
def dangles : Bytes → Bool
  | [] => false
  | [b] => b = backslash
  | b :: c :: rest => if b = backslash then dangles rest else dangles (c :: rest)

theorem dangles_escaped (b : UInt8) (x : Bytes) : dangles (backslash :: b :: x) = dangles x := by
  rw [dangles, if_pos rfl]

theorem dangles_bare {b : UInt8} (unescaping : b ≠ backslash) (x : Bytes) :
    dangles (b :: x) = dangles x := by
  cases x with
  | nil => simp [dangles, unescaping]
  | cons c x => rw [dangles, if_neg unescaping]

theorem resolve_append (complete : dangles x = false) (y : Bytes) :
    resolve (x ++ y) = resolve x ++ resolve y := by
  induction x using readingInduction with
  | nil => rfl
  | dangling => cases complete
  | escaped b x ih =>
      rw [dangles_escaped] at complete
      simp only [List.cons_append, resolve_escaped, ih complete]
  | bare b x unescaping ih =>
      rw [dangles_bare unescaping] at complete
      simp only [List.cons_append, resolve_bare unescaping, ih complete]

theorem splitFirst_eq_sweep (delim : UInt8) (x : Bytes) :
    splitFirst delim x =
      ((Scan.sweep .kept delim false x).output, (Scan.sweep .kept delim false x).rest) :=
  Prod.ext (Scan.sweep_kept delim x).symm (Scan.sweep_rest .kept delim x).symm

/-- A sweep that meets no delimiter ends on a backslash without its target if the bytes do. -/
theorem pending_sweep (escapes : Scan.Escapes) (absent : (splitFirst delim x).2 = none) :
    (Scan.sweep escapes delim false x).pending = dangles x := by
  induction x using readingInduction with
  | nil => rfl
  | dangling => cases escapes <;> rfl
  | escaped b x ih =>
      rw [splitFirst_escaped] at absent
      rw [dangles_escaped, ← ih absent]
      cases escapes <;> rfl
  | bare b x unescaping ih =>
      have other : b ≠ delim := by
        rintro rfl
        rw [splitFirst_delim unescaping] at absent
        cases absent
      rw [splitFirst_bare unescaping other] at absent
      rw [dangles_bare unescaping, ← ih absent, Scan.sweep, if_neg unescaping, if_neg other]

/-- What follows cannot take the meaning of a delimiter away. -/
theorem splitFirst_append_of_some {head rest : Bytes}
    (found : splitFirst delim x = (head, some rest)) (y : Bytes) :
    splitFirst delim (x ++ y) = (head, some (rest ++ y)) := by
  rw [splitFirst_eq_sweep, Prod.mk.injEq] at found
  rw [splitFirst_eq_sweep, Scan.sweep_append_of_some found.2, found.1]

theorem splitFirst_append_of_none {head : Bytes} (absent : splitFirst delim x = (head, none))
    (complete : dangles x = false) (y : Bytes) :
    splitFirst delim (x ++ y) = (head ++ (splitFirst delim y).1, (splitFirst delim y).2) := by
  have pending := pending_sweep .kept (congrArg Prod.snd absent)
  rw [splitFirst_eq_sweep, Prod.mk.injEq] at absent
  rw [splitFirst_eq_sweep, Scan.sweep_append_of_none absent.2, splitFirst_eq_sweep delim y]
  simp only [pending, complete, absent.1]

theorem splitFirst_of_none {head : Bytes} (absent : splitFirst delim x = (head, none)) :
    head = x := by
  unfold splitFirst at absent
  split at absent
  · cases absent
  · cases absent; rfl

end Escape

namespace Template

open Escape (splitFirst resolve)

/-- Each directive that the template opens is closed in it, and no backslash at its end lacks a
target. -/
inductive Closed : Bytes → Prop
  | plain {t text : Bytes} : splitFirst Bytes.percent t = (text, none) →
      Escape.dangles text = false → Closed t
  | directive {t text rest body next : Bytes} :
      splitFirst Bytes.percent t = (text, some rest) →
      splitFirst Bytes.semicolon rest = (body, some next) → Closed next → Closed t

/-- What follows a text up to a `%` has no text at its front. -/
theorem joined_bodySegments (text : Bytes) (after : Option Bytes) :
    joined text (after.elim [] bodySegments) = .text text :: after.elim [] bodySegments := by
  cases after with
  | none => rfl
  | some rest =>
      rw [Option.elim_some, bodySegments]
      obtain ⟨body, next⟩ := splitFirst Bytes.semicolon rest
      cases next with
      | none => rfl
      | some next => simp only [joined, joined_segments]

/-- A closed template is read as if nothing followed it, up to its last text, which goes on with the
first text behind it. -/
theorem Closed.segments_append {t : Bytes} (closed : Closed t) (u : Bytes) :
    segments (t ++ u) = joined [] (segments t ++ segments u) := by
  induction closed with
  | @plain t text absent complete =>
      obtain rfl := Escape.splitFirst_of_none absent
      have split := Escape.splitFirst_append_of_none absent complete u
      rw [segments_plain absent, segments_eq (text ++ u), split, segments_eq u,
        Escape.resolve_append complete]
      exact (joined_bodySegments _ _).symm
  | directive outer inner _ ih =>
      have outer' := Escape.splitFirst_append_of_some outer u
      have inner' := Escape.splitFirst_append_of_some inner u
      rw [segments_directive outer inner, segments_directive outer' inner', ih]
      rfl

/-! ## The directives of a template -/

namespace Segment

def directive? : Segment → Option Directive
  | .directive d => some d
  | _ => none

/-- Reading goes on behind the segment. -/
def IsComplete : Segment → Prop
  | .text _ | .directive _ => True
  | .unclosed | .broken _ => False

end Segment

/-- The directives of a template in order, as far as they are closed. -/
def directives (t : Bytes) : List Directive := (segments t).filterMap Segment.directive?

theorem Closed.isComplete {t : Bytes} (closed : Closed t) :
    ∀ segment ∈ segments t, segment.IsComplete := by
  induction closed with
  | plain absent =>
      rw [segments_plain absent, List.forall_mem_singleton]
      trivial
  | directive outer inner _ ih =>
      rw [segments_directive outer inner, List.forall_mem_cons, List.forall_mem_cons]
      exact ⟨trivial, trivial, ih⟩

/-- Only the last directive of a template can be unclosed. -/
theorem exists_isComplete (t : Bytes) :
    ∃ x y : List Segment, (∀ segment ∈ x, segment.IsComplete) ∧ (y = [] ∨ y = [.unclosed]) ∧
      segments t = x ++ y := by
  induction t using templateInduction with
  | plain t text outer =>
      refine ⟨[.text (resolve text)], [], ?_, .inl rfl, segments_plain outer⟩
      rw [List.forall_mem_singleton]
      trivial
  | unclosed t text rest body outer inner =>
      refine ⟨[.text (resolve text)], [.unclosed], ?_, .inr rfl, segments_unclosed outer inner⟩
      rw [List.forall_mem_singleton]
      trivial
  | directive t text rest body next outer inner ih =>
      obtain ⟨x, y, complete, ending, whole⟩ := ih
      refine ⟨.text (resolve text) :: .directive (Directive.parse body) :: x, y, ?_, ending, ?_⟩
      · rw [List.forall_mem_cons, List.forall_mem_cons]
        exact ⟨trivial, trivial, complete⟩
      · rw [segments_directive outer inner, whole]
        rfl

/-- A failure at the end takes the place of what is unclosed there. -/
theorem broken_eq {x y : List Segment} (complete : ∀ segment ∈ x, segment.IsComplete)
    (ending : y = [] ∨ y = [.unclosed]) (e : IoError) : broken e (x ++ y) = x ++ [.broken e] := by
  induction x with
  | nil => rcases ending with rfl | rfl <;> rfl
  | cons segment x ih =>
      obtain ⟨first, rest⟩ := List.forall_mem_cons.1 complete
      cases segment with
      | unclosed => exact first.elim
      | broken => exact first.elim
      | text b => exact congrArg (Segment.text b :: ·) (ih rest)
      | directive d => exact congrArg (Segment.directive d :: ·) (ih rest)

end Template

/-- Whether the directive takes an argument. -/
def Directive.isChain : Directive → Bool
  | .percent => false
  | .chain .. => true

/-- How many arguments the directives of a template take. -/
def Template.arity (t : Bytes) : Nat := (directives t).countP Directive.isChain

end LayeredTemplate
