import LayeredTemplate.Proofs.Characters
import LayeredTemplate.Proofs.Reading

/-! Reading what was written gives back what it was written from: literals, names and arguments lose
each protecting backslash once, and no delimiter is found but those written as such. -/
namespace LayeredTemplate

namespace Escape

open Bytes (backslash)

variable {delim : UInt8} {special : UInt8 → Prop} {x y : Bytes}

/-! ## Bytes without a delimiter -/

/-- The first unprotected `delim` comes after `x`, whatever follows. -/
def Skips (delim : UInt8) (x : Bytes) : Prop :=
  ∀ y, splitFirst delim (x ++ y) = (x ++ (splitFirst delim y).1, (splitFirst delim y).2)

theorem skips_nil : Skips delim [] := fun _ => rfl

theorem Skips.append (first : Skips delim x) (second : Skips delim y) : Skips delim (x ++ y) := by
  intro z
  rw [List.append_assoc, first, second, List.append_assoc]

theorem skips_bare {b : UInt8} (unescaping : b ≠ backslash) (other : b ≠ delim) :
    Skips delim [b] := fun y => splitFirst_bare unescaping other y

theorem skips_escaped (delim b : UInt8) : Skips delim [backslash, b] :=
  fun y => splitFirst_escaped delim b y

theorem Skips.splitFirst_self (h : Skips delim x) : splitFirst delim x = (x, none) := by
  have all := h []
  rwa [List.append_nil, splitFirst_nil, List.append_nil] at all

theorem Skips.splitFirst_delim (h : Skips delim x) (unescaping : delim ≠ backslash) (y : Bytes) :
    splitFirst delim (x ++ delim :: y) = (x, some y) := by
  rw [h, Escape.splitFirst_delim unescaping, List.append_nil]

theorem Skips.split_self (h : Skips delim x) : split delim x = [x] := by
  rw [split_eq, h.splitFirst_self]
  rfl

theorem Skips.split_delim (h : Skips delim x) (unescaping : delim ≠ backslash) (y : Bytes) :
    split delim (x ++ delim :: y) = x :: split delim y := by
  rw [split_eq, h.splitFirst_delim unescaping]
  rfl

/-! ## Protected bytes -/

theorem Protects.append {x' y' : Bytes} (first : Protects special x y)
    (second : Protects special x' y') : Protects special (x ++ x') (y ++ y') := by
  induction first with
  | nil => exact second
  | bare unescaping plain _ ih => exact .bare unescaping plain ih
  | escaped b _ ih => exact .escaped b ih

theorem Protects.skips (h : Protects special x y) (marked : special delim) : Skips delim y := by
  induction h with
  | nil => exact skips_nil
  | @bare b x y unescaping plain _ ih =>
      have other : b ≠ delim := by
        intro same
        exact plain (same ▸ marked)
      exact (skips_bare unescaping other).append ih
  | escaped b _ ih => exact (skips_escaped delim b).append ih

/-- Each protecting backslash goes, and nothing else does. -/
theorem Protects.resolve_append (h : Protects special x y) (z : Bytes) :
    resolve (y ++ z) = x ++ resolve z := by
  induction h with
  | nil => rfl
  | bare unescaping _ _ ih =>
      rw [List.cons_append, resolve_bare unescaping, ih]
      rfl
  | escaped b _ ih =>
      rw [List.cons_append, List.cons_append, resolve_escaped, ih]
      rfl

theorem Protects.resolve_self (h : Protects special x y) : resolve y = x := by
  have all := h.resolve_append []
  rwa [List.append_nil, resolve, List.append_nil] at all

theorem protects_protect (special : UInt8 → Bool) (x : Bytes) :
    Protects (special · = true) x (protect special x) := by
  induction x with
  | nil => exact .nil
  | cons b rest ih =>
      rw [protect, List.flatMap_cons]
      by_cases needed : b = backslash ∨ special b
      · rw [if_pos needed]
        exact .escaped b ih
      · obtain ⟨unescaping, plain⟩ := not_or.1 needed
        rw [if_neg needed]
        exact .bare unescaping plain ih

theorem exists_protects (special : UInt8 → Prop) [DecidablePred special] (x : Bytes) :
    ∃ y, Protects special x y := by
  have shortest := protects_protect (fun b => decide (special b)) x
  simp only [decide_eq_true_eq] at shortest
  exact ⟨_, shortest⟩

end Escape

open Escape (Skips splitFirst split resolve)

/-! ## Stages -/

namespace Stage

variable {stage : Stage} {x : Bytes}

theorem Written.skips (h : stage.Written x) {delim : UInt8}
    (separates : delim = Bytes.bar ∨ delim = Bytes.semicolon) : Skips delim x := by
  have inName : delim ∈ [Bytes.bar, Bytes.colon, Bytes.semicolon] := by
    rcases separates with rfl | rfl <;> decide
  have inArgs : delim ∈ [Bytes.bar, Bytes.semicolon] := by
    rcases separates with rfl | rfl <;> decide
  have other : Bytes.colon ≠ delim := by
    rcases separates with rfl | rfl <;> decide
  cases h with
  | bare name => exact name.skips inName
  | withArgs name args =>
      have colon : Skips delim [Bytes.colon] := Escape.skips_bare (by decide) other
      exact (name.skips inName).append (colon.append (args.skips inArgs))

/-- Only a colon that was written as such ends the name. -/
theorem Written.parse (h : stage.Written x) : Stage.parse x = stage := by
  have inName : Bytes.colon ∈ [Bytes.bar, Bytes.colon, Bytes.semicolon] := by decide
  cases h with
  | bare name =>
      rw [Stage.parse, (name.skips inName).splitFirst_self]
      simp only [name.resolve_self, Utf8.decodeLossy_ofText, Option.map_none]
  | withArgs name args =>
      rw [Stage.parse, (name.skips inName).splitFirst_delim (by decide)]
      simp only [name.resolve_self, args.resolve_self, Utf8.decodeLossy_ofText, Option.map_some]

/-- No other stage than the one named `%` without arguments stands for the sign. -/
theorem Written.eq_of_resolve (h : stage.Written x) (sign : resolve x = [Bytes.percent]) :
    stage = ⟨"%", none⟩ := by
  cases h with
  | @bare name _ written =>
      have same : Bytes.ofText name = Bytes.ofText "%" := by
        rw [← written.resolve_self, sign]
        decide
      rw [Utf8.ofText_injective same]
  | @withArgs name args y z written _ =>
      have colon : Bytes.colon ∈ [Bytes.percent] := by
        rw [← sign, written.resolve_append, Escape.resolve_bare (by decide)]
        simp
      exact absurd colon (by decide)

theorem exists_written (stage : Stage) : ∃ x, stage.Written x := by
  obtain ⟨name, args⟩ := stage
  obtain ⟨x, inName⟩ := Escape.exists_protects
    (· ∈ [Bytes.bar, Bytes.colon, Bytes.semicolon]) (Bytes.ofText name)
  cases args with
  | none => exact ⟨x, .bare inName⟩
  | some args =>
      obtain ⟨y, inArgs⟩ := Escape.exists_protects (· ∈ [Bytes.bar, Bytes.semicolon]) args
      exact ⟨x ++ Bytes.colon :: y, .withArgs inName inArgs⟩

end Stage

/-! ## Directives -/

namespace Directive

variable {stages : List Stage} {d : Directive} {x y : Bytes}

theorem TailWritten.skips (h : TailWritten stages y) : Skips Bytes.semicolon y := by
  induction h with
  | nil => exact Escape.skips_nil
  | cons first _ ih =>
      have bar : Skips Bytes.semicolon [Bytes.bar] := Escape.skips_bare (by decide) (by decide)
      exact bar.append ((first.skips (.inr rfl)).append ih)

/-- The stages come apart at the bars that were written as such. -/
theorem TailWritten.split (h : TailWritten stages y) (head : Skips Bytes.bar x) :
    ∃ raws, Escape.split Bytes.bar (x ++ y) = x :: raws ∧ raws.map Stage.parse = stages := by
  induction h generalizing x with
  | nil =>
      refine ⟨[], ?_, rfl⟩
      rw [List.append_nil, head.split_self]
  | @cons stage stages z y first _ ih =>
      obtain ⟨raws, apart, parsed⟩ := ih (first.skips (.inl rfl))
      refine ⟨z :: raws, ?_, ?_⟩
      · rw [List.cons_append, head.split_delim (by decide), apart]
      · rw [List.map_cons, first.parse, parsed]

theorem Written.skips (h : d.Written x) : Skips Bytes.semicolon x := by
  cases h with
  | percent => exact Escape.skips_bare (by decide) (by decide)
  | chain _ head tail => exact (head.skips (.inr rfl)).append tail.skips

theorem Written.parse (h : d.Written x) : Directive.parse x = d := by
  cases h with
  | percent =>
      have alone : Skips Bytes.bar [Bytes.percent] := Escape.skips_bare (by decide) (by decide)
      rw [Directive.parse, alone.split_self]
      rfl
  | @chain head stages y z expressible written tail =>
      obtain ⟨raws, apart, parsed⟩ := tail.split (written.skips (.inl rfl))
      rw [Directive.parse, apart]
      cases raws with
      | nil =>
          have last : stages = [] := parsed.symm
          have other : resolve y ≠ [Bytes.percent] := by
            intro sign
            exact expressible last (written.eq_of_resolve sign)
          simp only [if_neg other, written.parse, last]
      | cons raw raws => simp only [written.parse, parsed]

theorem exists_tailWritten (stages : List Stage) : ∃ y, TailWritten stages y := by
  induction stages with
  | nil => exact ⟨[], .nil⟩
  | cons stage rest ih =>
      obtain ⟨x, first⟩ := stage.exists_written
      obtain ⟨y, later⟩ := ih
      exact ⟨Bytes.bar :: x ++ y, .cons first later⟩

theorem exists_written (expressible : d ≠ .chain ⟨"%", none⟩ []) : ∃ x, d.Written x := by
  cases d with
  | percent => exact ⟨_, .percent⟩
  | chain head encoders =>
      obtain ⟨x, first⟩ := head.exists_written
      obtain ⟨y, later⟩ := exists_tailWritten encoders
      refine ⟨x ++ y, .chain ?_ first later⟩
      intro last same
      exact expressible (by rw [last, same])

end Directive

/-! ## Templates -/

namespace Template

variable {pieces : List Piece} {x : Bytes}

/-- All pieces can be written, but for the one directive that would read as the sign. -/
theorem exists_written (expressible : .directive (.chain ⟨"%", none⟩ []) ∉ pieces) :
    ∃ x, Written pieces x := by
  induction pieces with
  | nil => exact ⟨[], .nil⟩
  | cons piece rest ih =>
      rw [List.mem_cons, not_or] at expressible
      obtain ⟨first, later⟩ := expressible
      obtain ⟨y, written⟩ := ih later
      cases piece with
      | literal b =>
          obtain ⟨x, inLiteral⟩ := Escape.exists_protects (· = Bytes.percent) b
          exact ⟨x ++ y, .literal inLiteral written⟩
      | directive d =>
          have other : d ≠ .chain ⟨"%", none⟩ [] := by
            intro same
            exact first (by rw [same])
          obtain ⟨x, body⟩ := Directive.exists_written other
          exact ⟨_, .directive body written⟩

/-- Literals in a row are one literal to the reader. -/
theorem segments_written (h : Written pieces x) {text raw : Bytes}
    (before : Escape.Protects (· = Bytes.percent) text raw) :
    segments (raw ++ x) = segmentsOf text pieces := by
  induction h generalizing text raw with
  | nil =>
      rw [List.append_nil, segments_plain (before.skips rfl).splitFirst_self, before.resolve_self]
      rfl
  | literal written _ ih =>
      rw [← List.append_assoc, segmentsOf]
      exact ih (before.append written)
  | @directive d body rest pieces written _ ih =>
      have outer :
          splitFirst Bytes.percent (raw ++ (Bytes.percent :: body ++ Bytes.semicolon :: rest)) =
            (raw, some (body ++ Bytes.semicolon :: rest)) :=
        (before.skips rfl).splitFirst_delim (by decide) _
      have inner :
          splitFirst Bytes.semicolon (body ++ Bytes.semicolon :: rest) = (body, some rest) :=
        written.skips.splitFirst_delim (by decide) _
      rw [segments_directive outer inner, before.resolve_self, written.parse, segmentsOf]
      exact congrArg _ (congrArg _ (ih .nil))

/-- Reading a template as it was written gives back its pieces, from any source that gives all of
it: between directives the text of the literals there, and each directive with its names and
arguments. -/
theorem joined_read_written (h : Written pieces x) {s : Source} (delivers : s.Delivers x) :
    joined [] (read s) = segmentsOf [] pieces := by
  rw [joined_read delivers]
  exact segments_written h .nil

/-- Escapes that are not needed stand before the second half of a character and elsewhere, and two
of them are cut off from their targets. -/
theorem joined_read_written_cut_apart :
    let pieces : List Piece := [.literal [Bytes.percent], .literal [Bytes.backslash],
      .directive .percent,
      .directive (.chain ⟨"é|", some (Bytes.ofText ":;")⟩ [⟨"b", some []⟩])]
    let source := Source.ofEvents [.chunk [0x5c], .chunk [0x25, 0x5c], .interrupted,
      .chunk [0x5c, 0x25, 0x25, 0x3b, 0x25, 0xc3, 0x5c],
      .chunk [0xa9, 0x5c, 0x7c, 0x3a, 0x3a, 0x5c, 0x3b, 0x7c, 0x5c, 0x62, 0x3a, 0x3b]]
    Written pieces source.remaining ∧ source.Delivers source.remaining ∧
      joined [] (read source) =
        [.text [Bytes.percent, Bytes.backslash], .directive .percent, .text [],
          .directive (.chain ⟨"é|", some (Bytes.ofText ":;")⟩ [⟨"b", some []⟩]), .text []] := by
  intro pieces source
  have first : Stage.Written ⟨"é|", some (Bytes.ofText ":;")⟩
      ([0xc3, 0x5c, 0xa9, 0x5c, 0x7c] ++ Bytes.colon :: [0x3a, 0x5c, 0x3b]) :=
    .withArgs (.bare (by decide) (by decide) (.escaped _ (.escaped _ .nil)))
      (.bare (by decide) (by decide) (.escaped _ .nil))
  have second : Stage.Written ⟨"b", some []⟩ ([0x5c, 0x62] ++ Bytes.colon :: []) :=
    .withArgs (.escaped _ .nil) .nil
  have chain : Directive.Written (.chain ⟨"é|", some (Bytes.ofText ":;")⟩ [⟨"b", some []⟩]) _ :=
    .chain (by simp) first (.cons second .nil)
  have written : Written pieces _ :=
    .literal (.escaped _ .nil) (.literal (.escaped _ .nil)
      (.directive .percent (.directive chain .nil)))
  have delivers : source.Delivers source.remaining := by
    refine ⟨rfl, ?_⟩
    intro e he
    simp only [source, Source.ofEvents, List.mem_cons, List.not_mem_nil, or_false] at he
    rcases he with rfl | rfl | rfl | rfl | rfl
    · exact .inr ⟨_, by decide, rfl⟩
    · exact .inr ⟨_, by decide, rfl⟩
    · exact .inl rfl
    · exact .inr ⟨_, by decide, rfl⟩
    · exact .inr ⟨_, by decide, rfl⟩
  exact ⟨written, delivers, joined_read_written written delivers⟩

end Template
end LayeredTemplate
