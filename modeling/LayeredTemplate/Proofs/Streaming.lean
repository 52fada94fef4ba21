import LayeredTemplate.Evaluation
import LayeredTemplate.Proofs.Smooth
import LayeredTemplate.Proofs.Stepping
import Mathlib.Control.Monad.Basic

/-! Expanding a template as it arrives comes to the same as evaluating it as a whole: the output,
the result and the number of arguments drawn do not hang on how the source is cut. -/
namespace LayeredTemplate.Expander

open Escape (splitFirst resolve)
open Template (Segment segments joined)

variable {ω : Type}

/-! ## What a directive hangs on -/

/-- The progress `q` made after `base`. -/
def Progress.after (base q : Progress ω) : Progress ω :=
  ⟨q.waiting, base.drawn + q.drawn, q.journal ++ base.journal⟩

theorem Progress.after_start (p : Progress ω) : p.after (.start p.waiting) = p := rfl

theorem Progress.report_after (base q : Progress ω) (entries : List Journal.Entry) :
    (base.after q).report entries = base.after (q.report entries) := by
  simp [after, report, List.append_assoc]

theorem Progress.draw_after (base q : Progress ω) :
    (base.after q).draw = (q.draw.1, base.after q.draw.2) := by
  obtain ⟨waiting, drawn, journal⟩ := q
  cases waiting <;> rfl

theorem through_after (layers : List Layer) (head : Writing (Except Failure Unit))
    (base q : Progress ω) :
    through layers head (base.after q) = (through layers head q).map (Prod.map id base.after) := by
  rw [through, through, Writing.map_bind]
  congr 1
  funext ⟨answer, states⟩
  cases answer with
  | error e => rfl
  | ok =>
      rw [Writing.map_map]
      simp only [Progress.report_after]
      rfl

theorem performHead_after (plan : Plan ω) (layers : List Layer) (value : Value ω)
    (base q : Progress ω) :
    performHead plan layers value (base.after q) =
      (performHead plan layers value q).map (Prod.map id base.after) := by
  unfold performHead
  cases plan.head with
  | formatter format => exact through_after ..
  | encoder build =>
      simp only
      cases build plan.headArgs with
      | error e => rfl
      | ok layer => exact through_after ..

/-- A directive does the same whatever came before it. -/
theorem perform_after (known : Vocabulary ω) (d : Directive) (base q : Progress ω) :
    perform known d (base.after q) = (perform known d q).map (Prod.map id base.after) := by
  cases d with
  | percent =>
      simp only [perform, Progress.report_after, Writing.map_sendEach]
      rfl
  | chain head encoders =>
      simp only [perform]
      cases plan known head encoders with
      | error e => rfl
      | ok plan =>
          simp only [Progress.report_after, Progress.draw_after]
          cases buildLayers plan.encoders with
          | error e => rfl
          | ok layers => exact performHead_after ..

theorem smooth_perform (known : Vocabulary ω) (d : Directive) (p : Progress ω) :
    (perform known d p).smooth =
      (((perform known d (.start p.waiting)).smooth.1.1,
        p.after (perform known d (.start p.waiting)).smooth.1.2),
        (perform known d (.start p.waiting)).smooth.2) := by
  have resumed := perform_after known d p (.start p.waiting)
  rw [Progress.after_start] at resumed
  rw [resumed, Writing.smooth_map]
  rfl

/-! ## Arguments drawn -/

/-- All arguments that there were. -/
def Progress.supply (p : Progress ω) : Nat := p.drawn + p.waiting.length

@[simp] theorem Progress.supply_report (p : Progress ω) (entries : List Journal.Entry) :
    (p.report entries).supply = p.supply := rfl

@[simp] theorem Progress.supply_draw (p : Progress ω) : p.draw.2.supply = p.supply := by
  obtain ⟨waiting, drawn, journal⟩ := p
  cases waiting with
  | nil => rfl
  | cons v rest => simp only [draw, supply, List.length_cons]; omega

theorem supply_through (layers : List Layer) (head : Writing (Except Failure Unit))
    (p : Progress ω) : (through layers head p).smooth.1.2.supply = p.supply := by
  rw [through, Writing.smooth_bind]
  obtain ⟨answer, states⟩ := (Stack.carry layers head (Stack.fresh layers)).smooth.1
  cases answer with
  | error e => rfl
  | ok => simp only [Writing.smooth_map, Progress.supply_report]

theorem supply_perform (known : Vocabulary ω) (d : Directive) (p : Progress ω) :
    (perform known d p).smooth.1.2.supply = p.supply := by
  cases d with
  | percent => rfl
  | chain head encoders =>
      simp only [perform]
      cases plan known head encoders with
      | error e => rfl
      | ok plan =>
          simp only
          cases buildLayers plan.encoders with
          | error e => rfl
          | ok layers =>
              simp only [performHead]
              cases plan.head with
              | formatter format => simp only [supply_through, Progress.supply_draw,
                  Progress.supply_report]
              | encoder build =>
                  simp only
                  cases build plan.headArgs with
                  | error e => simp [Writing.smooth]
                  | ok layer => simp only [supply_through, Progress.supply_draw,
                      Progress.supply_report]

/-! ## Evaluation by segments -/

theorem evaluate_plain (expander : Expander ω) {t text : Bytes} (args : List (Value ω))
    (outer : splitFirst Bytes.percent t = (text, none)) :
    expander.evaluate t args = ⟨resolve text, leftover expander.strict args, args.length⟩ := by
  rw [evaluate]
  split
  · rename_i found
    cases outer.symm.trans found
    rfl
  · rename_i found
    cases outer.symm.trans found

theorem evaluate_unclosed (expander : Expander ω) {t text rest body : Bytes}
    (args : List (Value ω)) (outer : splitFirst Bytes.percent t = (text, some rest))
    (inner : splitFirst Bytes.semicolon rest = (body, none)) :
    expander.evaluate t args = ⟨resolve text, .error .incompleteDirective, 0⟩ := by
  rw [evaluate]
  split
  · rename_i found
    cases outer.symm.trans found
  · rename_i found
    cases outer.symm.trans found
    split
    · rfl
    · rename_i found
      cases inner.symm.trans found

theorem evaluate_directive (expander : Expander ω) {t text rest body next : Bytes}
    (args : List (Value ω)) (outer : splitFirst Bytes.percent t = (text, some rest))
    (inner : splitFirst Bytes.semicolon rest = (body, some next)) :
    expander.evaluate t args =
      let done := (perform expander.vocabulary (.parse body) (.start args)).delivery
      let drawn := args.length - done.1.2.waiting.length
      match done.1.1 with
      | .error e => ⟨resolve text ++ done.2, .error e, drawn⟩
      | .ok _ =>
          (expander.evaluate next done.1.2.waiting).after (resolve text ++ done.2) drawn := by
  rw [evaluate]
  split
  · rename_i found
    cases outer.symm.trans found
  · rename_i found
    cases outer.symm.trans found
    split
    · rename_i found
      cases inner.symm.trans found
    · rename_i found
      cases inner.symm.trans found
      rfl

theorem delivery_runFrom_text (expander : Expander ω) (b : Bytes) (rest : List Segment)
    (p : Progress ω) :
    (expander.runFrom (.text b :: rest) p).delivery =
      ((expander.runFrom rest p).delivery.1, b ++ (expander.runFrom rest p).delivery.2) := rfl

theorem delivery_runFrom_directive (expander : Expander ω) (d : Directive) (rest : List Segment)
    (p : Progress ω) :
    (expander.runFrom (.directive d :: rest) p).delivery =
      let done := (perform expander.vocabulary d p).delivery
      match done.1.1 with
      | .error e => (done.1.2.stop e, done.2)
      | .ok _ => ((expander.runFrom rest done.1.2).delivery.1,
          done.2 ++ (expander.runFrom rest done.1.2).delivery.2) := by
  rw [runFrom, advance, Writing.delivery_bind]
  obtain ⟨⟨result, q⟩, sent⟩ := (perform expander.vocabulary d p).delivery
  cases result with
  | error e => simp [Writing.delivery, Writing.smooth]
  | ok => rfl

/-- Joining texts changes nothing but the writes in which they come. -/
theorem delivery_runFrom_joined (expander : Expander ω) (segments : List Segment) (text : Bytes)
    (p : Progress ω) :
    (expander.runFrom (joined text segments) p).delivery =
      ((expander.runFrom segments p).delivery.1,
        text ++ (expander.runFrom segments p).delivery.2) := by
  induction segments generalizing text p with
  | nil => rfl
  | cons segment rest ih =>
      cases segment with
      | text b => rw [joined, ih, delivery_runFrom_text, List.append_assoc]
      | directive d =>
          have later (q : Progress ω) : (expander.runFrom (joined [] rest) q).delivery =
              (expander.runFrom rest q).delivery := by rw [ih, List.nil_append]
          rw [joined, delivery_runFrom_text, delivery_runFrom_directive,
            delivery_runFrom_directive]
          simp only [later]
      | unclosed => rfl
      | broken e => rfl

theorem delivery_perform (known : Vocabulary ω) (d : Directive) (p : Progress ω) :
    (perform known d p).delivery =
      let done := (perform known d (.start p.waiting)).delivery
      ((done.1.1, p.after done.1.2), done.2) := by
  simp only [Writing.delivery]
  rw [smooth_perform]

theorem result_finish (strict : Bool) (p : Progress ω) :
    (p.finish strict).result = leftover strict p.waiting := by
  unfold Progress.finish leftover
  by_cases none_left : p.waiting = []
  · simp [none_left]
  · cases strict <;> simp [none_left]

theorem drawn_finish (strict : Bool) (p : Progress ω) :
    (p.finish strict).drawn = p.drawn + p.waiting.length := by
  unfold Progress.finish
  by_cases none_left : p.waiting = []
  · simp [none_left]
  · cases strict <;> simp [none_left]

/-- Running the segments of a template evaluates it. -/
theorem delivery_runFrom_segments (expander : Expander ω) (t : Bytes) (p : Progress ω) :
    let run := (expander.runFrom (segments t) p).delivery
    let evaluation := expander.evaluate t p.waiting
    run.2 = evaluation.output ∧ run.1.result = evaluation.result ∧
      run.1.drawn = p.drawn + evaluation.drawn := by
  induction t using Template.templateInduction generalizing p with
  | plain t text outer =>
      rw [Template.segments_plain outer, evaluate_plain expander _ outer]
      exact ⟨List.append_nil _, result_finish .., drawn_finish ..⟩
  | unclosed t text rest body outer inner =>
      rw [Template.segments_unclosed outer inner, evaluate_unclosed expander _ outer inner]
      exact ⟨List.append_nil _, rfl, rfl⟩
  | directive t text rest body next outer inner ih =>
      rw [Template.segments_directive outer inner, evaluate_directive expander _ outer inner,
        delivery_runFrom_text, delivery_runFrom_directive, delivery_perform]
      have supplied :
          (perform expander.vocabulary (.parse body) (.start p.waiting)).delivery.1.2.supply =
            p.waiting.length := (supply_perform ..).trans (Nat.zero_add _)
      generalize (perform expander.vocabulary (.parse body) (.start p.waiting)).delivery = done
        at supplied ⊢
      obtain ⟨⟨result, q⟩, sent⟩ := done
      have drawn : p.waiting.length - q.waiting.length = q.drawn := by
        simp only [Progress.supply] at supplied; omega
      cases result with
      | error e =>
          refine ⟨rfl, rfl, ?_⟩
          simp only [drawn]
          rfl
      | ok =>
          obtain ⟨output, result, rest⟩ := ih (p.after q)
          refine ⟨?_, result, ?_⟩
          · simp only [Evaluation.after]
            rw [output, List.append_assoc]
            rfl
          · simp only [Evaluation.after, drawn]
            rw [rest]
            exact Nat.add_assoc ..

/-- Expanding a template from any source that gives all of it, into a sink that takes everything,
evaluates the template: the same output behind what the sink held before, the same result, and as
many arguments drawn. -/
theorem run_expand_eq_evaluate (expander : Expander ω) {s : Source} {t : Bytes} (h : s.Delivers t)
    (args : List (Value ω)) (r : Sink.Record) :
    let (outcome, record) := (expander.expand s args).run .accepting r
    let evaluation := expander.evaluate t args
    record.held = r.held ++ evaluation.output ∧ outcome.result = evaluation.result ∧
      outcome.drawn = evaluation.drawn := by
  obtain ⟨outcome, held⟩ := Writing.run_accepting (expander.expand s args) r
  have streamed := delivery_runFrom_joined expander (Template.read s) [] (.start args)
  rw [Template.joined_read h, List.nil_append] at streamed
  obtain ⟨output, result, drawn⟩ := delivery_runFrom_segments expander t (.start args)
  have whole : (expander.expand s args).delivery =
      (expander.runFrom (segments t) (.start args)).delivery := by
    rw [expand_eq_runFrom]
    exact streamed.symm
  rw [whole] at outcome held
  refine ⟨held.trans (congrArg _ output), ?_, ?_⟩
  · rw [outcome]; exact result
  · rw [outcome, drawn]; exact Nat.zero_add _

/-- The cuts lie between a backslash and its target, and inside a directive. -/
theorem run_expand_cut_apart :
    let source := Source.ofEvents [.chunk (Bytes.ofText "a\\"), .interrupted,
      .chunk (Bytes.ofText "%b%RA"), .interrupted, .chunk (Bytes.ofText "W;!")]
    let args : List (Value Unit) := [.text "xy", .text "z"]
    source.Delivers (Bytes.ofText "a\\%b%RAW;!") ∧
      let (outcome, record) := (withDefaults.expand source args).run .accepting .empty
      record.held = Bytes.ofText "a%bxy!" ∧ outcome.result = .ok () ∧ outcome.drawn = 2 := by
  intro source args
  have delivers : source.Delivers (Bytes.ofText "a\\%b%RAW;!") := by
    refine ⟨by decide +kernel, ?_⟩
    intro e he
    simp only [source, Source.ofEvents, List.mem_cons, List.not_mem_nil, or_false] at he
    rcases he with rfl | rfl | rfl | rfl | rfl
    · exact .inr ⟨_, by decide, rfl⟩
    · exact .inl rfl
    · exact .inr ⟨_, by decide, rfl⟩
    · exact .inl rfl
    · exact .inr ⟨_, by decide, rfl⟩
  have output : (withDefaults.evaluate (Bytes.ofText "a\\%b%RAW;!") args).output =
      Bytes.ofText "a%bxy!" := by decide +kernel
  have result : (withDefaults.evaluate (Bytes.ofText "a\\%b%RAW;!") args).result = .ok () := by
    decide +kernel
  have drawn : (withDefaults.evaluate (Bytes.ofText "a\\%b%RAW;!") args).drawn = 2 := by
    decide +kernel
  have expanded := run_expand_eq_evaluate withDefaults delivers args .empty
  simp only [output, result, drawn] at expanded
  exact ⟨delivers, expanded⟩

end LayeredTemplate.Expander
