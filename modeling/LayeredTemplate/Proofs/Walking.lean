import LayeredTemplate.Proofs.Concatenation
import LayeredTemplate.Proofs.Streaming

/-! A run is a walk through the segments of its template, which nothing but the arguments left over
joins from one segment to the next. So a template written behind another one runs as it would by
itself, and a template whose source fails runs as far as it was read. -/
namespace LayeredTemplate.Expander

open Template (Segment segments joined)

variable {ω : Type}

/-! ## Walks -/

/-- A part of a run: its output, with the arguments that it leaves or the failure that ends it. -/
structure Course (ω : Type) where
  output : Bytes
  ending : Except Failure (List (Value ω))

namespace Course

/-- Goes on with the arguments that are left, unless the run has ended. -/
def next (c : Course ω) (rest : List (Value ω) → Course ω) : Course ω :=
  match c.ending with
  | .error e => ⟨c.output, .error e⟩
  | .ok waiting => ⟨c.output ++ (rest waiting).output, (rest waiting).ending⟩

theorem next_of_error {c : Course ω} {e : Failure} (ended : c.ending = .error e)
    (rest : List (Value ω) → Course ω) : c.next rest = ⟨c.output, .error e⟩ := by
  rw [next, ended]

theorem next_of_ok {c : Course ω} {waiting : List (Value ω)} (left : c.ending = .ok waiting)
    (rest : List (Value ω) → Course ω) :
    c.next rest = ⟨c.output ++ (rest waiting).output, (rest waiting).ending⟩ := by
  rw [next, left]

theorem next_assoc (c : Course ω) (second third : List (Value ω) → Course ω) :
    (c.next second).next third = c.next fun waiting => (second waiting).next third := by
  cases ending : c.ending with
  | error e =>
      rw [next_of_error ending, next_of_error ending]
      rfl
  | ok waiting =>
      rw [next_of_ok ending, next_of_ok ending]
      cases later : (second waiting).ending with
      | error e =>
          rw [next_of_error later]
          rfl
      | ok left =>
          rw [next_of_ok later, next]
          simp only [List.append_assoc]

end Course

/-- The course of a directive by itself. -/
def direct (known : Vocabulary ω) (d : Directive) (args : List (Value ω)) : Course ω :=
  let (output, result, waiting) := evaluateDirective known d args
  ⟨output, result.map fun _ => waiting⟩

/-- The course of some segments. -/
def walk (known : Vocabulary ω) : List Segment → List (Value ω) → Course ω
  | [], args => ⟨[], .ok args⟩
  | .text b :: rest, args => (Course.mk b (.ok args)).next fun waiting => walk known rest waiting
  | .directive d :: rest, args => (direct known d args).next fun waiting => walk known rest waiting
  | .unclosed :: _, _ => ⟨[], .error .incompleteDirective⟩
  | .broken e :: _, _ => ⟨[], .error (.io e)⟩

theorem walk_append (known : Vocabulary ω) (x y : List Segment) (args : List (Value ω)) :
    walk known (x ++ y) args = (walk known x args).next (walk known y) := by
  induction x generalizing args with
  | nil => rfl
  | cons segment x ih =>
      cases segment with
      | text b => simp only [List.cons_append, walk, ih, Course.next_assoc]
      | directive d => simp only [List.cons_append, walk, ih, Course.next_assoc]
      | unclosed => rfl
      | broken e => rfl

/-- Running a segment is walking through it. -/
theorem delivery_advance (known : Vocabulary ω) (segment : Option Segment) (p : Progress ω) :
    let done := (advance known segment p).delivery
    walk known segment.toList p.waiting = ⟨done.2, done.1.1.map fun _ => done.1.2.waiting⟩ := by
  cases segment with
  | none => rfl
  | some segment =>
      cases segment with
      | text b => rfl
      | directive d =>
          rw [advance, delivery_perform]
          change (direct known d p.waiting).next _ = _
          rw [direct, evaluateDirective, Writing.delivery]
          generalize (perform known d (.start p.waiting)).smooth = done
          obtain ⟨⟨result, q⟩, sent⟩ := done
          cases result with
          | error e => rfl
          | ok => exact congrArg (Course.mk · _) (List.append_nil _)
      | unclosed => rfl
      | broken e => rfl

/-- Running some segments is walking through them. -/
theorem delivery_runFrom_walk (expander : Expander ω) (x : List Segment) (p : Progress ω) :
    (expander.runFrom x p).delivery.2 = (walk expander.vocabulary x p.waiting).output ∧
      (expander.runFrom x p).delivery.1.result =
        (walk expander.vocabulary x p.waiting).ending.bind (leftover expander.strict) := by
  induction x generalizing p with
  | nil => exact ⟨rfl, result_finish ..⟩
  | cons segment x ih =>
      have first := delivery_advance expander.vocabulary (some segment) p
      have parts := walk_append expander.vocabulary [segment] x p.waiting
      rw [List.singleton_append] at parts
      rw [runFrom, Writing.delivery_bind, parts]
      simp only [Option.toList_some] at first
      generalize (advance expander.vocabulary (some segment) p).delivery = done at first ⊢
      obtain ⟨⟨result, q⟩, sent⟩ := done
      rw [first]
      cases result with
      | error e => exact ⟨List.append_nil _, rfl⟩
      | ok =>
          obtain ⟨output, result⟩ := ih q
          exact ⟨congrArg (sent ++ ·) output, result⟩

/-- Into a sink that takes everything an expansion delivers the course of its segments, with the
texts in a row made one or not. -/
theorem run_expand_walk (expander : Expander ω) {s : Source} {x : List Segment}
    (read : joined [] (Template.read s) = joined [] x) (args : List (Value ω)) (r : Sink.Record) :
    ((expander.expand s args).run .accepting r).2.held =
        r.held ++ (walk expander.vocabulary x args).output ∧
      ((expander.expand s args).run .accepting r).1.result =
        (walk expander.vocabulary x args).ending.bind (leftover expander.strict) := by
  obtain ⟨outcome, held⟩ := Writing.run_accepting (expander.expand s args) r
  have streamed := delivery_runFrom_joined expander (Template.read s) [] (.start args)
  have whole := delivery_runFrom_joined expander x [] (.start args)
  rw [read] at streamed
  have same : (expander.expand s args).delivery =
      (expander.runFrom x (.start args)).delivery := by
    rw [expand_eq_runFrom]
    exact streamed.symm.trans whole
  obtain ⟨output, result⟩ := delivery_runFrom_walk expander x (.start args)
  rw [same] at outcome held
  constructor
  · rw [held, output]
    rfl
  · rw [outcome, result]
    rfl

/-! ## Arguments left over -/

theorem waiting_through (layers : List Layer) (head : Writing (Except Failure Unit))
    (p : Progress ω) : (through layers head p).smooth.1.2.waiting = p.waiting := by
  rw [through, Writing.smooth_bind]
  obtain ⟨answer, states⟩ := (Stack.carry layers head (Stack.fresh layers)).smooth.1
  cases answer with
  | error e => rfl
  | ok =>
      simp only [Writing.smooth_map]
      rfl

theorem waiting_performHead (plan : Plan ω) (layers : List Layer) (value : Value ω)
    (p : Progress ω) : (performHead plan layers value p).smooth.1.2.waiting = p.waiting := by
  unfold performHead
  cases plan.head with
  | formatter format => exact waiting_through ..
  | encoder build =>
      simp only
      cases build plan.headArgs with
      | error e => rfl
      | ok layer => exact waiting_through ..

/-- A directive that succeeds has taken one argument if it takes any, or what there was. -/
theorem waiting_perform (known : Vocabulary ω) (d : Directive) (p : Progress ω)
    (succeeds : (perform known d p).smooth.1.1 = .ok ()) :
    (perform known d p).smooth.1.2.waiting = p.waiting.drop (if d.isChain then 1 else 0) := by
  cases d with
  | percent => rfl
  | chain head encoders =>
      simp only [perform] at succeeds ⊢
      cases planned : plan known head encoders with
      | error e =>
          rw [planned] at succeeds
          cases succeeds
      | ok plan =>
          rw [planned] at succeeds
          simp only at succeeds ⊢
          cases built : buildLayers plan.encoders with
          | error e =>
              rw [built] at succeeds
              cases succeeds
          | ok layers =>
              simp only [waiting_performHead]
              obtain ⟨waiting, drawn, journal⟩ := p
              cases waiting <;> rfl

/-- The failure of the first of some directives that fails. -/
def firstFailure? (known : Vocabulary ω) : List Directive → List (Value ω) → Option Failure
  | [], _ => none
  | d :: rest, args =>
      match evaluateDirective known d args with
      | (_, .error e, _) => some e
      | (_, .ok _, waiting) => firstFailure? known rest waiting

/-- A walk through complete segments ends with the first failure, or else leaves the arguments that
none of the directives took. -/
theorem ending_walk (known : Vocabulary ω) {x : List Segment}
    (complete : ∀ segment ∈ x, segment.IsComplete) (args : List (Value ω)) :
    (walk known x args).ending =
      match firstFailure? known (x.filterMap Segment.directive?) args with
      | some e => .error e
      | none => .ok (args.drop ((x.filterMap Segment.directive?).countP Directive.isChain)) := by
  induction x generalizing args with
  | nil => rfl
  | cons segment x ih =>
      obtain ⟨first, rest⟩ := List.forall_mem_cons.1 complete
      cases segment with
      | unclosed => exact first.elim
      | broken e => exact first.elim
      | text b =>
          have same : (walk known (.text b :: x) args).ending = (walk known x args).ending := rfl
          rw [same, ih rest]
          rfl
      | directive d =>
          have found : (Segment.directive d :: x).filterMap Segment.directive? =
              d :: x.filterMap Segment.directive? := rfl
          have taken := waiting_perform known d (.start args)
          rw [found, walk, direct, firstFailure?, evaluateDirective]
          generalize (perform known d (.start args)).smooth = done at taken ⊢
          obtain ⟨⟨result, q⟩, sent⟩ := done
          cases result with
          | error e => rfl
          | ok =>
              have left : q.waiting = args.drop (if d.isChain then 1 else 0) := taken rfl
              have later := ih rest q.waiting
              simp only [Course.next, Except.map, later, List.countP_cons]
              rw [left, List.drop_drop, Nat.add_comm]

/-- An expansion whose template starts with complete segments delivers the output of these. Then it
fails if one of their directives does, or else goes on with the other segments on the arguments that
are left. -/
theorem run_expand_complete (expander : Expander ω) {s : Source} {x y : List Segment}
    (complete : ∀ segment ∈ x, segment.IsComplete) {directives : List Directive}
    (found : x.filterMap Segment.directive? = directives)
    (read : joined [] (Template.read s) = joined [] (x ++ y)) (args : List (Value ω)) :
    let (outcome, record) := (expander.expand s args).run .accepting .empty
    let output := (walk expander.vocabulary x args).output
    match firstFailure? expander.vocabulary directives args with
    | some e => record.held = output ∧ outcome.result = .error e
    | none =>
        let left := args.drop (directives.countP Directive.isChain)
        let later := walk expander.vocabulary y left
        record.held = output ++ later.output ∧
          outcome.result = later.ending.bind (leftover expander.strict) := by
  obtain ⟨held, result⟩ := run_expand_walk expander read args .empty
  have course := ending_walk expander.vocabulary complete args
  rw [found] at course
  rw [walk_append] at held result
  simp only
  cases failed : firstFailure? expander.vocabulary directives args with
  | some e =>
      rw [failed] at course
      rw [Course.next_of_error course] at held result
      exact ⟨held, result⟩
  | none =>
      rw [failed] at course
      rw [Course.next_of_ok course] at held result
      exact ⟨held, result⟩

/-! ## Templates in a row -/

/-- A closed template runs as it does by itself whatever is written behind it, and what is written
behind it runs as it does by itself on the arguments that are left, however the sources are cut: the
output of the one is followed by the output of the other, and the other one's result is that of the
whole. A template that fails does so before what stands behind it is run. -/
theorem run_expand_append (expander : Expander ω) (lenient : expander.strict = false)
    {t u : Bytes} (closed : Template.Closed t) {s first second : Source}
    (whole : s.Delivers (t ++ u)) (front : first.Delivers t) (back : second.Delivers u)
    (args : List (Value ω)) :
    let (outcome, record) := (expander.expand s args).run .accepting .empty
    let (before, sent) := (expander.expand first args).run .accepting .empty
    let (after, more) :=
      (expander.expand second (args.drop (Template.arity t))).run .accepting .empty
    match before.result with
    | .ok _ => record.held = sent.held ++ more.held ∧ outcome.result = after.result
    | .error e => record.held = sent.held ∧ outcome.result = .error e := by
  have joinedWhole := (Template.joined_read whole).trans (closed.segments_append u)
  have joinedFront := (Template.joined_read front).trans (Template.joined_segments t).symm
  have joinedBack := (Template.joined_read back).trans (Template.joined_segments u).symm
  rw [← List.append_nil (segments t)] at joinedFront
  have found : (segments t).filterMap Segment.directive? = Template.directives t := rfl
  have ran := run_expand_complete expander closed.isComplete found joinedWhole args
  have ranFront := run_expand_complete expander closed.isComplete found joinedFront args
  have ranBack := run_expand_walk expander joinedBack (args.drop (Template.arity t)) .empty
  simp only
  cases failed : firstFailure? expander.vocabulary (Template.directives t) args with
  | some e =>
      rw [failed] at ran ranFront
      obtain ⟨held, result⟩ := ran
      obtain ⟨sent, fails⟩ := ranFront
      rw [fails]
      exact ⟨held.trans sent.symm, result⟩
  | none =>
      rw [failed] at ran ranFront
      obtain ⟨held, result⟩ := ran
      obtain ⟨sent, ended⟩ := ranFront
      obtain ⟨more, last⟩ := ranBack
      have succeeds : leftover expander.strict (args.drop (Template.arity t)) = .ok () := by
        simp [leftover, lenient]
      rw [ended.trans succeeds]
      refine ⟨?_, result.trans last.symm⟩
      rw [held, sent, more, walk, List.append_nil]
      rfl

/-- The seam lies behind an escaped `%`, a cut inside that escape, and one argument is left. -/
theorem run_expand_append_escaped_seam :
    let t := Bytes.ofText "%base64;-%%;%RAW;\\%"
    let u := Bytes.ofText "%json;%RAW;"
    let s := Source.ofEvents [.chunk (Bytes.ofText "%base64;-%%;%RAW;\\"), .interrupted,
      .chunk (Bytes.ofText "%%json;%RAW;")]
    let args : List (Value Unit) := [.text "a", .text "b", .text "c"]
    (withDefaults : Expander Unit).strict = false ∧ Template.Closed t ∧ s.Delivers (t ++ u) ∧
      (Source.ofBytes t).Delivers t ∧ (Source.ofBytes u).Delivers u ∧
      let (outcome, record) := (withDefaults.expand s args).run .accepting .empty
      record.held = Bytes.ofText "YQ==-%b%\"c\"" ∧ outcome.result = .error .notGiven := by
  intro t u s args
  have lenient : (withDefaults : Expander Unit).strict = false := rfl
  have closed : Template.Closed t :=
    .directive rfl rfl (.directive rfl rfl (.directive rfl rfl (.plain rfl rfl)))
  have whole : s.Delivers (t ++ u) := by decide +kernel
  have front := Source.delivers_ofBytes t
  have back := Source.delivers_ofBytes u
  have succeeds : ((withDefaults.expand (.ofBytes t) args).run .accepting .empty).1.result =
      .ok () := by decide +kernel
  have sent : ((withDefaults.expand (.ofBytes t) args).run .accepting .empty).2.held =
      Bytes.ofText "YQ==-%b%" := by decide +kernel
  have fails : ((withDefaults.expand (.ofBytes u) (args.drop (Template.arity t))).run
      .accepting .empty).1.result = .error .notGiven := by decide +kernel
  have more : ((withDefaults.expand (.ofBytes u) (args.drop (Template.arity t))).run
      .accepting .empty).2.held = Bytes.ofText "\"c\"" := by decide +kernel
  have appended := run_expand_append withDefaults lenient closed whole front back args
  simp only [succeeds, sent, fails, more] at appended
  exact ⟨lenient, closed, whole, front, back, appended⟩

/-! ## Sources that fail -/

theorem leftover_cases (strict : Bool) (args : List (Value ω)) :
    leftover strict args = .ok () ∨
      ∃ unused, leftover strict args = .error (.unusedArguments unused) := by
  unfold leftover
  split
  · exact .inr ⟨args.length, rfl⟩
  · exact .inl rfl

/-- From a source that fails after `p` an expansion delivers just what the whole template `p` would
have it deliver. If none of the directives in `p` fails, the template at hand ends well, in the
middle of a directive, or with arguments left over, and it is then that the source fails. A
directive that fails does so first. -/
theorem run_expand_of_failsAfter (expander : Expander ω) {s t : Source} {p : Bytes} {e : IoError}
    (fails : s.FailsAfter p e) (complete : t.Delivers p) (args : List (Value ω)) :
    let (outcome, record) := (expander.expand s args).run .accepting .empty
    let (whole, all) := (expander.expand t args).run .accepting .empty
    record.held = all.held ∧
      match firstFailure? expander.vocabulary (Template.directives p) args with
      | some f => outcome.result = .error f ∧ whole.result = .error f
      | none => outcome.result = .error (.io e) ∧
          (whole.result = .ok () ∨ whole.result = .error .incompleteDirective ∨
            ∃ unused, whole.result = .error (.unusedArguments unused)) := by
  obtain ⟨x, y, isComplete, ending, read⟩ := Template.exists_isComplete p
  have directives : x.filterMap Segment.directive? = Template.directives p := by
    have none_behind : y.filterMap Segment.directive? = [] := by
      rcases ending with rfl | rfl <;> rfl
    rw [Template.directives, read, List.filterMap_append, none_behind, List.append_nil]
  have joinedFailing := Template.joined_read_of_failsAfter fails
  have joinedWhole := (Template.joined_read complete).trans (Template.joined_segments p).symm
  rw [read] at joinedFailing joinedWhole
  rw [Template.broken_eq isComplete ending] at joinedFailing
  have ran := run_expand_complete expander isComplete directives joinedFailing args
  have ranWhole := run_expand_complete expander isComplete directives joinedWhole args
  cases failed : firstFailure? expander.vocabulary (Template.directives p) args with
  | some f =>
      rw [failed] at ran ranWhole
      obtain ⟨held, result⟩ := ran
      obtain ⟨all, ended⟩ := ranWhole
      exact ⟨held.trans all.symm, result, ended⟩
  | none =>
      rw [failed] at ran ranWhole
      obtain ⟨held, result⟩ := ran
      obtain ⟨all, ended⟩ := ranWhole
      rcases ending with rfl | rfl
      · refine ⟨held.trans all.symm, result, ?_⟩
        rw [ended]
        have leftovers := leftover_cases expander.strict (args.drop (Template.arity p))
        rcases leftovers with kept | refused
        · exact .inl kept
        · exact .inr (.inr refused)
      · exact ⟨held.trans all.symm, result, .inr (.inl ended)⟩

end LayeredTemplate.Expander
