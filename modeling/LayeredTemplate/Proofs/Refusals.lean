import LayeredTemplate.Proofs.Chains
import LayeredTemplate.Proofs.Walking

/-! A directive that fails before its head writes anything leaves no trace in the output, even if
its layers hold something to write when they are finalized. What can be wrong with it is looked at
in a fixed order, and the first fault is the one reported. -/
namespace LayeredTemplate

variable {ω : Type}

/-! ## Faults -/

/-- What a writing fails with that has written nothing by then. -/
def Writing.silentFailure? (w : Writing (Except Failure Unit)) : Option Failure :=
  match w.smooth with
  | (.error e, []) => some e
  | _ => none

/-- The formatter has written nothing whenever it fails by itself. -/
def Formatter.FailsSilently (format : Formatter ω) : Prop :=
  ∀ v args e, (format v args).smooth.1 = .error e → (format v args).silentFailure? = some e

/-- What a value fails with that has no bytes of its own. -/
def Value.rawFault? : Value ω → Option Failure
  | .text _ | .bytes _ | .reader _ => none
  | .notGiven => some .notGiven
  | other => some (.noDefaultHandling other.shape)

namespace Stage

/-- What is wrong with the name of a stage. A formatter may stand at the head only. -/
def nameFault? (known : Vocabulary ω) (atHead : Bool) (stage : Stage) : Option Failure :=
  match known.resolve stage.name with
  | none => some (.unknownName stage.name)
  | some (.formatter _) => if atHead then none else some (.notAnEncoder stage.name)
  | some (.encoder _) => none

/-- What an encoder fails with that is not built from the arguments of its stage. -/
def buildFault? (known : Vocabulary ω) (stage : Stage) : Option Failure :=
  match known.resolve stage.name with
  | some (.encoder build) =>
      match build stage.args with
      | .ok _ => none
      | .error e => some e
  | _ => none

/-- What a head fails with before it writes anything. -/
def openingFault? (known : Vocabulary ω) (head : Stage) (v : Value ω) : Option Failure :=
  match known.resolve head.name with
  | some (.encoder _) => v.rawFault?
  | some (.formatter format) => (format v head.args).silentFailure?
  | none => none

end Stage

/-- The first fault of a chain: names come first, from left to right, then the encoders after the
head, from the last to the first, and then the head, as an encoder and with its value. -/
def Directive.fault? (known : Vocabulary ω) (head : Stage) (encoders : List Stage) (v : Value ω) :
    Option Failure :=
  (head.nameFault? known true).or <|
    (encoders.findSome? (Stage.nameFault? known false)).or <|
    (encoders.reverse.findSome? (Stage.buildFault? known)).or <|
    (head.buildFault? known).or (head.openingFault? known v)

/-- What the directive behind a `%` fails with before its head writes anything, if its argument is
the first of `args`. -/
def Expander.refusal? (known : Vocabulary ω) (rest : Bytes) (args : List (Value ω)) :
    Option Failure :=
  match Escape.splitFirst Bytes.semicolon rest with
  | (_, none) => some .incompleteDirective
  | (body, some _) =>
      match Directive.parse body with
      | .percent => none
      | .chain head encoders => Directive.fault? known head encoders (args.headD .notGiven)

/-! ## Heads that write nothing -/

namespace Writing

theorem silentFailure?_eq_some {w : Writing (Except Failure Unit)} {e : Failure} :
    w.silentFailure? = some e ↔ w.smooth = (.error e, []) := by
  unfold silentFailure?
  generalize w.smooth = done
  obtain ⟨result, sent⟩ := done
  cases result with
  | ok => simp
  | error f => cases sent <;> simp

end Writing

theorem Layer.smooth_carry_of_nil {α : Type} (l : Layer) (w : Writing α) (s : l.State)
    (silent : w.smooth.2 = []) : (l.carry w s).smooth = ((w.smooth.1, s), []) := by
  induction w with
  | done a => rfl
  | writeAll b next ih => cases silent
  | write b next ih => cases silent
  | flush next ih => exact ih (.ok ()) silent

theorem Stack.smooth_carry_of_nil {α : Type} (layers : List Layer) (w : Writing α)
    (states : States layers) (silent : w.smooth.2 = []) :
    (carry layers w states).smooth = ((w.smooth.1, states), []) := by
  induction layers generalizing α w with
  | nil =>
      rw [carry, Writing.smooth_map, Writing.smooth_whole, silent]
  | cons l below ih =>
      obtain ⟨s, states⟩ := states
      have top := l.smooth_carry_of_nil w s silent
      have rest := ih (l.carry w s) states (congrArg Prod.snd top)
      rw [carry, Writing.smooth_map, rest, top]

/-- A value without bytes of its own is refused at once. -/
theorem Value.smooth_writeRaw_of_rawFault {v : Value ω} {e : Failure}
    (refused : v.rawFault? = some e) : v.writeRaw.smooth = (.error e, []) := by
  cases v with
  | text | bytes | reader => cases refused
  | notGiven => cases refused; rfl
  | _ => cases refused; rfl

theorem Json.failsSilently_formatter : Formatter.FailsSilently (Json.formatter : Formatter ω) := by
  intro v args e fails
  rw [Writing.silentFailure?_eq_some]
  unfold Json.formatter at fails ⊢
  cases layout : Json.Layout.ofArgs args with
  | error f =>
      rw [layout] at fails
      cases fails
      rfl
  | ok layout' =>
      rw [layout] at fails
      cases document : Json.ofValue? v with
      | none =>
          rw [document] at fails
          exact congrArg (·, []) fails
      | some document' =>
          rw [document] at fails
          simp only [Writing.smooth_sendEach, Writing.smooth] at fails
          cases fails

namespace Expander

variable {known : Vocabulary ω}

/-! ## The encoders after a head -/

theorem planEncoders_of_nameFault {encoders : List Stage} {e : Failure}
    (fault : encoders.findSome? (Stage.nameFault? known false) = some e) :
    planEncoders known encoders = .error e := by
  induction encoders with
  | nil => cases fault
  | cons stage rest ih =>
      rw [List.findSome?_cons, Stage.nameFault?] at fault
      rw [planEncoders]
      cases found : known.resolve stage.name with
      | none =>
          rw [found] at fault
          cases fault
          rfl
      | some handler =>
          rw [found] at fault
          cases handler with
          | formatter format =>
              cases fault
              rfl
          | encoder build =>
              have later := ih fault
              simp only [later]

theorem resolve_of_nameFault_none {stage : Stage} (named : stage.nameFault? known false = none) :
    ∃ build, known.resolve stage.name = some (.encoder build) := by
  unfold Stage.nameFault? at named
  cases found : known.resolve stage.name with
  | none =>
      rw [found] at named
      cases named
  | some handler =>
      rw [found] at named
      cases handler with
      | formatter format => cases named
      | encoder build => exact ⟨build, rfl⟩

/-- With their names in order, the encoders are built from the last to the first. -/
theorem layersOf_eq {encoders : List Stage}
    (named : encoders.findSome? (Stage.nameFault? known false) = none) :
    match encoders.reverse.findSome? (Stage.buildFault? known) with
    | some e => layersOf known encoders = .error e
    | none => ∃ layers, layersOf known encoders = .ok layers := by
  induction encoders with
  | nil => exact ⟨[], rfl⟩
  | cons stage rest ih =>
      rw [List.findSome?_cons] at named
      cases own : stage.nameFault? known false with
      | some e =>
          rw [own] at named
          cases named
      | none =>
          rw [own] at named
          have below := ih named
          obtain ⟨build, found⟩ := resolve_of_nameFault_none own
          rw [List.reverse_cons, List.findSome?_append, List.findSome?_singleton,
            layersOf_cons found]
          cases earlier : rest.reverse.findSome? (Stage.buildFault? known) with
          | some e =>
              rw [earlier] at below
              rw [below]
              rfl
          | none =>
              rw [earlier] at below
              obtain ⟨layers, below⟩ := below
              rw [below, Option.none_or]
              cases built : build stage.args with
              | error e =>
                  have fault : stage.buildFault? known = some e := by
                    simp only [Stage.buildFault?, found, built]
                  rw [fault]
                  rfl
              | ok layer =>
                  have sound : stage.buildFault? known = none := by
                    simp only [Stage.buildFault?, found, built]
                  rw [sound]
                  exact ⟨layer :: layers, rfl⟩

/-! ## Directives -/

/-- A head that fails without a write takes the directive with it, and no layer is finalized. -/
theorem smooth_through_of_silent {head : Writing (Except Failure Unit)} {e : Failure}
    (silent : head.smooth = (.error e, [])) (layers : List Layer) (p : Progress ω) :
    (through layers head p).smooth = ((.error e, p), []) := by
  have carried := Stack.smooth_carry_of_nil layers head (Stack.fresh layers)
    (congrArg Prod.snd silent)
  rw [through, Writing.smooth_bind, carried, silent]
  rfl

theorem smooth_performHead_of_fault {head : Stage} {handler : Handler ω}
    (found : known.resolve head.name = some handler) (plans : List (Encoder × Option Bytes))
    (layers : List Layer) {v : Value ω} {e : Failure}
    (fault : (head.buildFault? known).or (head.openingFault? known v) = some e)
    (p : Progress ω) :
    ∃ q, (performHead ⟨handler, head.args, plans⟩ layers v p).smooth = ((.error e, q), []) := by
  rw [Stage.buildFault?, Stage.openingFault?, found] at fault
  unfold performHead
  cases handler with
  | formatter format =>
      have silent := Writing.silentFailure?_eq_some.1 fault
      exact ⟨p, smooth_through_of_silent silent layers p⟩
  | encoder build =>
      simp only at fault ⊢
      cases built : build head.args with
      | error f =>
          rw [built] at fault
          cases fault
          exact ⟨p, rfl⟩
      | ok layer =>
          rw [built] at fault
          have silent := Value.smooth_writeRaw_of_rawFault fault
          exact ⟨p, smooth_through_of_silent silent (layer :: layers) p⟩

/-- A chain with a fault fails with the first one and writes nothing. -/
theorem smooth_perform_of_fault {head : Stage} {encoders : List Stage} {p : Progress ω}
    {e : Failure} (fault : Directive.fault? known head encoders p.draw.1 = some e) :
    ∃ q, (perform known (.chain head encoders) p).smooth = ((.error e, q), []) := by
  unfold Directive.fault? at fault
  cases found : known.resolve head.name with
  | none =>
      rw [Stage.nameFault?, found] at fault
      cases fault
      refine ⟨p, ?_⟩
      simp only [perform, plan, found, Writing.smooth]
  | some handler =>
      have headNamed : head.nameFault? known true = none := by
        rw [Stage.nameFault?, found]
        cases handler <;> rfl
      obtain ⟨plans, entries, q, performed⟩ := perform_chain found encoders p
      -- From here on each fault is looked for only if there is none before it.
      rw [headNamed, Option.none_or] at fault
      rw [performed]
      cases misnamed : encoders.findSome? (Stage.nameFault? known false) with
      | some f =>
          have stopped : layersOf known encoders = .error f := by
            rw [layersOf, planEncoders_of_nameFault misnamed]
            rfl
          rw [misnamed] at fault
          cases fault
          rw [stopped]
          exact ⟨q, rfl⟩
      | none =>
          have below := layersOf_eq misnamed
          rw [misnamed, Option.none_or] at fault
          cases unbuilt : encoders.reverse.findSome? (Stage.buildFault? known) with
          | some f =>
              rw [unbuilt] at below fault
              cases fault
              rw [below]
              exact ⟨q, rfl⟩
          | none =>
              rw [unbuilt] at below fault
              obtain ⟨layers, below⟩ := below
              rw [below]
              exact smooth_performHead_of_fault found plans layers fault _

/-! ## Runs -/

/-- A directive refused behind its `%` ends the walk at once. -/
theorem walk_refused {rest : Bytes} {args : List (Value ω)} {e : Failure}
    (refused : refusal? known rest args = some e) :
    walk known (Template.segments (Bytes.percent :: rest)) args = ⟨[], .error e⟩ := by
  have opens : Escape.splitFirst Bytes.percent (Bytes.percent :: rest) = ([], some rest) :=
    Escape.splitFirst_delim (by decide) rest
  rw [Template.segments_eq, opens, Option.elim_some, Template.bodySegments]
  unfold refusal? at refused
  generalize Escape.splitFirst Bytes.semicolon rest = split at refused ⊢
  obtain ⟨body, next⟩ := split
  cases next with
  | none =>
      cases refused
      rfl
  | some next =>
      simp only at refused ⊢
      cases directive : Directive.parse body with
      | percent =>
          rw [directive] at refused
          cases refused
      | chain head encoders =>
          rw [directive] at refused
          have drawn : (Progress.start args).draw.1 = args.headD .notGiven := by
            cases args <;> rfl
          obtain ⟨q, silent⟩ := smooth_perform_of_fault (p := .start args) (drawn ▸ refused)
          have course : direct known (.chain head encoders) args = ⟨[], .error e⟩ := by
            rw [direct, evaluateDirective, silent]
            rfl
          simp only [walk, course, Course.next]
          rfl

/-- Where a run comes to a directive that is refused, it fails with the first fault of the
directive, and the output is that of the template cut before its `%`. For the JSON formatter that is
so whenever it fails by itself. -/
theorem run_expand_refused (expander : Expander ω) {before rest : Bytes}
    (closed : Template.Closed before) {s t : Source}
    (whole : s.Delivers (before ++ Bytes.percent :: rest)) (front : t.Delivers before)
    (args : List (Value ω))
    (reached : firstFailure? expander.vocabulary (Template.directives before) args = none)
    {e : Failure}
    (refused : refusal? expander.vocabulary rest (args.drop (Template.arity before)) = some e) :
    let (outcome, record) := (expander.expand s args).run .accepting .empty
    let (_, cut) := (expander.expand t args).run .accepting .empty
    outcome.result = .error e ∧ record.held = cut.held ∧
      Formatter.FailsSilently (Json.formatter : Formatter ω) := by
  have joinedWhole := (Template.joined_read whole).trans (closed.segments_append _)
  have joinedFront := (Template.joined_read front).trans (Template.joined_segments before).symm
  rw [← List.append_nil (Template.segments before)] at joinedFront
  have found : (Template.segments before).filterMap Template.Segment.directive? =
      Template.directives before := rfl
  have ran := run_expand_complete expander closed.isComplete found joinedWhole args
  have ranFront := run_expand_complete expander closed.isComplete found joinedFront args
  rw [reached] at ran ranFront
  obtain ⟨held, result⟩ := ran
  obtain ⟨cut, -⟩ := ranFront
  have course : walk expander.vocabulary (Template.segments (Bytes.percent :: rest))
      (args.drop ((Template.directives before).countP Directive.isChain)) = ⟨[], .error e⟩ :=
    walk_refused refused
  rw [course] at held result
  exact ⟨result, held.trans cut.symm, Json.failsSilently_formatter⟩

/-- Both encoders refuse their arguments, the head has no value left, and the last encoder is the
one that is reported. -/
theorem run_expand_refused_last_encoder :
    let before := Bytes.ofText "a%base64;b"
    let rest := Bytes.ofText "json|base64:bad|cdata:worse;!"
    let s := Source.ofEvents [.chunk (Bytes.ofText "a%base64;b%json|base"), .interrupted,
      .chunk (Bytes.ofText "64:bad|cdata:worse;!")]
    let args : List (Value Unit) := [.text "x"]
    Template.Closed before ∧ s.Delivers (before ++ Bytes.percent :: rest) ∧
      (Source.ofBytes before).Delivers before ∧
      firstFailure? .withDefaults (Template.directives before) args = none ∧
      let (outcome, record) := (withDefaults.expand s args).run .accepting .empty
      outcome.result = .error (.invalidArguments (Bytes.ofText "worse")
          "only nocrlf allowed for cdata") ∧
        record.held = Bytes.ofText "aeA==b" := by
  intro before rest s args
  have closed : Template.Closed before := .directive rfl rfl (.plain rfl rfl)
  have whole : s.Delivers (before ++ Bytes.percent :: rest) := by decide +kernel
  have front := Source.delivers_ofBytes before
  have reached : firstFailure? .withDefaults (Template.directives before) args = none := by
    decide +kernel
  have refused : refusal? .withDefaults rest (args.drop (Template.arity before)) =
      some (.invalidArguments (Bytes.ofText "worse") "only nocrlf allowed for cdata") := by
    decide +kernel
  have cut : ((withDefaults.expand (.ofBytes before) args).run .accepting .empty).2.held =
      Bytes.ofText "aeA==b" := by decide +kernel
  obtain ⟨result, held, -⟩ :=
    run_expand_refused withDefaults closed whole front args reached refused
  exact ⟨closed, whole, front, reached, result, held.trans cut⟩

end Expander
end LayeredTemplate
