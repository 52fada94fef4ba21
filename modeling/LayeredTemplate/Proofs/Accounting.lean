import LayeredTemplate.Proofs.Concatenation
import LayeredTemplate.Proofs.Conduct
import LayeredTemplate.Proofs.Layering
import LayeredTemplate.Proofs.Streaming

/-! Arguments are drawn by number: the directives that take one, counted from the front of the
template, get the arguments at their places, and nothing else draws any until the template ends. How
strict an expander is shows at that end alone. -/
namespace LayeredTemplate.Expander

open Template (Segment)

variable {ω : Type}

/-! ## Runs by number -/

/-- How a run ends, and how many directives in it came to draw an argument. -/
inductive Account where
  | stopped (error : Failure) (taken : Nat)
  | complete (taken : Nat)

/-- Runs some segments, of which the first directive that takes an argument has the number `taken`.
It looks the argument up once its handlers are found and its layers stand. -/
def numbered (known : Vocabulary ω) (args : List (Value ω)) :
    (taken : Nat) → List Segment → Writing Account
  | taken, [] => .done (.complete taken)
  | taken, .text b :: rest => .writeAll b fun
      | .ok _ => numbered known args taken rest
      | .error e => .done (.stopped (.io e) taken)
  | taken, .unclosed :: _ => .done (.stopped .incompleteDirective taken)
  | taken, .broken e :: _ => .done (.stopped (.io e) taken)
  | taken, .directive .percent :: rest => .writeAll [Bytes.percent] fun
      | .ok _ => numbered known args taken rest
      | .error e => .done (.stopped (.io e) taken)
  | taken, .directive (.chain head encoders) :: rest =>
      match ready known head encoders with
      | .error e => .done (.stopped e taken)
      | .ok (handler, layers) =>
          (serve handler head.args layers (args.getD taken .notGiven)).bind fun
            | .ok _ => numbered known args (taken + 1) rest
            | .error e => .done (.stopped e (taken + 1))

/-- The result of a run and the number of arguments drawn, where there are `supply` arguments. -/
def Account.tally (strict : Bool) (supply : Nat) : Account → Except Failure Unit × Nat
  | .stopped e taken => (.error e, min taken supply)
  | .complete taken =>
      (if strict ∧ taken < supply then .error (.unusedArguments (supply - taken)) else .ok (),
        supply)

def Outcome.tally (outcome : Outcome) : Except Failure Unit × Nat := (outcome.result, outcome.drawn)

/-! ## The place in the arguments -/

namespace Progress

/-- As many directives as `taken` have come to draw an argument, and they got those in front. -/
structure At (args : List (Value ω)) (taken : Nat) (p : Progress ω) : Prop where
  waiting_eq : p.waiting = args.drop taken
  drawn_eq : p.drawn = min taken args.length

variable {args : List (Value ω)} {taken : Nat} {p : Progress ω}

theorem at_start (args : List (Value ω)) : (start args).At args 0 where
  waiting_eq := rfl
  drawn_eq := (Nat.zero_min _).symm

theorem At.unreported (h : p.At args taken) : p.unreported.At args taken :=
  ⟨h.waiting_eq, h.drawn_eq⟩

/-- The argument drawn is the one whose number comes next. -/
theorem At.draw (h : p.At args taken) :
    p.draw.1 = args.getD taken .notGiven ∧ p.draw.2.At args (taken + 1) := by
  obtain ⟨waiting, drawn⟩ := h
  obtain ⟨left, number, journal⟩ := p
  simp only at waiting drawn
  by_cases there : taken < args.length
  · rw [List.drop_eq_getElem_cons there] at waiting
    subst waiting
    refine ⟨by simp [Progress.draw, there], rfl, ?_⟩
    simp only [Progress.draw]
    omega
  · have past : args.length ≤ taken := Nat.not_lt.1 there
    rw [List.drop_eq_nil_of_le past] at waiting
    subst waiting
    refine ⟨by simp [Progress.draw, past], ?_, ?_⟩
    · exact (List.drop_eq_nil_of_le (Nat.le_succ_of_le past)).symm
    · simp only [Progress.draw]
      omega

theorem At.finish (h : p.At args taken) (strict : Bool) :
    (p.finish strict).tally = (Account.complete taken).tally strict args.length := by
  obtain ⟨waiting, drawn⟩ := h
  have left : p.waiting.length = args.length - taken := by rw [waiting, List.length_drop]
  have some_left : p.waiting ≠ [] ↔ taken < args.length := by
    rw [← List.length_pos_iff, left]
    omega
  simp only [Outcome.tally, result_finish, drawn_finish, leftover, Account.tally, some_left, left,
    drawn]
  congr 1
  omega

end Progress

/-! ## Running by number -/

/-- What a run comes to after one of its directives. -/
def proceed (expander : Expander ω) (rest : List Segment) :
    Except Failure Unit × Progress ω → Writing (Except Failure Unit × Nat)
  | (.ok _, p) => (expander.runFrom rest p).map Outcome.tally
  | (.error e, p) => .done (.error e, p.drawn)

theorem map_tally_directive {expander : Expander ω} {rest : List Segment}
    (silent : ∀ p, (expander.runFrom rest p.unreported).map Outcome.tally =
      (expander.runFrom rest p).map Outcome.tally) (d : Directive) (p : Progress ω) :
    (expander.runFrom (.directive d :: rest) p).map Outcome.tally =
      ((perform expander.vocabulary d p).map (Prod.map id Progress.unreported)).bind
        (expander.proceed rest) := by
  rw [runFrom, advance, Writing.map_bind, Writing.map, Writing.bind_assoc]
  congr 1
  funext done
  obtain ⟨result, q⟩ := done
  cases result with
  | error e => rfl
  | ok => exact (silent q).symm

theorem map_unreported_perform_unreported (known : Vocabulary ω) (d : Directive)
    (p : Progress ω) :
    (perform known d p.unreported).map (Prod.map id Progress.unreported) =
      (perform known d p).map (Prod.map id Progress.unreported) := by
  cases d with
  | percent => simp only [perform, Writing.map_sendEach]; rfl
  | chain head encoders =>
      have drawn : p.unreported.draw = (p.draw.1, p.draw.2.unreported) := by
        obtain ⟨waiting, drawn, journal⟩ := p
        cases waiting <;> rfl
      rw [map_unreported_perform, map_unreported_perform, drawn]
      rfl

/-- What was reported before does not matter. -/
theorem map_tally_unreported (expander : Expander ω) (x : List Segment) (p : Progress ω) :
    (expander.runFrom x p.unreported).map Outcome.tally =
      (expander.runFrom x p).map Outcome.tally := by
  induction x generalizing p with
  | nil =>
      simp only [runFrom, Writing.map, Writing.bind, Outcome.tally, result_finish, drawn_finish]
      rfl
  | cons segment rest ih =>
      cases segment with
      | text b =>
          simp only [runFrom, advance, Writing.sendEach, Writing.map, Writing.bind]
          congr 1
          funext answer
          cases answer with
          | ok => exact ih p
          | error e => rfl
      | unclosed => rfl
      | broken e => rfl
      | directive d =>
          rw [map_tally_directive ih, map_tally_directive ih, map_unreported_perform_unreported]

/-- Drawing the arguments one after the other comes to the same as looking them up by number. -/
theorem map_tally_runFrom (expander : Expander ω) {args : List (Value ω)} (x : List Segment)
    {taken : Nat} {p : Progress ω} (place : p.At args taken) :
    (expander.runFrom x p).map Outcome.tally =
      (numbered expander.vocabulary args taken x).map
        (Account.tally expander.strict args.length) := by
  induction x generalizing taken p with
  | nil => exact congrArg Writing.done (place.finish expander.strict)
  | cons segment rest ih =>
      have stop (e : Failure) : (p.stop e).tally =
          (Account.stopped e taken).tally expander.strict args.length :=
        congrArg (Prod.mk _) place.drawn_eq
      cases segment with
      | text b =>
          simp only [runFrom, advance, numbered, Writing.sendEach, Writing.map, Writing.bind]
          congr 1
          funext answer
          cases answer with
          | ok => exact ih place
          | error e => exact congrArg Writing.done (stop (.io e))
      | unclosed => exact congrArg Writing.done (stop .incompleteDirective)
      | broken e => exact congrArg Writing.done (stop (.io e))
      | directive d =>
          rw [map_tally_directive (map_tally_unreported expander rest)]
          cases d with
          | percent =>
              simp only [perform, numbered, Writing.sendEach, Writing.map, Writing.bind]
              congr 1
              funext answer
              cases answer with
              | ok => exact ih place.unreported
              | error e => exact congrArg Writing.done (stop (.io e))
          | chain head encoders =>
              obtain ⟨drawn, next⟩ := place.draw
              rw [map_unreported_perform, numbered]
              cases ready expander.vocabulary head encoders with
              | error e => exact congrArg Writing.done (stop e)
              | ok needed =>
                  obtain ⟨handler, layers⟩ := needed
                  simp only [drawn, Writing.map, Writing.bind_assoc, Writing.bind]
                  congr 1
                  funext result
                  cases result with
                  | ok => exact ih next.unreported
                  | error e =>
                      exact congrArg (fun drawn => Writing.done (Except.error e, drawn))
                        next.drawn_eq

/-! ## What was taken by the end -/

/-- A run that completes has served every directive that takes an argument. -/
theorem taken_numbered (known : Vocabulary ω) (args : List (Value ω)) (x : List Segment)
    (before : Nat) :
    (numbered known args before x).Keeps (fun _ => True) fun account =>
      ∀ taken, account = .complete taken →
        taken = before + (x.filterMap Segment.directive?).countP Directive.isChain := by
  have stop (e : Failure) (n : Nat) (count : Nat) :
      ∀ taken, Account.stopped e n = .complete taken → taken = count := by
    intro taken other
    cases other
  induction x generalizing before with
  | nil =>
      intro taken same
      cases same
      rfl
  | cons segment rest ih =>
      cases segment with
      | text b =>
          refine ⟨trivial, ?_⟩
          intro answer
          cases answer with
          | ok => exact ih before
          | error e => exact stop _ _ _
      | unclosed => exact stop _ _ _
      | broken e => exact stop _ _ _
      | directive d =>
          cases d with
          | percent =>
              refine ⟨trivial, ?_⟩
              intro answer
              cases answer with
              | ok => exact ih before
              | error e => exact stop _ _ _
          | chain head encoders =>
              rw [numbered]
              cases ready known head encoders with
              | error e => exact stop _ _ _
              | ok needed =>
                  obtain ⟨handler, layers⟩ := needed
                  apply (Writing.keeps_true _).bind
                  intro result _
                  cases result with
                  | error e => exact stop _ _ _
                  | ok =>
                      have counted : ((Segment.directive (.chain head encoders) :: rest).filterMap
                          Segment.directive?).countP Directive.isChain =
                          1 + (rest.filterMap Segment.directive?).countP Directive.isChain :=
                        (List.countP_cons_of_pos rfl).trans (Nat.add_comm _ 1)
                      rw [counted, ← Nat.add_assoc]
                      exact ih (before + 1)

/-- Whatever the handlers and the sink do, a run makes the calls of the run by number, in which each
directive that takes an argument gets the one of its own number. If it stops it has drawn an
argument for each directive that came so far, as long as there were any. If it completes all are
drawn, and only then a strict expander fails, which it does if there are more arguments than
directives that take one. -/
theorem run_expand_accounts (known : Vocabulary ω) (args : List (Value ω)) (template : Source)
    (sink : Sink) (r : Sink.Record) :
    let counted := (numbered known args 0 (Template.read template)).run sink r
    let ran (strict : Bool) := (expand ⟨known, strict⟩ template args).run sink r
    (∀ strict, (ran strict).2 = counted.2) ∧
      match counted.1 with
      | .stopped e taken =>
          ∀ strict, (ran strict).1.result = .error e ∧ (ran strict).1.drawn = min taken args.length
      | .complete taken =>
          taken = ((Template.read template).filterMap Segment.directive?).countP Directive.isChain ∧
            (∀ strict, (ran strict).1.drawn = args.length) ∧
            (ran false).1.result = .ok () ∧
            (ran true).1.result =
              if taken < args.length then .error (.unusedArguments (args.length - taken))
              else .ok () := by
  intro counted ran
  have same (strict : Bool) : (ran strict).1.tally = counted.1.tally strict args.length ∧
      (ran strict).2 = counted.2 := by
    simp only [ran, expand_eq_runFrom]
    exact Writing.run_eq_of_map_eq
      (map_tally_runFrom ⟨known, strict⟩ (Template.read template) (Progress.at_start args)) sink r
  have completes := (taken_numbered known args (Template.read template) 0).run_ends sink r
  refine ⟨fun strict => (same strict).2, ?_⟩
  have tally (strict : Bool) := Prod.mk.inj (same strict).1
  change ∀ taken, counted.1 = .complete taken → _ at completes
  cases ended : counted.1 with
  | stopped e taken =>
      simp only [ended] at tally
      exact tally
  | complete taken =>
      simp only [ended] at tally
      refine ⟨?_, fun strict => (tally strict).2, ?_, ?_⟩
      · rw [completes taken ended, Nat.zero_add]
      · simpa using (tally false).1
      · simpa using (tally true).1

end LayeredTemplate.Expander
