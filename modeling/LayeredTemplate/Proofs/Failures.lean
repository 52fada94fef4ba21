import LayeredTemplate.Proofs.Conduct
import LayeredTemplate.Proofs.Truncation
import LayeredTemplate.Proofs.Walking

/-! What a directive can fail with: with what its handlers fail with, or with something ordinary.
Whether a template ends in the middle of a directive, and whether arguments are left over by then,
is not for a directive to find, and no handler of the library says so. -/
namespace LayeredTemplate

variable {ω : Type} {kind : Failure → Prop}

namespace Failure

/-- What the steps of a directive and the handlers of the library fail with. -/
def IsOrdinary : Failure → Prop
  | .unknownName _ | .notAnEncoder _ | .invalidArguments .. | .notGiven | .noDefaultHandling _
  | .io _ => True
  | .incompleteDirective | .alreadyRegistered _ | .unusedArguments _ | .invalidUtf8 _
  | .handler _ => False

/-- What an expansion finds by itself at the end of a template. -/
def endsTemplate : Failure → Bool
  | .incompleteDirective | .unusedArguments _ => true
  | _ => false

theorem IsOrdinary.not_endsTemplate {e : Failure} (h : e.IsOrdinary) : ¬ e.endsTemplate := by
  cases e <;> simp_all [IsOrdinary, endsTemplate]

/-- A success, or a failure of the kind. -/
def Within (kind : Failure → Prop) (result : Except Failure Unit) : Prop :=
  ∀ e, result = .error e → kind e

theorem within_ok : Within kind (.ok ()) := by
  intro e other
  cases other

theorem within_error {e : Failure} (h : kind e) : Within kind (.error e) := by
  rintro e' ⟨⟩
  exact h

end Failure

open Failure (Within IsOrdinary within_ok within_error)

/-- Whatever the handler is answered, it fails with nothing but failures of the kind. -/
def Handler.FailsWithin (kind : Failure → Prop) : Handler ω → Prop
  | .formatter format => ∀ v args, (format v args).Keeps (fun _ => True) (Within kind)
  | .encoder build => ∀ args e, build args = .error e → kind e

def Vocabulary.FailsWithin (known : Vocabulary ω) (kind : Failure → Prop) : Prop :=
  ∀ name handler, known.resolve name = some handler → handler.FailsWithin kind

/-! ## Handlers of the library -/

theorem Writing.keeps_sendEach_within (ordinary : ∀ e, IsOrdinary e → kind e)
    {result : Except Failure Unit} (ends : Within kind result) (fragments : List Bytes) :
    (sendEach (fun e => .error (.io e)) (.done result) fragments).Keeps (fun _ => True)
      (Within kind) := by
  apply keeps_sendEach
  · intro e
    exact within_error (ordinary (.io e) trivial)
  · exact ends
  · intro b _
    trivial

theorem Value.keeps_writeRaw (ordinary : ∀ e, IsOrdinary e → kind e) (v : Value ω) :
    v.writeRaw.Keeps (fun _ => True) (Within kind) := by
  have sent (fragments : List Bytes) (result : Except IoError Unit) :
      (Writing.sendEach (fun e => .error (.io e)) (.done (result.mapError .io)) fragments).Keeps
        (fun _ => True) (Within kind) := by
    apply Writing.keeps_sendEach_within ordinary
    cases result with
    | ok => exact within_ok
    | error e => exact within_error (ordinary (.io e) trivial)
  cases v with
  | text s => exact sent _ (.ok ())
  | bytes b => exact sent _ (.ok ())
  | reader source => exact sent _ _
  | _ => exact within_error (ordinary _ trivial)

theorem Json.failsWithin_formatter :
    (Handler.formatter (Json.formatter : Formatter ω)).FailsWithin IsOrdinary := by
  intro v args
  unfold Json.formatter
  cases laid : Layout.ofArgs args with
  | error e =>
      apply within_error
      unfold Layout.ofArgs at laid
      repeat' split at laid
      all_goals cases laid
      trivial
  | ok layout =>
      cases Json.ofValue? v with
      | none =>
          apply within_error
          split <;> trivial
      | some document => exact Writing.keeps_sendEach_within (fun _ h => h) within_ok _

theorem Base64.failsWithin_encoder :
    (Handler.encoder Base64.encoder : Handler ω).FailsWithin IsOrdinary := by
  intro args e refused
  unfold Base64.encoder Variant.ofArgs at refused
  repeat' split at refused
  all_goals cases refused
  rename_i refused
  repeat' split at refused
  all_goals cases refused
  trivial

theorem CharacterData.failsWithin_encoder :
    (Handler.encoder CharacterData.encoder : Handler ω).FailsWithin IsOrdinary := by
  intro args e refused
  unfold CharacterData.encoder at refused
  repeat' split at refused
  all_goals cases refused
  trivial

theorem Vocabulary.IsBundled.failsWithin {known : Vocabulary ω} (h : known.IsBundled) :
    known.FailsWithin IsOrdinary := by
  intro name handler found
  refine h.forall_handler ?_ Base64.failsWithin_encoder Json.failsWithin_formatter
    CharacterData.failsWithin_encoder found
  rintro args e ⟨⟩

theorem Vocabulary.FailsWithin.mono {known : Vocabulary ω} {wider : Failure → Prop}
    (h : known.FailsWithin kind) (more : ∀ e, kind e → wider e) : known.FailsWithin wider := by
  intro name handler found
  have within := h name handler found
  cases handler with
  | formatter format =>
      intro v args
      exact (within v args).mono fun _ ends e fails => more e (ends e fails)
  | encoder build => exact fun args e fails => more e (within args e fails)

/-! ## Directives -/

namespace Expander

variable {known : Vocabulary ω}

theorem layersOf_within (ordinary : ∀ e, IsOrdinary e → kind e) (within : known.FailsWithin kind)
    {encoders : List Stage} {e : Failure} (refused : layersOf known encoders = .error e) :
    kind e := by
  induction encoders with
  | nil => cases refused
  | cons stage rest ih =>
      rcases layersOf_cons_cases known stage with ⟨e', unnamed, fails⟩ | ⟨build, found⟩
      · cases (fails rest).symm.trans refused
        rcases unnamed with rfl | rfl <;> exact ordinary _ trivial
      · rw [layersOf_cons found] at refused
        cases beneath : layersOf known rest with
        | error e' =>
            rw [beneath] at refused
            cases refused
            exact ih beneath
        | ok below =>
            rw [beneath] at refused
            cases built : build stage.args with
            | error e' =>
                simp only [Except.bind, built, Except.map] at refused
                cases refused
                exact within _ _ found _ _ built
            | ok l =>
                simp only [Except.bind, built, Except.map] at refused
                cases refused

theorem keeps_serve (ordinary : ∀ e, IsOrdinary e → kind e) {handler : Handler ω}
    (within : handler.FailsWithin kind) (layers : List Layer) (args : Option Bytes) (v : Value ω) :
    (serve handler args layers v).Keeps (fun _ => True) (Within kind) := by
  have breaks (e : IoError) : Within kind (.error (.io e)) := within_error (ordinary _ trivial)
  unfold serve
  cases handler with
  | formatter format => exact Stack.keeps_pass layers within_ok breaks (within v args)
  | encoder build =>
      simp only
      cases built : build args with
      | error e => exact within_error (within args e built)
      | ok l => exact Stack.keeps_pass _ within_ok breaks (v.keeps_writeRaw ordinary)

/-- To the failures of its handlers a directive adds no other than ordinary ones. -/
theorem keeps_perform (ordinary : ∀ e, IsOrdinary e → kind e) (within : known.FailsWithin kind)
    (d : Directive) (p : Progress ω) :
    ((perform known d p).map Prod.fst).Keeps (fun _ => True) (Within kind) := by
  cases d with
  | percent =>
      rw [perform, Writing.map_sendEach]
      exact Writing.keeps_sendEach_within ordinary within_ok _
  | chain head encoders =>
      rw [map_fst_perform, ready]
      cases found : known.resolve head.name with
      | none => exact within_error (ordinary _ trivial)
      | some handler =>
          simp only
          cases built : layersOf known encoders with
          | error e => exact within_error (layersOf_within ordinary within built)
          | ok layers => exact keeps_serve ordinary (within _ _ found) layers _ _

/-- The first failure among some directives is one of their handlers, or an ordinary one. -/
theorem within_firstFailure? (ordinary : ∀ e, IsOrdinary e → kind e)
    (within : known.FailsWithin kind) {directives : List Directive} {args : List (Value ω)}
    {e : Failure} (fails : firstFailure? known directives args = some e) : kind e := by
  induction directives generalizing args with
  | nil => cases fails
  | cons d rest ih =>
      have ends := (keeps_perform ordinary within d (.start args)).of_map.smooth_ends
      rw [firstFailure?, evaluateDirective] at fails
      generalize (perform known d (.start args)).smooth = done at ends fails
      obtain ⟨⟨result, q⟩, sent⟩ := done
      cases result with
      | error e' =>
          cases fails
          exact ends e rfl
      | ok => exact ih fails

end Expander
end LayeredTemplate
