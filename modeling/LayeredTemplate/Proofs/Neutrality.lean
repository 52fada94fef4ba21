import LayeredTemplate.Gallery
import LayeredTemplate.Proofs.Layering
import LayeredTemplate.Proofs.Registration
import LayeredTemplate.Setup
import Mathlib.Control.Monad.Basic

/-! The encoder that changes nothing is neutral: a stage of it, wherever it stands in a directive,
changes no call that the sink sees and no result. At the head it lets an encoder behind it do what
that encoder would do at the head itself. -/
namespace LayeredTemplate

/-! ## The encoder is always there -/

namespace Setup

variable {ω : Type} {entries : List (String × Handler ω)} {s : Setup ω}

theorem resolve_addEach {t : Setup ω} {name : String} {handler : Handler ω}
    (found : t.vocabulary.resolve name = some handler) (built : t.addEach entries = .ok s) :
    s.vocabulary.resolve name = some handler := by
  induction entries generalizing t with
  | nil =>
      cases built
      exact found
  | cons entry rest ih =>
      rw [addEach, add] at built
      cases grown : t.vocabulary.add entry.1 entry.2 with
      | error e =>
          rw [grown] at built
          cases built
      | ok vocabulary =>
          rw [grown] at built
          exact ih (Vocabulary.resolve_add found grown) built

/-- Whatever is added in setting up an expander, the encoder keeps its name. -/
theorem resolve_raw (built : start.addEach entries = .ok s) :
    s.vocabulary.resolve "RAW" = some Vocabulary.raw.2 := resolve_addEach rfl built

end Setup

namespace Stack

/-- Two ways to build some layers: both fail alike, or one of them has a layer more that changes
nothing. -/
inductive Inserted : Except Failure (List Layer) → Except Failure (List Layer) → Prop
  | refused (e : Failure) : Inserted (.error e) (.error e)
  | inserted (above below : List Layer) :
      Inserted (.ok (above ++ .passthrough :: below)) (.ok (above ++ below))

theorem Inserted.cons {built expected : Except Failure (List Layer)} (h : Inserted built expected)
    (top : Except Failure Layer) :
    Inserted (built.bind fun below => top.map (· :: below))
      (expected.bind fun below => top.map (· :: below)) := by
  cases h with
  | refused e => exact .refused e
  | inserted above below =>
      cases top with
      | error e => exact .refused e
      | ok l => exact .inserted (l :: above) below

end Stack

namespace Expander

open Stack (Inserted)

variable {ω : Type} {known : Vocabulary ω}

/-! ## The layer more -/

theorem layersOf_cons_raw (passes : known.resolve "RAW" = some Vocabulary.raw.2)
    (args : Option Bytes) (rest : List Stage) :
    layersOf known (⟨"RAW", args⟩ :: rest) = (layersOf known rest).map (.passthrough :: ·) := by
  rw [layersOf_cons passes]
  cases layersOf known rest <;> rfl

theorem inserted_layersOf (passes : known.resolve "RAW" = some Vocabulary.raw.2)
    (before after : List Stage) (args : Option Bytes) :
    Inserted (layersOf known (before ++ ⟨"RAW", args⟩ :: after))
      (layersOf known (before ++ after)) := by
  induction before with
  | nil =>
      rw [List.nil_append, List.nil_append, layersOf_cons_raw passes]
      cases layersOf known after with
      | error e => exact .refused e
      | ok below => exact .inserted [] below
  | cons stage before ih =>
      rw [List.cons_append, List.cons_append]
      rcases layersOf_cons_cases known stage with ⟨e, -, refused⟩ | ⟨build, found⟩
      · rw [refused, refused]
        exact .refused e
      · rw [layersOf_cons found, layersOf_cons found]
        exact ih.cons (build stage.args)

theorem serve_insert (handler : Handler ω) (args : Option Bytes) (above below : List Layer)
    (v : Value ω) :
    serve handler args (above ++ .passthrough :: below) v =
      serve handler args (above ++ below) v := by
  unfold serve
  cases handler with
  | formatter format => exact Stack.pass_insert_passthrough above below (format v args)
  | encoder build =>
      simp only
      cases build args with
      | error e => rfl
      | ok l => exact Stack.pass_insert_passthrough (l :: above) below v.writeRaw

/-! ## Directives -/

theorem map_unreported_insert (passes : known.resolve "RAW" = some Vocabulary.raw.2)
    (head : Stage) (before after : List Stage) (args : Option Bytes) (p : Progress ω) :
    (perform known (.chain head (before ++ ⟨"RAW", args⟩ :: after)) p).map
        (Prod.map id Progress.unreported) =
      (perform known (.chain head (before ++ after)) p).map (Prod.map id Progress.unreported) := by
  have layers := inserted_layersOf passes before after args
  rw [map_unreported_perform, map_unreported_perform, ready, ready]
  cases known.resolve head.name with
  | none => rfl
  | some handler =>
      simp only
      generalize layersOf known (before ++ ⟨"RAW", args⟩ :: after) = built at layers ⊢
      generalize layersOf known (before ++ after) = expected at layers ⊢
      cases layers with
      | refused e => rfl
      | inserted above below => simp only [Except.map, serve_insert]

/-- What an encoder at the head does with an argument it also does behind the neutral stage. -/
theorem map_unreported_behind (passes : known.resolve "RAW" = some Vocabulary.raw.2)
    (stage : Stage) {build : Encoder} (found : known.resolve stage.name = some (.encoder build))
    {l : Layer} (built : build stage.args = .ok l) (args : Option Bytes) (rest : List Stage)
    (p : Progress ω) :
    (perform known (.chain ⟨"RAW", args⟩ (stage :: rest)) p).map
        (Prod.map id Progress.unreported) =
      (perform known (.chain stage rest) p).map (Prod.map id Progress.unreported) := by
  have neutral (below : List Layer) (v : Value ω) :
      Stack.pass (.passthrough :: l :: below) v.writeRaw = Stack.pass (l :: below) v.writeRaw :=
    Stack.pass_insert_passthrough [] (l :: below) v.writeRaw
  rw [map_unreported_perform, map_unreported_perform, ready, ready, passes, found]
  simp only [layersOf_cons found, built]
  cases layersOf known rest with
  | error e => rfl
  | ok below =>
      simp only [Except.bind, Except.map, serve, built, Vocabulary.raw, neutral]

/-- If the encoder refuses its arguments, both directives fail with the same and write nothing. -/
theorem map_fst_behind (passes : known.resolve "RAW" = some Vocabulary.raw.2) (stage : Stage)
    {build : Encoder} (found : known.resolve stage.name = some (.encoder build)) {e : Failure}
    (refused : build stage.args = .error e) (args : Option Bytes) (rest : List Stage)
    (p : Progress ω) :
    (perform known (.chain ⟨"RAW", args⟩ (stage :: rest)) p).map Prod.fst =
      (perform known (.chain stage rest) p).map Prod.fst := by
  rw [map_fst_perform, map_fst_perform, ready, ready, passes, found]
  simp only [layersOf_cons found, refused]
  cases layersOf known rest with
  | error e => rfl
  | ok below => simp only [Except.bind, Except.map, serve, refused]

/-- A neutral stage behind any stage of a directive changes neither the calls that the sink sees nor
the result, and at the head it leaves to an encoder behind it what that would do at the head. Only
where this encoder refuses its arguments may another number of arguments be drawn. -/
theorem run_perform_neutral (passes : known.resolve "RAW" = some Vocabulary.raw.2)
    (p : Progress ω) (sink : Sink) (r : Sink.Record) :
    (∀ head before after args,
      let ran := (perform known (.chain head (before ++ ⟨"RAW", args⟩ :: after)) p).run sink r
      let expected := (perform known (.chain head (before ++ after)) p).run sink r
      ran.1.1 = expected.1.1 ∧ ran.2 = expected.2 ∧
        ran.1.2.unreported = expected.1.2.unreported) ∧
    ∀ name build, known.resolve name = some (.encoder build) → ∀ args rawArgs rest,
      let ran := (perform known (.chain ⟨"RAW", rawArgs⟩ (⟨name, args⟩ :: rest)) p).run sink r
      let expected := (perform known (.chain ⟨name, args⟩ rest) p).run sink r
      ran.1.1 = expected.1.1 ∧ ran.2 = expected.2 ∧
        ((∃ l, build args = .ok l) → ran.1.2.unreported = expected.1.2.unreported) := by
  constructor
  · intro head before after args
    obtain ⟨ends, record⟩ := Writing.run_eq_of_map_eq
      (map_unreported_insert passes head before after args p) sink r
    obtain ⟨result, drawn⟩ := Prod.mk.inj ends
    exact ⟨result, record, drawn⟩
  · intro name build found args rawArgs rest
    cases built : build args with
    | error e =>
        obtain ⟨result, record⟩ := Writing.run_eq_of_map_eq
          (map_fst_behind passes ⟨name, args⟩ found built rawArgs rest p) sink r
        refine ⟨result, record, ?_⟩
        rintro ⟨l, other⟩
        cases other
    | ok l =>
        obtain ⟨ends, record⟩ := Writing.run_eq_of_map_eq
          (map_unreported_behind passes ⟨name, args⟩ found built rawArgs rest p) sink r
        obtain ⟨result, drawn⟩ := Prod.mk.inj ends
        exact ⟨result, record, fun _ => drawn⟩

/-- The formatter makes a single write, the encoder holds it back, and the sink is full while that
is finalized. -/
theorem run_perform_neutral_held :
    let known : Vocabulary Unit := (Vocabulary.empty.addEach (Vocabulary.raw ::
      [("hold", .encoder Gallery.Encoders.hold), ("once", .formatter Gallery.Formatters.once)])).2
    let gone : IoError := ⟨.brokenPipe, "gone"⟩
    let limits : Sink.Limits := ⟨[1], [], some 2, some 5, false, false, gone, by decide⟩
    let p : Progress Unit := .start [.text "abcd"]
    let hold : Stage := ⟨"hold", some (Bytes.ofText "x")⟩
    let inserted := (perform known (.chain ⟨"once", none⟩ ([hold] ++ [⟨"RAW", none⟩])) p).run
      limits.toSink .empty
    let behind := (perform known (.chain ⟨"RAW", some []⟩ [hold]) p).run limits.toSink .empty
    known.resolve "RAW" = some Vocabulary.raw.2 ∧
      known.resolve hold.name = some (.encoder Gallery.Encoders.hold) ∧
      (inserted.1.1 = .error (.io gone) ∧ inserted.1.2.drawn = 1 ∧
        inserted.2.portions = ["x", "[", "ab", "c"].map Bytes.ofText) ∧
      behind.1.1 = .error (.io gone) ∧ behind.1.2.drawn = 1 ∧
        behind.2.portions = ["x", "[", "ab", "c"].map Bytes.ofText := by
  intro known gone limits p hold
  have passes : known.resolve "RAW" = some Vocabulary.raw.2 := rfl
  have found : known.resolve hold.name = some (.encoder Gallery.Encoders.hold) := rfl
  obtain ⟨insert, behind⟩ := run_perform_neutral passes p limits.toSink .empty
  refine ⟨passes, found, ?_, ?_⟩
  · obtain ⟨result, record, progress⟩ := insert ⟨"once", none⟩ [hold] [] none
    refine ⟨?_, ?_, ?_⟩
    · rw [result]
      decide +kernel
    · rw [← Progress.drawn_unreported, progress, Progress.drawn_unreported]
      decide +kernel
    · rw [record]
      decide +kernel
  · obtain ⟨result, record, progress⟩ := behind "hold" _ found hold.args (some []) []
    have progress := progress ⟨_, rfl⟩
    refine ⟨?_, ?_, ?_⟩
    · rw [result]
      decide +kernel
    · rw [← Progress.drawn_unreported, progress, Progress.drawn_unreported]
      decide +kernel
    · rw [record]
      decide +kernel

end Expander
end LayeredTemplate
