import LayeredTemplate.Expander
import LayeredTemplate.Proofs.Encoding

/-! Chains of the handlers that come with the library, as functions: the output of a directive is
what its head makes of the argument, with the encoders applied to it from left to right. -/
namespace LayeredTemplate

/-- As long as nothing goes wrong, the head writes these bytes, and it fails where there are none.
-/
def Writing.Opens (head : Writing (Except Failure Unit)) : Option Bytes → Prop
  | some x => head.delivery = (.ok (), x)
  | none => ∃ e, head.smooth.1 = .error e

/-! ## What stages stand for -/

namespace Value

variable {ω : Type}

/-- All the bytes that a value has of its own. A reader that fails has none. -/
def content? : Value ω → Option Bytes
  | .text s => some (Bytes.ofText s)
  | .bytes b => some b
  | .reader source =>
      let (portions, result) := source.reads portion
      result.toOption.map fun _ => portions.flatten
  | _ => none

theorem opens_writeRaw (v : Value ω) : v.writeRaw.Opens v.content? := by
  have sent (fragments : List Bytes) (result : Except IoError Unit) :
      (Writing.sendEach (fun e => Except.error (Failure.io e)) (.done (result.mapError .io))
        fragments).delivery = (result.mapError .io, fragments.flatten) := by
    rw [Writing.delivery, Writing.smooth_sendEach, Writing.smooth, List.append_nil]
  cases v with
  | text s => exact (sent [_] (.ok ())).trans (congrArg _ (List.append_nil _))
  | bytes b => exact (sent [_] (.ok ())).trans (congrArg _ (List.append_nil _))
  | reader source =>
      simp only [content?, writeRaw]
      obtain ⟨portions, result⟩ := source.reads portion
      cases result with
      | ok => exact sent portions (.ok ())
      | error e => exact ⟨.io e, congrArg Prod.fst (sent portions (.error e))⟩
  | notGiven => exact ⟨_, rfl⟩
  | _ => exact ⟨_, rfl⟩

end Value

namespace Stage

/-- The function that an encoder of the library is, unless it refuses its arguments. -/
def encoding? (stage : Stage) : Option (Bytes → Bytes) :=
  if stage.name = "RAW" then some id
  else if stage.name = "base64" then
    (Base64.Variant.ofArgs stage.args).toOption.map Base64.encode
  else if stage.name = "cdata" then
    if stage.args = none then some (CharacterData.encode false)
    else if stage.args = some (Bytes.ofText "nocrlf") then some (CharacterData.encode true)
    else none
  else none

/-- The encoders after a head as one function: they are applied from left to right. -/
def encodings? : List Stage → Option (Bytes → Bytes)
  | [] => some id
  | stage :: rest => stage.encoding?.bind fun encode => (encodings? rest).map (· ∘ encode)

/-- The stage names a handler of the library, which it still stands for in the vocabulary. -/
def Bundled {ω : Type} (known : Vocabulary ω) (stage : Stage) : Prop :=
  ∃ h, (stage.name, h) ∈ Vocabulary.raw :: Vocabulary.bundled ∧ known.resolve stage.name = some h

end Stage

/-- What is built computes the function, and nothing is built where there is none. -/
inductive Realizes {α : Type _} (computes : α → (Bytes → Bytes) → Prop) :
    Except Failure α → Option (Bytes → Bytes) → Prop
  | built {a : α} {f : Bytes → Bytes} : computes a f → Realizes computes (.ok a) (some f)
  | refused {e : Failure} : Realizes computes (.error e) none

namespace Stage

variable {ω : Type} {known : Vocabulary ω} {stage : Stage}

theorem realizes_base64 (args : Option Bytes) :
    Realizes Layer.Computes (Base64.encoder args)
      ((Base64.Variant.ofArgs args).toOption.map Base64.encode) := by
  unfold Base64.encoder
  cases Base64.Variant.ofArgs args with
  | ok v => exact .built (Base64.computes_layer v)
  | error e => exact .refused

theorem realizes_cdata (args : Option Bytes) :
    Realizes Layer.Computes (CharacterData.encoder args)
      (if args = none then some (CharacterData.encode false)
        else if args = some (Bytes.ofText "nocrlf") then some (CharacterData.encode true)
        else none) := by
  cases args with
  | none => exact .built (CharacterData.computes_layer false)
  | some args =>
      unfold CharacterData.encoder
      by_cases kept : args = Bytes.ofText "nocrlf"
      · simp only [kept, ↓reduceIte, reduceCtorEq]
        exact .built (CharacterData.computes_layer true)
      · simp only [kept, ↓reduceIte, reduceCtorEq, Option.some.injEq]
        exact .refused

/-- Of the library's handlers one is a formatter, and the others realize what they stand for. -/
theorem Bundled.cases (h : stage.Bundled known) :
    (stage.name = "json" ∧ known.resolve stage.name = some (.formatter Json.formatter)) ∨
      stage.name ≠ "json" ∧ ∃ build, known.resolve stage.name = some (.encoder build) ∧
        Realizes Layer.Computes (build stage.args) stage.encoding? := by
  obtain ⟨handler, listed, found⟩ := h
  simp only [Vocabulary.raw, Vocabulary.bundled, List.mem_cons, Prod.mk.injEq, List.not_mem_nil,
    or_false] at listed
  unfold encoding?
  rcases listed with ⟨name, rfl⟩ | ⟨name, rfl⟩ | ⟨name, rfl⟩ | ⟨name, rfl⟩
  · have other : stage.name ≠ "json" := by rw [name]; decide
    refine .inr ⟨other, _, found, ?_⟩
    rw [if_pos name]
    exact .built Layer.computes_passthrough
  · have other : stage.name ≠ "json" := by rw [name]; decide
    refine .inr ⟨other, _, found, ?_⟩
    rw [if_neg (by rw [name]; decide), if_pos name]
    exact realizes_base64 stage.args
  · exact .inl ⟨name, found⟩
  · have other : stage.name ≠ "json" := by rw [name]; decide
    refine .inr ⟨other, _, found, ?_⟩
    rw [if_neg (by rw [name]; decide), if_neg (by rw [name]; decide), if_pos name]
    exact realizes_cdata stage.args

theorem encoding?_json (name : stage.name = "json") : stage.encoding? = none := by
  unfold encoding?
  simp [name]

end Stage

/-! ## The encoders after a head -/

/-- From the top down the layers make `f` of all that they receive, and only fail with the sink. -/
structure Stack.Computes (layers : List Layer) (f : Bytes → Bytes) : Prop where
  steady : ∀ l ∈ layers, l.Steady
  flatten_stages : ∀ received, (stages layers received).flatten = f received.flatten

theorem Stack.Computes.cons {l : Layer} {layers : List Layer} {f g : Bytes → Bytes}
    (top : l.Computes g) (rest : Stack.Computes layers f) :
    Stack.Computes (l :: layers) (f ∘ g) where
  steady := List.forall_mem_cons.2 ⟨top.steady, rest.steady⟩
  flatten_stages received := by
    rw [stages, rest.flatten_stages, top.flatten_alone]
    rfl

theorem realizes_cons {built : Except Failure Layer} {encode : Option (Bytes → Bytes)}
    {below : Except Failure (List Layer)} {f : Option (Bytes → Bytes)}
    (top : Realizes Layer.Computes built encode) (rest : Realizes Stack.Computes below f) :
    Realizes Stack.Computes (below.bind fun below => built.map (· :: below))
      (encode.bind fun g => f.map (· ∘ g)) := by
  cases rest with
  | refused =>
      cases top with
      | refused => exact .refused
      | built _ => exact .refused
  | built below =>
      cases top with
      | refused => exact .refused
      | built computes => exact .built (.cons computes below)

namespace Expander

open Stage (encodings?)

variable {ω : Type} {known : Vocabulary ω}

/-- The layers for some encoders, top first. -/
def layersOf (known : Vocabulary ω) (encoders : List Stage) : Except Failure (List Layer) :=
  (planEncoders known encoders).bind buildLayers

theorem layersOf_cons {stage : Stage} {build : Encoder}
    (found : known.resolve stage.name = some (.encoder build)) (rest : List Stage) :
    layersOf known (stage :: rest) =
      (layersOf known rest).bind fun below => (build stage.args).map (· :: below) := by
  simp only [layersOf, planEncoders, found]
  cases planEncoders known rest with
  | error e => rfl
  | ok more =>
      simp only [Except.bind, buildLayers]
      cases buildLayers more with
      | error e => rfl
      | ok below => cases build stage.args <;> rfl

/-- Layers stand if there are those beneath and the first encoder builds another one. -/
theorem layersOf_cons_eq_ok {stage : Stage} {rest : List Stage} {layers : List Layer}
    (built : layersOf known (stage :: rest) = .ok layers) :
    ∃ build l below, known.resolve stage.name = some (.encoder build) ∧
      build stage.args = .ok l ∧ layersOf known rest = .ok below ∧ layers = l :: below := by
  cases found : known.resolve stage.name with
  | none =>
      simp only [layersOf, planEncoders, found] at built
      cases built
  | some handler =>
      cases handler with
      | formatter format =>
          simp only [layersOf, planEncoders, found] at built
          cases built
      | encoder build =>
          rw [layersOf_cons found] at built
          cases beneath : layersOf known rest with
          | error e =>
              rw [beneath] at built
              cases built
          | ok below =>
              rw [beneath] at built
              cases own : build stage.args with
              | error e =>
                  rw [own] at built
                  cases built
              | ok l =>
                  rw [own] at built
                  cases built
                  exact ⟨build, l, below, rfl, own, rfl, rfl⟩

theorem realizes_layersOf {encoders : List Stage}
    (bundled : ∀ stage ∈ encoders, stage.Bundled known) :
    Realizes Stack.Computes (layersOf known encoders) (encodings? encoders) := by
  induction encoders with
  | nil =>
      apply Realizes.built
      constructor
      · intro l none_there
        cases none_there
      · intro received
        rfl
  | cons stage rest ih =>
      obtain ⟨first, others⟩ := List.forall_mem_cons.1 bundled
      have later := ih others
      rw [encodings?]
      rcases first.cases with ⟨name, found⟩ | ⟨-, build, found, realizes⟩
      · have stopped : layersOf known (stage :: rest) = .error (.notAnEncoder stage.name) := by
          simp only [layersOf, planEncoders, found]
          rfl
        rw [stopped, Stage.encoding?_json name]
        exact .refused
      · rw [layersOf_cons found]
        exact realizes_cons realizes later

/-! ## The head -/

theorem Progress.draw_report (p : Progress ω) (entries : List Journal.Entry) :
    (p.report entries).draw = (p.draw.1, p.draw.2.report entries) := by
  obtain ⟨waiting, drawn, journal⟩ := p
  cases waiting <;> rfl

/-- A chain whose head is known goes by the layers for its encoders. -/
theorem perform_chain {head : Stage} {handler : Handler ω}
    (found : known.resolve head.name = some handler) (encoders : List Stage) (p : Progress ω) :
    ∃ plans entries q, perform known (.chain head encoders) p =
      match layersOf known encoders with
      | .error e => .done (.error e, q)
      | .ok layers =>
          performHead ⟨handler, head.args, plans⟩ layers p.draw.1 (p.draw.2.report entries) := by
  simp only [perform, plan, found, layersOf]
  cases planEncoders known encoders with
  | error e => exact ⟨[], [], p, rfl⟩
  | ok plans =>
      simp only [Except.bind, Progress.draw_report]
      cases buildLayers plans with
      | error e => exact ⟨plans, [], _, rfl⟩
      | ok layers => exact ⟨plans, _, p, rfl⟩

/-- As long as nothing goes wrong, the directive adds these bytes and leaves some arguments waiting,
and it fails where there are none. -/
def Outputs (directive : Writing (Except Failure Unit × Progress ω)) (waiting : List (Value ω)) :
    Option Bytes → Prop
  | some x => directive.delivery.1.1 = .ok () ∧ directive.delivery.1.2.waiting = waiting ∧
      directive.delivery.2 = x
  | none => ∃ e, directive.delivery.1.1 = .error e

/-- The bytes of a head pass through the layers beneath it. -/
theorem outputs_through {layers : List Layer} {f : Bytes → Bytes} (below : Stack.Computes layers f)
    {head : Writing (Except Failure Unit)} {opened : Option Bytes} (opens : head.Opens opened)
    (p : Progress ω) : Outputs (through layers head p) p.waiting (opened.map f) := by
  cases opened with
  | none =>
      obtain ⟨e, fails⟩ := opens
      refine ⟨e, ?_⟩
      simp only [Writing.delivery, through, Writing.smooth_bind, Stack.smooth_carry below.steady,
        fails]
      rfl
  | some x =>
      obtain ⟨answered, arrived⟩ :=
        Stack.smooth_finalize below.steady layers.length (Stack.fresh layers) head.smooth.2
      rw [Stack.stagesFrom_fresh] at arrived
      simp only [Writing.Opens, Writing.delivery, Prod.mk.injEq] at opens
      obtain ⟨succeeds, sent⟩ := opens
      rw [Option.map_some, ← sent, ← below.flatten_stages, ← arrived]
      simp only [Outputs, Writing.delivery, through, Writing.smooth_bind,
        Stack.smooth_carry below.steady, succeeds, Writing.smooth_map, answered]
      exact ⟨rfl, rfl, trivial⟩

theorem opens_formatter (v : Value ω) (args : Option Bytes) :
    (Json.formatter v args).Opens ((Json.Layout.ofArgs args).toOption.bind fun layout =>
      (Json.ofValue? v).map (Json.render layout)) := by
  unfold Json.formatter
  cases Json.Layout.ofArgs args with
  | error e => exact ⟨e, rfl⟩
  | ok layout =>
      cases Json.ofValue? v with
      | none => exact ⟨_, rfl⟩
      | some document =>
          simp only [Except.toOption, Option.bind_some, Option.map_some, Writing.Opens]
          rw [Writing.delivery, Writing.smooth_sendEach, Writing.smooth, List.append_nil]
          rfl

end Expander
end LayeredTemplate
