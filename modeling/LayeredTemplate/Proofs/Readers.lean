import LayeredTemplate.Proofs.Chains
import LayeredTemplate.Proofs.Scanning

/-! A reader counts for the bytes that it gives. Its reads come to the top of a stack as so many
writes, but none of the library's layers cares how what it receives is cut, not even before it is
finalized. So a reader that ends does what its bytes would do, and one that fails leaves what they
come to as long as nothing is finalized. -/
namespace LayeredTemplate

/-! ## Reads -/

theorem Bytes.flatten_cut {limit : Nat} (positive : limit ≠ 0) (x : Bytes) :
    (cut limit x).flatten = x := by
  fun_induction cut limit x with
  | case1 x stopped =>
      obtain rfl := stopped.resolve_right positive
      rfl
  | case2 x more ih => rw [List.flatten_cons, ih, List.take_append_drop]

namespace Source

/-- Events without a failure are read, and then those after them. -/
theorem readsFrom_append {events : List Event} (clean : Event.Clean events) (tail : List Event)
    {limit : Nat} (positive : limit ≠ 0) :
    ∃ portions, portions.flatten = Event.bytes events ∧
      readsFrom limit (events ++ tail) =
        (portions ++ (readsFrom limit tail).1, (readsFrom limit tail).2) := by
  induction events with
  | nil => exact ⟨[], rfl, rfl⟩
  | cons event events ih =>
      obtain ⟨first, others⟩ := List.forall_mem_cons.1 clean
      obtain ⟨portions, bytes, read⟩ := ih others
      rcases first with rfl | ⟨b, nonempty, rfl⟩
      · exact ⟨portions, bytes, read⟩
      · refine ⟨Bytes.cut limit b ++ portions, ?_, ?_⟩
        · rw [List.flatten_append, Bytes.flatten_cut positive, bytes]
          rfl
        · simp only [List.cons_append, readsFrom, if_neg nonempty, read, List.append_assoc]

/-- What the end or a failure gives to a reader. -/
theorem Event.Ends.readsFrom {tail : List Event} {stop : Option IoError}
    (ends : Event.Ends tail stop) (limit : Nat) :
    Source.readsFrom limit tail = ([], stop.elim (.ok ()) .error) := by
  cases stop with
  | none =>
      rw [ends]
      rfl
  | some e =>
      obtain ⟨later, rfl⟩ := ends
      rfl

/-- All that comes before the end or a failure is read, and then that is met. -/
theorem reads_of_begins {s : Source} {x : Bytes} {tail : List Event} (h : s.Begins x tail)
    {stop : Option IoError} (ends : Event.Ends tail stop) {limit : Nat} (positive : limit ≠ 0) :
    ∃ portions, portions.flatten = x ∧
      s.reads limit = (portions, stop.elim (.ok ()) .error) := by
  obtain ⟨events, rest, bytes, clean⟩ := h
  obtain ⟨portions, later, read⟩ := readsFrom_append clean tail positive
  rw [← rest, ends.readsFrom, List.append_nil] at read
  refine ⟨Bytes.cut limit s.unread ++ portions, ?_, ?_⟩
  · rw [List.flatten_append, Bytes.flatten_cut positive, later, bytes]
  · simp only [reads, read]

end Source

/-- A reader is written in portions that come to its bytes. -/
theorem Value.smooth_writeRaw_reader {ω : Type} {s : Source} {x : Bytes}
    {tail : List Source.Event} (h : s.Begins x tail) {stop : Option IoError}
    (ends : Source.Event.Ends tail stop) :
    ∃ portions, portions.flatten = x ∧
      (reader s : Value ω).writeRaw.smooth =
        (stop.elim (.ok ()) (fun e => .error (.io e)), portions) := by
  have positive : portion ≠ 0 := by decide
  obtain ⟨portions, bytes, read⟩ := Source.reads_of_begins h ends positive
  refine ⟨portions, bytes, ?_⟩
  simp only [writeRaw, read, Writing.smooth_sendEach, Writing.smooth, List.append_nil]
  cases stop <;> rfl

/-! ## Layers that do not care how they are written to -/

/-- What the layer writes on before it is finalized does not depend on how it is cut. -/
def Layer.Seamless (l : Layer) : Prop :=
  ∀ x y : List Bytes, x.flatten = y.flatten →
    (l.feed l.start x).2.flatten = (l.feed l.start y).2.flatten

theorem Layer.seamless_of_flatten_feed {l : Layer} {f : Bytes → Bytes}
    (feeds : ∀ received, (l.feed l.start received).2.flatten = f received.flatten) :
    l.Seamless := by
  intro x y same
  rw [feeds, feeds, same]

theorem Base64.seamless_layer (v : Variant) : (layer v).Seamless := by
  have short : ([] : Bytes).length < 3 := by decide
  have feeds (received : List Bytes) :
      ((layer v).feed (layer v).start received).2.flatten = encode v (blocks received.flatten) :=
    (feed_layer v received short).2
  exact Layer.seamless_of_flatten_feed (f := fun x => encode v (blocks x)) feeds

theorem CharacterData.seamless_layer (keepLineBreaks : Bool) :
    (layer keepLineBreaks).Seamless := by
  apply Layer.seamless_of_flatten_feed
  exact Layer.flatten_feed_stateless rfl (Substitution.apply_append _)
    (Substitution.flatten_fragments _)

theorem Layer.seamless_passthrough : passthrough.Seamless := by
  apply seamless_of_flatten_feed
  exact flatten_feed_stateless (f := id) rfl (fun _ _ => rfl) (fun x => List.append_nil x)

theorem Stack.flatten_feed_congr {layers : List Layer} (seamless : ∀ l ∈ layers, l.Seamless)
    {x y : List Bytes} (same : x.flatten = y.flatten) :
    (feed layers (fresh layers) x).2.flatten = (feed layers (fresh layers) y).2.flatten := by
  induction layers generalizing x y with
  | nil => exact same
  | cons l below ih =>
      obtain ⟨top, rest⟩ := List.forall_mem_cons.1 seamless
      exact ih rest (top x y same)

theorem Stage.Bundled.seamless {ω : Type} {known : Vocabulary ω} {stage : Stage}
    (h : stage.Bundled known) {build : Encoder} {l : Layer}
    (found : known.resolve stage.name = some (.encoder build))
    (built : build stage.args = .ok l) : l.Seamless := by
  obtain ⟨handler, listed, resolved⟩ := h
  cases resolved.symm.trans found
  simp only [Vocabulary.raw, Vocabulary.bundled, List.mem_cons, Prod.mk.injEq, List.not_mem_nil,
    or_false] at listed
  rcases listed with ⟨-, raw⟩ | ⟨-, base64⟩ | ⟨-, json⟩ | ⟨-, cdata⟩
  · cases raw
    cases built
    exact Layer.seamless_passthrough
  · cases base64
    unfold Base64.encoder at built
    split at built
    · cases built
      exact Base64.seamless_layer _
    · cases built
  · cases json
  · cases cdata
    unfold CharacterData.encoder at built
    split at built
    · cases built
      exact CharacterData.seamless_layer false
    · split at built
      · cases built
        exact CharacterData.seamless_layer true
      · cases built

namespace Expander

variable {ω : Type} {known : Vocabulary ω}

theorem seamless_layersOf {encoders : List Stage}
    (bundled : ∀ stage ∈ encoders, stage.Bundled known) {layers : List Layer}
    (built : layersOf known encoders = .ok layers) : ∀ l ∈ layers, l.Seamless := by
  induction encoders generalizing layers with
  | nil =>
      cases built
      intro l none_there
      cases none_there
  | cons stage rest ih =>
      obtain ⟨first, others⟩ := List.forall_mem_cons.1 bundled
      obtain ⟨build, l, below, found, own, beneath, rfl⟩ := layersOf_cons_eq_ok built
      exact List.forall_mem_cons.2 ⟨first.seamless found own, ih others beneath⟩

end Expander

/-! ## What is reported of finalizing -/

/-- One entry for each layer that can be finalized, from the top down. -/
def Stack.visits (depth : Nat) : List Layer → List Journal.Entry
  | [] => []
  | l :: below =>
      match l.finalize with
      | none => visits depth below
      | some _ => .finalizing (below.length + 1) depth :: visits depth below

theorem Stack.smooth_finalize_visits {layers : List Layer} (steady : ∀ l ∈ layers, l.Steady)
    (depth : Nat) (states : States layers) :
    (finalize depth layers states).smooth.1 = (.ok (), visits depth layers) := by
  induction layers with
  | nil => rfl
  | cons l below ih =>
      obtain ⟨s, states⟩ := states
      obtain ⟨top, rest⟩ := List.forall_mem_cons.1 steady
      simp only [finalize, visits]
      cases final : l.finalize with
      | none => exact ih rest states
      | some f =>
          have succeeds := top.finalize_succeeds f final s
          simp only [Writing.smooth_bind, smooth_carry rest]
          generalize (f s).smooth = closed at succeeds ⊢
          obtain ⟨⟨answer, s'⟩, sent⟩ := closed
          cases succeeds
          simp only [Writing.smooth_map, ih rest]

/-! ## Directives with an encoder at the head -/

namespace Stack

variable {layers : List Layer}

/-- What a sink that takes everything holds once a writing has gone through fresh layers. -/
theorem held_run_accepting (steady : ∀ l ∈ layers, l.Steady) {α : Type} (w : Writing α)
    (r : Sink.Record) :
    (Stack.run ⟨layers, fresh layers⟩ .accepting w r).2.2.held =
      r.held ++ (feed layers (fresh layers) w.smooth.2).2.flatten := by
  have held := (Writing.run_accepting (carry layers w (fresh layers)) r).2
  rwa [Writing.delivery, smooth_carry steady] at held

/-- What layers write before they are finalized, their whole output begins with. -/
theorem Computes.feed_prefix {f : Bytes → Bytes} (computes : Computes layers f)
    (received : List Bytes) :
    (feed layers (fresh layers) received).2.flatten <+: f received.flatten := by
  obtain ⟨-, arrived⟩ := smooth_finalize computes.steady layers.length (fresh layers) received
  rw [stagesFrom_fresh] at arrived
  rw [← computes.flatten_stages, ← arrived, List.flatten_append]
  apply List.prefix_append

end Stack

namespace Expander

variable {ω : Type} {known : Vocabulary ω} {layers : List Layer}
  {head : Writing (Except Failure Unit)}

/-- A head that succeeds has its layers finalized, and only the bytes matter that it sent. -/
theorem run_through_of_ok {f : Bytes → Bytes} (computes : Stack.Computes layers f)
    {sent : List Bytes} (succeeds : head.smooth = (.ok (), sent)) (p : Progress ω)
    (r : Sink.Record) :
    let (done, record) := (through layers head p).run .accepting r
    done = (.ok (), p.report (Stack.visits layers.length layers)) ∧
      record.held = r.held ++ f sent.flatten := by
  obtain ⟨-, arrived⟩ :=
    Stack.smooth_finalize computes.steady layers.length (Stack.fresh layers) sent
  rw [Stack.stagesFrom_fresh] at arrived
  have delivers : (through layers head p).delivery =
      ((.ok (), p.report (Stack.visits layers.length layers)), f sent.flatten) := by
    rw [← computes.flatten_stages, ← arrived]
    simp only [Writing.delivery, through, Writing.smooth_bind, Stack.smooth_carry computes.steady,
      succeeds, Writing.smooth_map, Stack.smooth_finalize_visits computes.steady]
    rfl
  have run := Writing.run_accepting (through layers head p) r
  rwa [delivers] at run

/-- A head that fails leaves the sink as it is, and its layers are not finalized. -/
theorem run_through_of_error (steady : ∀ l ∈ layers, l.Steady) {e : Failure}
    (fails : head.smooth.1 = .error e) (p : Progress ω) (r : Sink.Record) :
    (through layers head p).run .accepting r =
      ((.error e, p),
        (Stack.run ⟨layers, Stack.fresh layers⟩ .accepting head r).2.2) := by
  have carried := (Writing.run_accepting (Stack.carry layers head (Stack.fresh layers)) r).1
  rw [Writing.delivery, Stack.smooth_carry steady, fails] at carried
  simp only [through, Writing.run_bind, Stack.run, carried]
  rfl

/-- An encoder at the head has the value written into its layer. -/
theorem perform_encoders {head : Stage} {encoders : List Stage} {layers : List Layer}
    (built : layersOf known (head :: encoders) = .ok layers) (p : Progress ω) :
    perform known (.chain head encoders) p =
      through layers p.draw.1.writeRaw
        (p.draw.2.report [.directive head.name .encoder encoders.length]) := by
  obtain ⟨build, l, below, found, own, beneath, rfl⟩ := layersOf_cons_eq_ok built
  simp only [perform, plan, found]
  unfold layersOf at beneath
  cases planned : planEncoders known encoders with
  | error e =>
      rw [planned] at beneath
      cases beneath
  | ok plans =>
      rw [planned] at beneath
      change buildLayers plans = .ok below at beneath
      simp only [beneath, Progress.draw_report, performHead, own]
      rfl

/-- Through encoders of the library a reader has the effect of the bytes that it gives. If it ends,
the directive comes to the same output and the same result. If it fails, the failure is the result
and no layer is finalized: the sink is left as it is when the reader is written into the layers, and
holds what they write for the bytes before they are finalized, which the whole output begins with.
-/
theorem run_reader_eq_bytes (known : Vocabulary ω) {head : Stage} {encoders : List Stage}
    (bundled : ∀ stage ∈ head :: encoders, stage.Bundled known) {f : Bytes → Bytes}
    (accepted : Stage.encodings? (head :: encoders) = some f) (d : Bytes)
    (waiting : List (Value ω)) (drawn : Nat) (journal : List Journal.Entry) (r : Sink.Record) :
    let begun : Progress ω :=
      ⟨waiting, drawn + 1, .directive head.name .encoder encoders.length :: journal⟩
    let ran (v : Value ω) :=
      (perform known (.chain head encoders) ⟨v :: waiting, drawn, journal⟩).run .accepting r
    ∃ layers, layersOf known (head :: encoders) = .ok layers ∧
      let written (v : Value ω) :=
        (Stack.run ⟨layers, Stack.fresh layers⟩ .accepting v.writeRaw r).2.2
      (ran (.bytes d)).1 = (.ok (), begun.report (Stack.visits layers.length layers)) ∧
      (ran (.bytes d)).2.held = r.held ++ f d ∧
      (written (.bytes d)).held <+: (ran (.bytes d)).2.held ∧
      (∀ s : Source, s.Delivers d → (ran (.reader s)).1 = (ran (.bytes d)).1 ∧
        (ran (.reader s)).2.held = (ran (.bytes d)).2.held) ∧
      ∀ (s : Source) (e : IoError), s.FailsAfter d e →
        ran (.reader s) = ((.error (.io e), begun), written (.reader s)) ∧
        (ran (.reader s)).2.held = (written (.bytes d)).held := by
  intro begun ran
  have realizes := realizes_layersOf bundled
  rw [accepted] at realizes
  generalize planned : layersOf known (head :: encoders) = stack at realizes
  cases realizes with
  | @built layers _ computes =>
      have performs (v : Value ω) :
          ran v = (through layers v.writeRaw begun).run .accepting r :=
        congrArg (fun w => w.run .accepting r) (perform_encoders planned _)
      have succeeds {v : Value ω} {sent : List Bytes} (bytes : sent.flatten = d)
          (smooth : v.writeRaw.smooth = (.ok (), sent)) :
          (ran v).1 = (.ok (), begun.report (Stack.visits layers.length layers)) ∧
            (ran v).2.held = r.held ++ f d := by
        rw [performs, ← bytes]
        exact run_through_of_ok computes smooth begun r
      have plain : (Value.bytes d : Value ω).writeRaw.smooth = (.ok (), [d]) := rfl
      have whole : [d].flatten = d := List.append_nil d
      obtain ⟨result, held⟩ := succeeds whole plain
      refine ⟨layers, rfl, result, held, ?_, ?_, ?_⟩
      · have front := computes.feed_prefix [d]
        rw [whole] at front
        rw [held, Stack.held_run_accepting computes.steady, plain]
        exact (List.prefix_append_right_inj _).2 front
      · intro s delivers
        have ends : Source.Event.Ends [] none := rfl
        obtain ⟨sent, bytes, smooth⟩ :=
          Value.smooth_writeRaw_reader (ω := ω) (Source.begins_iff_delivers.2 delivers) ends
        obtain ⟨result', held'⟩ := succeeds bytes smooth
        exact ⟨result'.trans result.symm, held'.trans held.symm⟩
      · intro s e fails
        obtain ⟨-, later, begins⟩ := fails
        have ends : Source.Event.Ends (.failed e :: later) (some e) := ⟨later, rfl⟩
        obtain ⟨sent, bytes, smooth⟩ := Value.smooth_writeRaw_reader (ω := ω) begins ends
        have stopped := run_through_of_error computes.steady (congrArg Prod.fst smooth) begun r
        rw [← performs] at stopped
        refine ⟨stopped, ?_⟩
        -- the reads cut the bytes elsewhere than one write does, which no layer can tell
        have same := Stack.flatten_feed_congr (seamless_layersOf bundled planned)
          (bytes.trans whole.symm)
        rw [stopped, Stack.held_run_accepting computes.steady,
          Stack.held_run_accepting computes.steady, smooth, plain]
        exact congrArg (r.held ++ ·) same

/-- A reader that ends, and one that fails after the same two chunks. By then the upper of the two
base64 layers holds one byte back, and the lower one two. -/
theorem run_reader_eq_bytes_cut_apart :
    let head : Stage := ⟨"cdata", none⟩
    let encoders : List Stage := [⟨"base64", some (Bytes.ofText "url-nopad")⟩, ⟨"base64", none⟩]
    let known : Vocabulary Unit := .withDefaults
    let text := Bytes.ofText "a<bc"
    let gone : IoError := ⟨.brokenPipe, "gone"⟩
    let chunks : List Source.Event :=
      [.chunk (Bytes.ofText "a<"), .interrupted, .chunk (Bytes.ofText "bc")]
    let complete := Source.ofEvents chunks
    let broken := Source.ofEvents (chunks ++ [.failed gone])
    let ran (v : Value Unit) :=
      (perform known (.chain head encoders) (.start [v, .notGiven])).run .accepting .empty
    (∀ stage ∈ head :: encoders, stage.Bundled known) ∧
      (Stage.encodings? (head :: encoders)).isSome = true ∧
      complete.Delivers text ∧ broken.FailsAfter text gone ∧
      (ran (.reader complete)).1.1 = .ok () ∧
      (ran (.reader complete)).2.held = Bytes.ofText "WVNac2REdGlZdw==" ∧
      (ran (.reader broken)).1.1 = .error (.io gone) ∧
      (ran (.reader broken)).2.held = Bytes.ofText "WVNac2RE" := by
  intro head encoders known text gone chunks complete broken ran
  have bundled : ∀ stage ∈ head :: encoders, stage.Bundled known := by
    simp only [head, encoders, List.forall_mem_cons]
    refine ⟨⟨_, ?_, rfl⟩, ⟨_, ?_, rfl⟩, ⟨_, ?_, rfl⟩, by simp⟩ <;>
      simp [Vocabulary.raw, Vocabulary.bundled]
  have accepted : (Stage.encodings? (head :: encoders)).isSome = true := by decide +kernel
  have delivers : complete.Delivers text := by decide +kernel
  have fails : broken.FailsAfter text gone := by
    refine ⟨by decide, [], chunks, rfl, ?_, ?_⟩
    · decide +kernel
    · decide +kernel
  have all : (ran (.bytes text)).2.held = Bytes.ofText "WVNac2REdGlZdw==" := by decide +kernel
  have some_held : (ran (.reader broken)).2.held = Bytes.ofText "WVNac2RE" := by decide +kernel
  obtain ⟨f, encodes⟩ := Option.isSome_iff_exists.1 accepted
  obtain ⟨layers, -, result, -, -, ends, stops⟩ :=
    run_reader_eq_bytes known bundled encodes text [.notGiven] 0 [] .empty
  obtain ⟨same, held⟩ := ends complete delivers
  obtain ⟨stopped, -⟩ := stops broken gone fails
  refine ⟨bundled, accepted, delivers, fails, ?_, held.trans all, ?_, some_held⟩
  · exact congrArg Prod.fst (same.trans result)
  · exact congrArg (fun done => done.1.1) stopped

end Expander
end LayeredTemplate
