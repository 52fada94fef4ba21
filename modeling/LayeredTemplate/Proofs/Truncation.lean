import LayeredTemplate.Proofs.Chains
import LayeredTemplate.Proofs.Limited
import LayeredTemplate.Proofs.Stepping

/-! A limited sink only truncates. The first error of a write travels up through the layers, the
head and the expansion, and nothing is written on its way: each of them heeds what it is told from
beneath. So a sink that takes no more than so many bytes holds the front of the full output. -/
namespace LayeredTemplate

namespace Writing

universe u v

variable {α : Type u} {β : Type v} {fails : IoError → α → Prop} {fails' : IoError → β → Prop}

/-- Everything is written as a whole, and the error of the first write that has one ends the writing
at once. Its result then tells the error, in the sense of `fails`. -/
def Heeds (fails : IoError → α → Prop) : Writing α → Prop
  | .done _ => True
  | .writeAll _ next =>
      (next (.ok ())).Heeds fails ∧ ∀ e, ∃ a, next (.error e) = .done a ∧ fails e a
  | .write .. => False
  | .flush _ => False

theorem heeds_done (a : α) : (done a).Heeds fails := trivial

theorem heeds_sendEach {stop : IoError → α} (stops : ∀ e, fails e (stop e)) {next : Writing α}
    (rest : next.Heeds fails) (fragments : List Bytes) :
    (sendEach stop next fragments).Heeds fails := by
  induction fragments with
  | nil => exact rest
  | cons b fragments ih => exact ⟨ih, fun e => ⟨stop e, rfl, stops e⟩⟩

/-- A result that tells an error has to end what comes after, too. -/
theorem Heeds.bind {w : Writing α} (h : w.Heeds fails) {f : α → Writing β}
    (rest : ∀ a, (f a).Heeds fails') (ends : ∀ e a, fails e a → ∃ c, f a = .done c ∧ fails' e c) :
    (w.bind f).Heeds fails' := by
  induction w with
  | done a => exact rest a
  | writeAll b next ih =>
      obtain ⟨goes_on, stops⟩ := h
      refine ⟨ih (.ok ()) goes_on, ?_⟩
      intro e
      obtain ⟨a, stopped, told⟩ := stops e
      obtain ⟨c, ended, told⟩ := ends e a told
      refine ⟨c, ?_, told⟩
      simp only [stopped]
      exact ended
  | write b next ih => exact h.elim
  | flush next ih => exact h.elim

theorem Heeds.map {w : Writing α} (h : w.Heeds fails) {f : α → β}
    (tells : ∀ e a, fails e a → fails' e (f a)) : (w.map f).Heeds fails' := by
  apply h.bind
  · intro a
    trivial
  · intro e a told
    exact ⟨f a, rfl, tells e a told⟩

theorem Heeds.whole_eq {w : Writing α} (h : w.Heeds fails) : w.whole = w := by
  induction w with
  | done a => rfl
  | writeAll b next ih =>
      obtain ⟨goes_on, stops⟩ := h
      rw [whole]
      congr 1
      funext answer
      cases answer with
      | ok => exact ih (.ok ()) goes_on
      | error e =>
          obtain ⟨a, stopped, -⟩ := stops e
          rw [stopped]
          rfl
  | write b next ih => exact h.elim
  | flush next ih => exact h.elim

/-! ## Against a limited sink -/

variable {sink : Sink} {capacity : Nat} {error : IoError}

theorem delivery_writeAll (b : Bytes) (next : Except IoError Unit → Writing α) :
    (writeAll b next).delivery =
      ((next (.ok ())).delivery.1, b ++ (next (.ok ())).delivery.2) := rfl

/-- A sink with room for all that is written makes no difference. -/
theorem Heeds.run_of_fits {w : Writing α} (h : w.Heeds fails)
    (limited : sink.Truncates capacity error) {r : Sink.Record} (unrefused : r.Unrefused)
    (fits : w.delivery.2.length ≤ capacity - r.size) :
    (w.run sink r).1 = w.delivery.1 ∧ (w.run sink r).2.held = r.held ++ w.delivery.2 ∧
      (w.run sink r).2.Unrefused := by
  induction w generalizing r with
  | done a => exact ⟨rfl, (List.append_nil _).symm, unrefused⟩
  | writeAll b next ih =>
      rw [delivery_writeAll, List.length_append] at fits
      obtain ⟨after, written, held, still⟩ :=
        limited.pour_of_fits (Nat.le_refl b.length) unrefused (by omega)
      have size := Sink.Record.size_of_held held
      obtain ⟨result, rest, all⟩ := ih (.ok ()) h.1 still (by omega)
      rw [run, Sink.writeAll, delivery_writeAll]
      simp only [written]
      rw [← List.append_assoc, ← held]
      exact ⟨result, rest, all⟩
  | write b next ih => exact h.elim
  | flush next ih => exact h.elim

/-- A sink without that room gets the front of it, and its error becomes the result. -/
theorem Heeds.run_of_excess {w : Writing α} (h : w.Heeds fails)
    (limited : sink.Truncates capacity error) {r : Sink.Record} (unrefused : r.Unrefused)
    (excess : capacity - r.size < w.delivery.2.length) :
    fails error (w.run sink r).1 ∧
      (w.run sink r).2.held = r.held ++ w.delivery.2.take (capacity - r.size) ∧
      (w.run sink r).2.EndsAtRefusal := by
  induction w generalizing r with
  | done a => exact absurd excess (Nat.not_lt_zero _)
  | writeAll b next ih =>
      rw [delivery_writeAll, List.length_append] at excess
      rw [run, Sink.writeAll, delivery_writeAll]
      -- The sink is full either behind this write or within it.
      by_cases fits : b.length ≤ capacity - r.size
      · obtain ⟨after, written, held, still⟩ :=
          limited.pour_of_fits (Nat.le_refl b.length) unrefused fits
        have size := Sink.Record.size_of_held held
        have room : capacity - r.size = b.length + (capacity - after.size) := by omega
        obtain ⟨told, rest, ends⟩ := ih (.ok ()) h.1 still (by omega)
        simp only [written]
        rw [room, List.take_length_add_append, ← List.append_assoc, ← held]
        exact ⟨told, rest, ends⟩
      · obtain ⟨after, refused, held, ends⟩ :=
          limited.pour_of_excess (Nat.le_refl b.length) unrefused (by omega)
        obtain ⟨a, stopped, told⟩ := h.2 error
        simp only [refused, stopped]
        rw [List.take_append_of_le_length (by omega)]
        exact ⟨told, held, ends⟩
  | write b next ih => exact h.elim
  | flush next ih => exact h.elim

end Writing

/-! ## Layers -/

/-- The layer passes on the error of the first write that fails beneath it. -/
structure Layer.Heedful (l : Layer) : Prop where
  write_heeds : ∀ b s, (l.write b s).Heeds fun e a => a.1 = .error e
  finalize_heeds : ∀ f ∈ l.finalize, ∀ s, (f s).Heeds fun e a => a.1 = .error e

namespace Layer

theorem heeds_sendEach {σ : Type} (s : σ) {next : Writing (Except IoError Unit × σ)}
    (rest : next.Heeds fun e a => a.1 = .error e) (fragments : List Bytes) :
    (Writing.sendEach (fun e => (.error e, s)) next fragments).Heeds fun e a => a.1 = .error e := by
  apply Writing.heeds_sendEach
  · intro e
    rfl
  · exact rest

theorem heedful_stateless (fragments : Bytes → List Bytes) : (stateless fragments).Heedful where
  write_heeds b _ := heeds_sendEach () (Writing.heeds_done _) (fragments b)
  finalize_heeds _ given := by cases given

theorem heeds_carry {l : Layer} (heedful : l.Heedful) {α : Type} {fails : IoError → α → Prop}
    {w : Writing α} (h : w.Heeds fails) (s : l.State) :
    (l.carry w s).Heeds fun e a => fails e a.1 := by
  induction w generalizing s with
  | done a => trivial
  | writeAll b next ih =>
      obtain ⟨goes_on, stops⟩ := h
      apply (heedful.write_heeds b s).bind
      · rintro ⟨answer, s⟩
        cases answer with
        | ok => exact ih (.ok ()) goes_on s
        | error e =>
            obtain ⟨a, stopped, -⟩ := stops e
            simp only [stopped]
            trivial
      · -- The layer gives the error as its answer, which ends the writing above it, too.
        rintro e ⟨answer, s⟩ rfl
        obtain ⟨a, stopped, told⟩ := stops e
        refine ⟨(a, s), ?_, told⟩
        simp only [stopped]
        rfl
  | write b next ih => exact h.elim
  | flush next ih => exact h.elim

end Layer

namespace Base64

theorem heeds_writeBlocks (v : Variant) (x : Bytes) :
    (writeBlocks v x).Heeds fun e a => a.1 = .error e := by
  simp only [writeBlocks]
  split
  · exact Writing.heeds_done _
  · exact Layer.heeds_sendEach [] (Writing.heeds_done _) _

theorem heedful_layer (v : Variant) : (layer v).Heedful where
  write_heeds x held := by
    simp only [layer, write]
    split
    · exact heeds_writeBlocks v x
    · split
      · exact Writing.heeds_done _
      · exact Layer.heeds_sendEach [] (heeds_writeBlocks v _) _
  finalize_heeds f given held := by
    cases given
    simp only [finalize]
    split
    · exact Writing.heeds_done _
    · exact Layer.heeds_sendEach [] (Writing.heeds_done _) _

end Base64

namespace Stack

theorem heeds_carry {layers : List Layer} (heedful : ∀ l ∈ layers, l.Heedful) {α : Type}
    {fails : IoError → α → Prop} {w : Writing α} (h : w.Heeds fails) (states : States layers) :
    (carry layers w states).Heeds fun e a => fails e a.1 := by
  induction layers generalizing α w with
  | nil =>
      rw [carry, h.whole_eq]
      exact h.map fun _ _ told => told
  | cons l below ih =>
      obtain ⟨s, states⟩ := states
      obtain ⟨top, rest⟩ := List.forall_mem_cons.1 heedful
      exact (ih rest (Layer.heeds_carry top h s) states).map fun _ _ told => told

theorem heeds_finalize {layers : List Layer} (heedful : ∀ l ∈ layers, l.Heedful) (depth : Nat)
    (states : States layers) :
    (finalize depth layers states).Heeds fun e a => a.1 = .error e := by
  induction layers with
  | nil => trivial
  | cons l below ih =>
      obtain ⟨s, states⟩ := states
      obtain ⟨top, rest⟩ := List.forall_mem_cons.1 heedful
      simp only [finalize]
      cases final : l.finalize with
      | none => exact ih rest states
      | some f =>
          apply (heeds_carry rest (top.finalize_heeds f final s) states).bind
          · rintro ⟨⟨answer, s⟩, states⟩
            cases answer with
            | error e => trivial
            | ok => exact (ih rest states).map fun _ _ told => told
          · rintro e ⟨⟨answer, s⟩, states⟩ rfl
            exact ⟨_, rfl, rfl⟩

end Stack

/-! ## Handlers -/

variable {ω : Type}

/-- A formatter reports the error of the first write that fails, and an encoder builds layers that
pass it on. -/
def Handler.Heedful : Handler ω → Prop
  | .formatter format => ∀ v args, (format v args).Heeds fun e result => result = .error (.io e)
  | .encoder build => ∀ args l, build args = .ok l → l.Heedful

theorem Formatter.heeds_sendEach (result : Except Failure Unit) (fragments : List Bytes) :
    (Writing.sendEach (fun e => .error (.io e)) (.done result) fragments).Heeds
      fun e result => result = .error (.io e) := by
  apply Writing.heeds_sendEach
  · intro e
    rfl
  · exact Writing.heeds_done result

theorem Value.heeds_writeRaw (v : Value ω) :
    v.writeRaw.Heeds fun e result => result = .error (.io e) := by
  cases v with
  | text s => exact Formatter.heeds_sendEach _ _
  | bytes b => exact Formatter.heeds_sendEach _ _
  | reader source => exact Formatter.heeds_sendEach _ _
  | _ => exact Writing.heeds_done _

theorem Json.heedful_formatter : (Handler.formatter (Json.formatter : Formatter ω)).Heedful := by
  intro v args
  unfold Json.formatter
  split
  · exact Writing.heeds_done _
  · exact Formatter.heeds_sendEach _ _
  · exact Writing.heeds_done _

theorem Base64.heedful_encoder : (Handler.encoder Base64.encoder : Handler ω).Heedful := by
  intro args l built
  unfold Base64.encoder at built
  split at built
  · cases built
    exact heedful_layer _
  · cases built

theorem CharacterData.heedful_encoder :
    (Handler.encoder CharacterData.encoder : Handler ω).Heedful := by
  intro args l built
  unfold CharacterData.encoder at built
  split at built
  · cases built
    exact Layer.heedful_stateless _
  · split at built
    · cases built
      exact Layer.heedful_stateless _
    · cases built

namespace Vocabulary

/-- All names stand for handlers that come with the library. -/
def IsBundled (known : Vocabulary ω) : Prop :=
  ∀ name handler, known.resolve name = some handler → handler ∈ (raw :: bundled).map Prod.snd

/-- What holds of the handlers of the library holds of all that a name can stand for. -/
theorem IsBundled.forall_handler {known : Vocabulary ω} (h : known.IsBundled)
    {holds : Handler ω → Prop} (passes : holds raw.2)
    (base64 : holds (.encoder Base64.encoder)) (json : holds (.formatter Json.formatter))
    (cdata : holds (.encoder CharacterData.encoder)) {name : String} {handler : Handler ω}
    (found : known.resolve name = some handler) : holds handler := by
  have listed := h name handler found
  simp only [bundled, List.map_cons, List.map_nil, List.mem_cons, List.not_mem_nil,
    or_false] at listed
  rcases listed with rfl | rfl | rfl | rfl
  · exact passes
  · exact base64
  · exact json
  · exact cdata

theorem IsBundled.heedful {known : Vocabulary ω} (h : known.IsBundled) {name : String}
    {handler : Handler ω} (found : known.resolve name = some handler) : handler.Heedful := by
  refine h.forall_handler ?_ Base64.heedful_encoder Json.heedful_formatter
    CharacterData.heedful_encoder found
  rintro args l built
  cases built
  exact Layer.heedful_stateless _

theorem mem_addEach {known : Vocabulary ω} {added : List (String × Handler ω)}
    {e : String × Handler ω} (listed : e ∈ (known.addEach added).2.entries) :
    e ∈ known.entries ∨ e ∈ added := by
  induction added generalizing known with
  | nil => exact .inl listed
  | cons entry rest ih =>
      rw [addEach, add] at listed
      by_cases taken : known.contains entry.1
      · rw [dif_pos taken] at listed
        exact .inl listed
      · rw [dif_neg taken] at listed
        rcases ih listed with placed | later
        · rcases mem_place.1 placed with rfl | before
          · exact .inr List.mem_cons_self
          · exact .inl before
        · exact .inr (List.mem_cons_of_mem _ later)

theorem isBundled_withDefaults : (withDefaults : Vocabulary ω).IsBundled := by
  intro name handler found
  obtain ⟨e, first, rfl⟩ := Option.map_eq_some_iff.1 found
  rcases mem_addEach (List.mem_of_find?_eq_some first) with none_there | listed
  · cases none_there
  · exact List.mem_map_of_mem listed

end Vocabulary

/-! ## Expansions -/

namespace Expander

theorem heeds_through {layers : List Layer} (heedful : ∀ l ∈ layers, l.Heedful)
    {head : Writing (Except Failure Unit)}
    (h : head.Heeds fun e result => result = .error (.io e)) (p : Progress ω) :
    (through layers head p).Heeds fun e a => a.1 = .error (.io e) := by
  apply (Stack.heeds_carry heedful h (Stack.fresh layers)).bind
  · rintro ⟨answer, states⟩
    cases answer with
    | error e => exact Writing.heeds_done _
    | ok =>
        apply (Stack.heeds_finalize heedful layers.length states).map
        rintro e ⟨answer, journal⟩ rfl
        rfl
  · rintro e ⟨answer, states⟩ rfl
    exact ⟨_, rfl, rfl⟩

variable {known : Vocabulary ω}

theorem heedful_layersOf (bundled : known.IsBundled) {encoders : List Stage} {layers : List Layer}
    (built : layersOf known encoders = .ok layers) : ∀ l ∈ layers, l.Heedful := by
  induction encoders generalizing layers with
  | nil =>
      cases built
      exact List.forall_mem_nil _
  | cons stage rest ih =>
      obtain ⟨build, l, below, found, own, beneath, rfl⟩ := layersOf_cons_eq_ok built
      have top : l.Heedful := bundled.heedful found stage.args l own
      exact List.forall_mem_cons.2 ⟨top, ih beneath⟩

theorem heeds_performHead {plan : Plan ω} (heedful : plan.head.Heedful) {layers : List Layer}
    (below : ∀ l ∈ layers, l.Heedful) (v : Value ω) (p : Progress ω) :
    (performHead plan layers v p).Heeds fun e a => a.1 = .error (.io e) := by
  unfold performHead
  cases kind : plan.head with
  | formatter format =>
      rw [kind] at heedful
      exact heeds_through below (heedful v plan.headArgs) p
  | encoder build =>
      rw [kind] at heedful
      simp only
      cases built : build plan.headArgs with
      | error e => exact Writing.heeds_done _
      | ok l =>
          have top := heedful plan.headArgs l built
          exact heeds_through (List.forall_mem_cons.2 ⟨top, below⟩) v.heeds_writeRaw p

theorem heeds_perform (bundled : known.IsBundled) (d : Directive) (p : Progress ω) :
    (perform known d p).Heeds fun e a => a.1 = .error (.io e) := by
  cases d with
  | percent =>
      apply Writing.heeds_sendEach
      · intro e
        rfl
      · exact Writing.heeds_done _
  | chain head encoders =>
      cases found : known.resolve head.name with
      | none =>
          simp only [perform, plan, found]
          exact Writing.heeds_done _
      | some handler =>
          obtain ⟨plans, entries, q, performed⟩ := perform_chain found encoders p
          rw [performed]
          cases built : layersOf known encoders with
          | error e => exact Writing.heeds_done _
          | ok layers =>
              exact heeds_performHead (bundled.heedful found) (heedful_layersOf bundled built) _ _

theorem heeds_advance (bundled : known.IsBundled) (segment : Option Template.Segment)
    (p : Progress ω) : (advance known segment p).Heeds fun e a => a.1 = .error (.io e) := by
  cases segment with
  | none => exact Writing.heeds_done _
  | some segment =>
      cases segment with
      | text b =>
          apply Writing.heeds_sendEach
          · intro e
            rfl
          · exact Writing.heeds_done _
      | directive d => exact heeds_perform bundled d p
      | unclosed => exact Writing.heeds_done _
      | broken e => exact Writing.heeds_done _

theorem heeds_runFrom {expander : Expander ω} (bundled : expander.vocabulary.IsBundled)
    (x : List Template.Segment) (p : Progress ω) :
    (expander.runFrom x p).Heeds fun e outcome => outcome.result = .error (.io e) := by
  induction x generalizing p with
  | nil => exact Writing.heeds_done _
  | cons segment x ih =>
      apply (heeds_advance bundled segment p).bind
      · rintro ⟨result, q⟩
        cases result with
        | error e => exact Writing.heeds_done _
        | ok => exact ih q
      · rintro e ⟨result, q⟩ rfl
        exact ⟨_, rfl, rfl⟩

/-- With the library's handlers a sink that takes no more than so many bytes, in whatever portions
and with whatever interruptions, gets the front of what a sink gets that takes everything. If that
is all of it, the outcome is the same, and else the expansion fails with the error of the sink. No
call follows the one that is refused. -/
theorem run_expand_truncates (expander : Expander ω) (bundled : expander.vocabulary.IsBundled)
    {sink : Sink} {capacity : Nat} {error : IoError} (limited : sink.Truncates capacity error)
    (template : Source) (args : List (Value ω)) :
    let (expected, full) := (expander.expand template args).run .accepting .empty
    let (outcome, record) := (expander.expand template args).run sink .empty
    record.held = full.held.take capacity ∧ record.EndsAtRefusal ∧
      if full.held.length ≤ capacity then outcome = expected
      else outcome.result = .error (.io error) := by
  obtain ⟨expected, full⟩ := Writing.run_accepting (expander.expand template args) .empty
  have heeds := heeds_runFrom bundled (Template.read template) (.start args)
  rw [← expand_eq_runFrom] at heeds
  have none_refused : Sink.Record.empty.Unrefused := List.forall_mem_nil _
  have output : ((expander.expand template args).run .accepting .empty).2.held =
      (expander.expand template args).delivery.2 := full
  simp only
  rw [output]
  by_cases fits : (expander.expand template args).delivery.2.length ≤ capacity
  · obtain ⟨outcome, held, unrefused⟩ := heeds.run_of_fits limited none_refused fits
    rw [if_pos fits, List.take_of_length_le fits]
    exact ⟨held, unrefused.endsAtRefusal, outcome.trans expected.symm⟩
  · obtain ⟨told, held, ends⟩ := heeds.run_of_excess limited none_refused (Nat.lt_of_not_le fits)
    rw [if_neg fits]
    exact ⟨held, ends, told⟩

/-- The sink is full in the middle of a reference for a character of the JSON text. -/
theorem run_expand_truncates_in_reference :
    let limits : Sink.Limits := ⟨[1, 4], [], some 2, some 9, false, false, ⟨.brokenPipe, "gone"⟩,
      by decide⟩
    let template := Source.ofBytes (Bytes.ofText "x%json|cdata;y")
    let args : List (Value Unit) := [.text "<"]
    (withDefaults : Expander Unit).vocabulary.IsBundled ∧
      limits.toSink.Truncates 9 ⟨.brokenPipe, "gone"⟩ ∧
      let (outcome, record) := (withDefaults.expand template args).run limits.toSink .empty
      record.held = Bytes.ofText "x&quot;&l" ∧ record.EndsAtRefusal ∧
        outcome.result = .error (.io ⟨.brokenPipe, "gone"⟩) := by
  intro limits template args
  have bundled : (withDefaults : Expander Unit).vocabulary.IsBundled :=
    Vocabulary.isBundled_withDefaults
  have limited : limits.toSink.Truncates 9 ⟨.brokenPipe, "gone"⟩ :=
    limits.truncates_toSink rfl rfl (by decide)
  have full : ((withDefaults.expand template args).run .accepting .empty).2.held =
      Bytes.ofText "x&quot;&lt;&quot;y" := by decide +kernel
  obtain ⟨held, ends, told⟩ := run_expand_truncates withDefaults bundled limited template args
  rw [full] at held told
  exact ⟨bundled, limited, held, ends, told⟩

end Expander
end LayeredTemplate
