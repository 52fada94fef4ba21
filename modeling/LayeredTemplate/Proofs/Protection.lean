import LayeredTemplate.Gallery
import LayeredTemplate.Proofs.Characters
import LayeredTemplate.Proofs.Conduct
import Mathlib.Control.Monad.Basic

/-! Character data next to the sink. As the last stage of a directive it lets nothing pass that has
a meaning in markup, whatever stands above it and however the directive ends. -/
namespace LayeredTemplate

/-! ## The last layer -/

namespace Expander

variable {ω : Type} {known : Vocabulary ω} {build : Encoder} {l : Layer} {stage : Stage}

theorem layersOf_getLast (found : known.resolve stage.name = some (.encoder build))
    (built : build stage.args = .ok l) {encoders : List Stage}
    (last : encoders.getLast? = some stage) {layers : List Layer}
    (stand : layersOf known encoders = .ok layers) : ∃ above, layers = above ++ [l] := by
  induction encoders generalizing layers with
  | nil => cases last
  | cons first rest ih =>
      obtain ⟨build', top, below, found', built', beneath, rfl⟩ := layersOf_cons_eq_ok stand
      cases rest with
      | nil =>
          obtain rfl : first = stage := Option.some.inj last
          cases found.symm.trans found'
          cases built.symm.trans built'
          cases beneath
          exact ⟨[], rfl⟩
      | cons second rest =>
          obtain ⟨above, rfl⟩ := ih (List.getLast?_cons_cons ▸ last) beneath
          exact ⟨top :: above, rfl⟩

theorem serve_above (handler : Handler ω) (args : Option Bytes) (above : List Layer) (l : Layer)
    (v : Value ω) :
    (∃ e, serve handler args (above ++ [l]) v = .done (.error e)) ∨
      ∃ w, serve handler args (above ++ [l]) v = Stack.pass [l] w := by
  unfold serve
  cases handler with
  | formatter format => exact .inr ⟨_, Stack.pass_append above [l] (format v args)⟩
  | encoder build =>
      simp only
      cases build args with
      | error e => exact .inl ⟨e, rfl⟩
      | ok top => exact .inr ⟨_, Stack.pass_append (top :: above) [l] v.writeRaw⟩

/-- A directive fails before it writes, or all that it writes goes through the layer of its last
stage. -/
theorem perform_above (found : known.resolve stage.name = some (.encoder build))
    (built : build stage.args = .ok l) {head : Stage} {encoders : List Stage}
    (last : (head :: encoders).getLast? = some stage) (p : Progress ω) :
    (∃ e, (perform known (.chain head encoders) p).map Prod.fst = .done (.error e)) ∨
      ∃ w, (perform known (.chain head encoders) p).map Prod.fst = Stack.pass [l] w := by
  rw [map_fst_perform, ready]
  cases first : known.resolve head.name with
  | none => exact .inl ⟨_, rfl⟩
  | some handler =>
      simp only
      cases stand : layersOf known encoders with
      | error e => exact .inl ⟨e, rfl⟩
      | ok layers =>
          simp only [Except.map]
          cases encoders with
          | nil =>
              obtain rfl : head = stage := Option.some.inj last
              cases first.symm.trans found
              cases stand
              refine .inr ⟨p.draw.1.writeRaw, ?_⟩
              simp only [serve, built]
          | cons second rest =>
              obtain ⟨above, rfl⟩ :=
                layersOf_getLast found built (List.getLast?_cons_cons ▸ last) stand
              exact serve_above handler head.args above l p.draw.1

end Expander

/-! ## Sinks that take all -/

/-- Writing a byte string as a whole always succeeds, in however many calls. -/
def Sink.TakesAll (sink : Sink) : Prop := ∀ b r, (sink.writeAll b r).1 = .ok ()

theorem Sink.takesAll_accepting : accepting.TakesAll := by
  intro b r
  rw [accepting_writeAll]

theorem Sink.TakesAll.held_writeAll {sink : Sink} (takes : sink.TakesAll) (b : Bytes)
    (r : Record) : (sink.writeAll b r).2.held = r.held ++ b := by
  obtain ⟨rest, ⟨taken, split, held⟩, all⟩ := sink.exists_took_writeAll b r
  rw [held, split, all (takes b r), List.append_nil]

theorem Sink.TakesAll.run_sendEach {sink : Sink} (takes : sink.TakesAll) {α : Type}
    (stop : IoError → α) (next : Writing α) (fragments : List Bytes) (r : Record) :
    ∃ after, (Writing.sendEach stop next fragments).run sink r = next.run sink after ∧
      after.held = r.held ++ fragments.flatten := by
  induction fragments generalizing r with
  | nil => exact ⟨r, rfl, (List.append_nil _).symm⟩
  | cons b rest ih =>
      obtain ⟨after, ran, held⟩ := ih (sink.writeAll b r).2
      refine ⟨after, ?_, ?_⟩
      · have succeeds := takes b r
        rw [← ran, Writing.sendEach, Writing.run]
        generalize sink.writeAll b r = done at succeeds ⊢
        obtain ⟨answer, between⟩ := done
        cases succeeds
        rfl
      · rw [held, takes.held_writeAll, List.flatten_cons, List.append_assoc]

/-- Where failures end the writing in another way, everything has been taken if it ends as meant. -/
theorem Writing.held_of_sendEach {α : Type} {stop : IoError → α} {a : α} (stops : ∀ e, stop e ≠ a)
    {sink : Sink} {sent : List Bytes} {r : Sink.Record}
    (ends : ((sendEach stop (.done a) sent).run sink r).1 = a) :
    ((sendEach stop (.done a) sent).run sink r).2.held = r.held ++ sent.flatten := by
  induction sent generalizing r with
  | nil => exact (List.append_nil _).symm
  | cons b sent ih =>
      obtain ⟨rest, ⟨taken, split, held⟩, all⟩ := sink.exists_took_writeAll b r
      rw [sendEach, run] at ends ⊢
      generalize sink.writeAll b r = done at ends held all ⊢
      obtain ⟨answer, after⟩ := done
      cases answer with
      | error e => exact absurd ends (stops e)
      | ok =>
          rw [all rfl, List.append_nil] at split
          rw [List.flatten_cons, ← List.append_assoc, split, ← held]
          exact ih ends

/-! ## Layers without a state -/

theorem Writing.whole_sendEach {α : Type} (stop : IoError → α) {next : Writing α} (h : next.Whole)
    (sent : List Bytes) : (sendEach stop next sent).Whole := by
  induction sent with
  | nil => exact h
  | cons b rest ih =>
      intro answer
      cases answer with
      | ok => exact ih
      | error e => trivial

namespace Layer

variable {fragments : Bytes → List Bytes}

theorem whole_carry_stateless {α : Type} (w : Writing α) (s : (stateless fragments).State) :
    ((stateless fragments).carry w s).Whole := by
  have written (b : Bytes) (s : (stateless fragments).State) :
      ((stateless fragments).write b s).Whole := by
    apply Writing.whole_sendEach
    trivial
  induction w generalizing s with
  | done a => trivial
  | writeAll b next ih => exact (written b s).bind fun _ => ih _ _
  | write b next ih => exact (written b s).bind fun _ => ih _ _
  | flush next ih =>
      intro answer
      exact ih answer s

/-- What such a layer adds to a sink that takes all is what it makes of some byte string. -/
theorem held_carry_stateless {f : Bytes → Bytes} (nothing : f [] = [])
    (additive : ∀ x y, f (x ++ y) = f x ++ f y) (amount : ∀ x, (fragments x).flatten = f x)
    {sink : Sink} (takes : sink.TakesAll) {α : Type} (w : Writing α)
    (s : (stateless fragments).State) (r : Sink.Record) :
    ∃ x, (((stateless fragments).carry w s).run sink r).2.held = r.held ++ f x := by
  have written (b : Bytes) (r : Sink.Record) : ∃ after,
      ((stateless fragments).write b s).run sink r = ((.ok (), s), after) ∧
        after.held = r.held ++ f b := by
    obtain ⟨after, ran, held⟩ := takes.run_sendEach (fun e => (Except.error e, s))
      (.done (Except.ok (), s)) (fragments b) r
    exact ⟨after, ran, amount b ▸ held⟩
  induction w generalizing r with
  | done a => exact ⟨[], by rw [nothing, List.append_nil]; rfl⟩
  | writeAll b next ih =>
      obtain ⟨after, ran, held⟩ := written b r
      obtain ⟨x, later⟩ := ih (.ok ()) after
      refine ⟨b ++ x, ?_⟩
      rw [carry, Writing.run_bind, ran, additive, ← List.append_assoc, ← held]
      exact later
  | write b next ih =>
      obtain ⟨after, ran, held⟩ := written b r
      obtain ⟨x, later⟩ := ih (.ok b.length) after
      refine ⟨b ++ x, ?_⟩
      rw [carry, Writing.run_bind, ran, additive, ← List.append_assoc, ← held]
      exact later
  | flush next ih =>
      obtain ⟨x, later⟩ := ih (sink.flush r).1 (sink.flush r).2
      rw [sink.held_flush] at later
      exact ⟨x, later⟩

end Layer

/-! ## Character data -/

namespace CharacterData

/-- The arguments for which line breaks are kept, and those for which they are not. -/
def argsFor (keepLineBreaks : Bool) : Option Bytes :=
  if keepLineBreaks then some (Bytes.ofText "nocrlf") else none

/-- The byte is no delimiter of markup, and not below the space unless it is a line break that is
kept. -/
def Harmless (keepLineBreaks : Bool) (b : UInt8) : Prop :=
  b ∉ [0x3c, 0x3e, 0x22, 0x27] ∧ (0x20 ≤ b ∨ keepLineBreaks = true ∧ (b = 0x0a ∨ b = 0x0d))

instance (keepLineBreaks : Bool) (b : UInt8) : Decidable (Harmless keepLineBreaks b) :=
  inferInstanceAs (Decidable (_ ∧ _))

/-- Every ampersand begins one of the references that are understood. -/
def Referring (x : Bytes) : Prop :=
  ∀ rest, 0x26 :: rest <:+ x → ∃ reference ∈ references, reference.1 <+: 0x26 :: rest

theorem encoder_argsFor (keepLineBreaks : Bool) :
    encoder (argsFor keepLineBreaks) = .ok (layer keepLineBreaks) := by
  cases keepLineBreaks <;> rfl

theorem encode_cons (keepLineBreaks : Bool) (b : UInt8) (x : Bytes) :
    encode keepLineBreaks (b :: x) = encode keepLineBreaks [b] ++ encode keepLineBreaks x :=
  Substitution.apply_append _ [b] x

/-- A byte is replaced by a reference, or else harmless and no ampersand. -/
theorem encode_singleton (keepLineBreaks : Bool) (b : UInt8) :
    encode keepLineBreaks [b] ∈ references.map Prod.fst ∨
      encode keepLineBreaks [b] = [b] ∧ Harmless keepLineBreaks b ∧ b ≠ 0x26 := by
  have single : encode keepLineBreaks [b] =
      (reference keepLineBreaks b).elim [b] List.flatten := by
    simp only [encode, Substitution.apply, List.flatMap_singleton]
    cases reference keepLineBreaks b <;> rfl
  rw [single]
  unfold reference
  split
  · exact .inl (by decide +kernel)
  · exact .inl (by decide +kernel)
  · exact .inl (by decide +kernel)
  · exact .inl (by decide +kernel)
  · exact .inl (by decide +kernel)
  · rename_i amp lt gt quot apos
    have plain : b ∉ [0x3c, 0x3e, 0x22, 0x27] := by
      simp only [List.mem_cons, List.not_mem_nil, or_false, not_or]
      exact ⟨lt, gt, quot, apos⟩
    split
    · rename_i kept
      exact .inr ⟨rfl, ⟨plain, .inr kept⟩, amp⟩
    split
    · rename_i low
      refine .inl (List.mem_map.2 ⟨(Bytes.ofText s!"&#{b.toNat};", .ofNat b.toNat), ?_, ?_⟩)
      · refine List.mem_append_right _ (List.mem_map.2 ⟨b.toNat, ?_, rfl⟩)
        exact List.mem_range.2 (UInt8.lt_iff_toNat_lt.1 low)
      · simp only [Utf8.ofText_append, Option.elim_some, List.flatten_cons, List.flatten_nil,
          List.append_nil, List.append_assoc]
        rfl
    · rename_i high
      exact .inr ⟨rfl, ⟨plain, .inl (UInt8.not_lt.1 high)⟩, amp⟩

theorem harmless_references {name : Bytes} (listed : name ∈ references.map Prod.fst)
    (keepLineBreaks : Bool) :
    (∀ c ∈ name, Harmless keepLineBreaks c) ∧ 0x26 ∉ name.tail := by
  have each : ∀ name ∈ references.map Prod.fst,
      (∀ keep : Bool, name.all fun c => Harmless keep c) ∧ 0x26 ∉ name.tail := by
    decide +kernel
  obtain ⟨harmless, once⟩ := each name listed
  refine ⟨?_, once⟩
  simpa only [List.all_eq_true, decide_eq_true_eq] using harmless keepLineBreaks

theorem harmless_encode (keepLineBreaks : Bool) (x : Bytes) :
    ∀ c ∈ encode keepLineBreaks x, Harmless keepLineBreaks c := by
  induction x with
  | nil =>
      intro c hc
      cases hc
  | cons b x ih =>
      rw [encode_cons, List.forall_mem_append]
      refine ⟨?_, ih⟩
      rcases encode_singleton keepLineBreaks b with listed | ⟨same, harmless, -⟩
      · exact (harmless_references listed keepLineBreaks).1
      · rw [same, List.forall_mem_singleton]
        exact harmless

theorem referring_encode (keepLineBreaks : Bool) (x : Bytes) :
    Referring (encode keepLineBreaks x) := by
  induction x with
  | nil =>
      intro rest ends
      cases List.suffix_nil.1 ends
  | cons b x ih =>
      rintro rest ⟨before, whole⟩
      rw [encode_cons] at whole
      rcases List.append_eq_append_iff.1 whole.symm with ⟨between, -, later⟩ | ⟨own, first, later⟩
      · exact ih rest ⟨between, later.symm⟩
      cases own with
      | nil => exact ih rest ⟨[], later⟩
      | cons c own =>
          obtain ⟨rfl, rest_eq⟩ := List.cons.inj later
          rcases encode_singleton keepLineBreaks b with listed | ⟨same, -, other⟩
          · -- the ampersand of a reference is its first byte
            cases before with
            | nil =>
                obtain ⟨reference, mem, eq⟩ := List.mem_map.1 listed
                refine ⟨reference, mem, encode keepLineBreaks x, ?_⟩
                rw [eq, first, rest_eq]
                rfl
            | cons d before =>
                obtain ⟨-, once⟩ := harmless_references listed keepLineBreaks
                rw [first] at once
                exact absurd (by simp) once
          · have inside : 0x26 ∈ encode keepLineBreaks [b] := by
              rw [first]
              simp
            rw [same, List.mem_singleton] at inside
            exact absurd inside.symm other

theorem keeps_write (keepLineBreaks : Bool) (b : Bytes) (s : (layer keepLineBreaks).State) :
    ((layer keepLineBreaks).write b s).Keeps (fun x => ∀ c ∈ x, Harmless keepLineBreaks c)
      fun _ => True := by
  apply Writing.keeps_sendEach
  · intro e
    trivial
  · trivial
  · intro fragment sent c hc
    have written : c ∈ encode keepLineBreaks b := by
      rw [encode, ← Substitution.flatten_fragments]
      exact List.mem_flatten_of_mem sent hc
    exact harmless_encode keepLineBreaks b c written

theorem pass_layer (keepLineBreaks : Bool) (w : Writing (Except Failure Unit)) :
    Stack.pass [layer keepLineBreaks] w =
      ((layer keepLineBreaks).carry w (layer keepLineBreaks).start).map Prod.fst := by
  rw [Stack.pass_singleton rfl]
  exact congrArg _ (Layer.whole_carry_stateless w ()).whole_eq

/-- Whatever is written through the layer, only harmless bytes arrive, and where nothing is refused
all references are complete. -/
theorem held_pass_layer (keepLineBreaks : Bool) (w : Writing (Except Failure Unit)) (sink : Sink)
    (r : Sink.Record) :
    ∃ added, ((Stack.pass [layer keepLineBreaks] w).run sink r).2.held = r.held ++ added ∧
      (∀ c ∈ added, Harmless keepLineBreaks c) ∧ (sink.TakesAll → Referring added) := by
  rw [pass_layer, Writing.run_map]
  by_cases takes : sink.TakesAll
  · obtain ⟨x, held⟩ := Layer.held_carry_stateless rfl (Substitution.apply_append _)
      (Substitution.flatten_fragments (reference keepLineBreaks)) takes w () r
    exact ⟨_, held, harmless_encode keepLineBreaks x, fun _ => referring_encode keepLineBreaks x⟩
  · have kept := Layer.keeps_carry (fun b _ => keeps_write keepLineBreaks b) w.keeps_true ()
    obtain ⟨added, held, harmless⟩ := kept.run_held sink r
    exact ⟨added, held, harmless, fun given => absurd given takes⟩

end CharacterData

namespace Expander

variable {ω : Type} {known : Vocabulary ω}

/-- A directive that ends in character data adds only harmless bytes to a sink, whatever its other
handlers do, whatever the sink refuses and however the directive ends. If the sink takes all, each
ampersand begins a reference. -/
theorem run_chain_protected
    (cdata : known.resolve "cdata" = some (.encoder CharacterData.encoder)) (keepLineBreaks : Bool)
    {head : Stage} {encoders : List Stage}
    (last : (head :: encoders).getLast? = some ⟨"cdata", CharacterData.argsFor keepLineBreaks⟩)
    (p : Progress ω) (sink : Sink) (r : Sink.Record) :
    ∃ added,
      ((perform known (.chain head encoders) p).run sink r).2.held = r.held ++ added ∧
        (∀ c ∈ added, CharacterData.Harmless keepLineBreaks c) ∧
          (sink.TakesAll → CharacterData.Referring added) := by
  have record : ((perform known (.chain head encoders) p).run sink r).2 =
      (((perform known (.chain head encoders) p).map Prod.fst).run sink r).2 := by
    rw [Writing.run_map]
  rw [record]
  rcases perform_above cdata (CharacterData.encoder_argsFor keepLineBreaks) last p with
    ⟨e, fails⟩ | ⟨w, passes⟩
  · rw [fails]
    exact ⟨[], (List.append_nil _).symm, List.forall_mem_nil _,
      fun _ => CharacterData.referring_encode keepLineBreaks []⟩
  · rw [passes]
    exact CharacterData.held_pass_layer keepLineBreaks w sink r

/-- The formatter makes a single write, which is held back by the encoder between. One sink is
interrupted, takes two bytes at a time and is full in the middle of a reference. -/
theorem run_chain_protected_cut_off :
    let known : Vocabulary Unit := (Vocabulary.empty.addEach (Vocabulary.raw ::
      Vocabulary.bundled ++ [("hold", .encoder Gallery.Encoders.hold),
        ("once", .formatter Gallery.Formatters.once)])).2
    let encoders : List Stage := [⟨"hold", some [0x3e]⟩, ⟨"cdata", CharacterData.argsFor true⟩]
    let head : Stage := ⟨"once", none⟩
    let limits : Sink.Limits :=
      ⟨[1], [], some 2, some 11, true, false, .nothingTaken, by decide⟩
    let p : Progress Unit := .start [.text "<\n&\x07"]
    let limited := (perform known (.chain head encoders) p).run limits.toSink .empty
    let complete := (perform known (.chain head encoders) p).run .accepting .empty
    known.resolve "cdata" = some (.encoder CharacterData.encoder) ∧
      (head :: encoders).getLast? = some ⟨"cdata", CharacterData.argsFor true⟩ ∧
      (limited.1.1 = .error (.io .nothingTaken) ∧ limited.2.held = Bytes.ofText "&gt;[&lt;\n&" ∧
        ∀ c ∈ Bytes.ofText "&gt;[&lt;\n&", CharacterData.Harmless true c) ∧
      Sink.accepting.TakesAll ∧ complete.1.1 = .ok () ∧
        complete.2.held = Bytes.ofText "&gt;[&lt;\n&amp;&#7;=4]" ∧
        CharacterData.Referring (Bytes.ofText "&gt;[&lt;\n&amp;&#7;=4]") := by
  intro known encoders head limits p limited complete
  have cdata : known.resolve "cdata" = some (.encoder CharacterData.encoder) := rfl
  have last : (head :: encoders).getLast? = some ⟨"cdata", CharacterData.argsFor true⟩ := rfl
  have cut : limited.2.held = Bytes.ofText "&gt;[&lt;\n&" := by decide +kernel
  have all : complete.2.held = Bytes.ofText "&gt;[&lt;\n&amp;&#7;=4]" := by decide +kernel
  refine ⟨cdata, last, ⟨by decide +kernel, cut, ?_⟩, Sink.takesAll_accepting, by decide +kernel,
    all, ?_⟩
  · obtain ⟨added, held, harmless, -⟩ :=
      run_chain_protected cdata true last p limits.toSink .empty
    rw [← cut, held]
    exact harmless
  · obtain ⟨added, held, -, referring⟩ := run_chain_protected cdata true last p .accepting .empty
    rw [← all, held]
    exact referring Sink.takesAll_accepting

end Expander
end LayeredTemplate
