import LayeredTemplate.Proofs.Decoding

/-! A layer by itself, next to a sink that takes all, asked to write and to finalize in any order.
What base64 and character data make of what they are given does not depend on how it is cut, and it
can be read back. -/
namespace LayeredTemplate

/-! ## Writings that only send -/

namespace Writing

universe u v

variable {α : Type u} {β : Type v}

/-- Nothing is asked for but that byte strings are written as a whole. -/
def Sends : Writing α → Prop
  | .done _ => True
  | .writeAll _ next => ∀ answer, (next answer).Sends
  | .write .. | .flush _ => False

theorem Sends.bind {w : Writing α} {f : α → Writing β} (h : w.Sends) (rest : ∀ a, (f a).Sends) :
    (w.bind f).Sends := by
  induction w with
  | done a => exact rest a
  | writeAll b next ih =>
      intro answer
      exact ih answer (h answer)
  | write b next ih => exact h.elim
  | flush next ih => exact h.elim

theorem sends_sendEach (stop : IoError → α) {next : Writing α} (h : next.Sends)
    (fragments : List Bytes) : (sendEach stop next fragments).Sends := by
  induction fragments with
  | nil => exact h
  | cons b rest ih =>
      intro answer
      cases answer with
      | ok => exact ih
      | error e => trivial

end Writing

/-- However a sink takes all, it gets the delivery of such a writing. -/
theorem Sink.TakesAll.run_of_sends {sink : Sink} (takes : sink.TakesAll) {α : Type}
    {w : Writing α} (h : w.Sends) (r : Sink.Record) :
    (w.run sink r).1 = w.delivery.1 ∧ (w.run sink r).2.held = r.held ++ w.delivery.2 := by
  induction w generalizing r with
  | done a => exact ⟨rfl, (List.append_nil _).symm⟩
  | writeAll b next ih =>
      have succeeds := takes b r
      have taken := takes.held_writeAll b r
      rw [Writing.run]
      generalize sink.writeAll b r = done at succeeds taken ⊢
      obtain ⟨answer, after⟩ := done
      cases succeeds
      obtain ⟨result, held⟩ := ih (.ok ()) (h (.ok ())) after
      refine ⟨result, ?_⟩
      rw [held, taken, List.append_assoc]
      rfl
  | write b next ih => exact h.elim
  | flush next ih => exact h.elim

/-! ## Requests -/

/-- What a layer can be asked for. -/
inductive Request where
  | write (bytes : Bytes)
  | finalize
  deriving DecidableEq, Repr

/-- What is written up to each finalization, and what is written after the last one. Some bytes were
`written` before. -/
def Request.segments (written : Bytes) : List Request → List Bytes × Bytes
  | [] => ([], written)
  | .write b :: rest => segments (written ++ b) rest
  | .finalize :: rest =>
      let later := segments [] rest
      (written :: later.1, later.2)

theorem Request.segments_write (written : Bytes) (writes : List Bytes) (rest : List Request) :
    segments written (writes.map write ++ rest) = segments (written ++ writes.flatten) rest := by
  induction writes generalizing written with
  | nil => rw [List.flatten_nil, List.append_nil, List.map_nil, List.nil_append]
  | cons b writes ih =>
      rw [List.map_cons, List.cons_append, segments, ih, List.flatten_cons, List.append_assoc]

namespace Layer

/-- A layer that cannot be finalized has nothing to do then. -/
def attend (l : Layer) : Request → l.State → Writing (Except IoError Unit × l.State)
  | .write b, s => l.write b s
  | .finalize, s => match l.finalize with
    | none => .done (.ok (), s)
    | some f => f s

/-- Some requests in order, with the answer to each. A failure does not end them. -/
def attendEach (l : Layer) : List Request → l.State → Writing (List (Except IoError Unit) × l.State)
  | [], s => .done ([], s)
  | request :: rest, s => (l.attend request s).bind fun (answer, s) =>
      (l.attendEach rest s).map fun (answers, s) => (answer :: answers, s)

variable {l : Layer}

theorem sends_attendEach (h : ∀ request s, (l.attend request s).Sends) (requests : List Request)
    (s : l.State) : (l.attendEach requests s).Sends := by
  induction requests generalizing s with
  | nil => trivial
  | cons request rest ih =>
      apply (h request s).bind
      rintro ⟨answer, s⟩
      apply (ih s).bind
      intro attended
      trivial

/-- One request after the other, as long as nothing goes wrong. -/
theorem delivery_attendEach_cons {request : Request} {s t : l.State} {answer : Except IoError Unit}
    {sent : Bytes} (attended : (l.attend request s).delivery = ((answer, t), sent))
    (rest : List Request) : (l.attendEach (request :: rest) s).delivery =
      ((answer :: (l.attendEach rest t).delivery.1.1, (l.attendEach rest t).delivery.1.2),
        sent ++ (l.attendEach rest t).delivery.2) := by
  rw [attendEach, Writing.delivery_bind, attended, Writing.delivery, Writing.smooth_map]
  rfl

end Layer

/-! ## Base64 -/

namespace Base64

variable {v : Variant}

theorem blocks_eq_take (x : Bytes) : blocks x = x.take (3 * (x.length / 3)) := by
  have size : x.length - x.length % 3 = 3 * (x.length / 3) := by omega
  rw [blocks, size]

theorem sends_writeBlocks (v : Variant) (x : Bytes) : (writeBlocks v x).Sends := by
  unfold writeBlocks
  simp only
  split
  · trivial
  · apply Writing.sends_sendEach
    trivial

theorem sends_attend (v : Variant) (request : Request) (held : Bytes) :
    ((layer v).attend request held).Sends := by
  cases request with
  | write b =>
      change (write v b held).Sends
      unfold write
      split
      · exact sends_writeBlocks v b
      · simp only
        split
        · trivial
        · exact Writing.sends_sendEach _ (sends_writeBlocks v _) _
  | finalize =>
      change (finalize v held).Sends
      unfold finalize
      split
      · trivial
      · apply Writing.sends_sendEach
        trivial

/-- With what was written before, each segment comes to a text of its own, and the last one to that
of its whole blocks. What is not encoded yet is held back. -/
theorem delivery_attendEach (v : Variant) (requests : List Request) (written : Bytes) :
    let delivery := ((layer v).attendEach requests (remainder written)).delivery
    let segments := Request.segments written requests
    delivery.1 = (requests.map fun _ => .ok (), remainder segments.2) ∧
      encode v (blocks written) ++ delivery.2 =
        segments.1.flatMap (encode v) ++ encode v (blocks segments.2) := by
  -- the layer always holds the remainder of what was written since the last finalization
  induction requests generalizing written with
  | nil => exact ⟨rfl, List.append_nil _⟩
  | cons request rest ih =>
      intro delivery segments
      cases request with
      | write b =>
          have attended : ((layer v).attend (.write b) (remainder written)).delivery =
              ((.ok (), remainder (written ++ b)), encode v (blocks (remainder written ++ b))) := by
            rw [← remainder_remainder]
            exact delivery_write v b (length_remainder written)
          have step : delivery = _ := Layer.delivery_attendEach_cons attended rest
          obtain ⟨answers, delivered⟩ := ih (written ++ b)
          rw [step]
          constructor
          · rw [answers]
            rfl
          · rw [← List.append_assoc, encode_blocks_append]
            exact delivered
      | finalize =>
          have attended : ((layer v).attend .finalize (remainder written)).delivery =
              ((.ok (), remainder []), encode v (remainder written)) :=
            delivery_finalize v _
          have step : delivery = _ := Layer.delivery_attendEach_cons attended rest
          obtain ⟨answers, delivered⟩ := ih []
          rw [step]
          constructor
          · rw [answers]
            rfl
          · have first : segments.1.flatMap (encode v) =
                encode v written ++ (Request.segments [] rest).1.flatMap (encode v) :=
              List.flatMap_cons
            rw [← List.append_assoc, encode_blocks_remainder, first, List.append_assoc]
            exact congrArg _ delivered

/-- Only whole blocks are written before the layer is finalized, and then the text of all bytes,
which decodes to them. The layer starts over after each finalization. -/
theorem encodes_each_segment {args : Option Bytes} (accepted : Variant.ofArgs args = .ok v)
    {sink : Sink} (takes : sink.TakesAll) (r : Sink.Record) :
    encoder args = .ok (layer v) ∧
    (∀ writes : List Bytes,
      let x := writes.flatten
      let requests := writes.map Request.write
      let before := ((layer v).attendEach requests (layer v).start).run sink r
      let after := ((layer v).attendEach (requests ++ [.finalize]) (layer v).start).run sink r
      before.2.held = r.held ++ encode v (x.take (3 * (x.length / 3))) ∧
        after.2.held = r.held ++ encode v x ∧ after.1.2 = (layer v).start ∧
          decode v (encode v x) = some x) ∧
    ∀ requests : List Request,
      let ran := ((layer v).attendEach requests (layer v).start).run sink r
      let segments := Request.segments [] requests
      ran.1.1 = requests.map (fun _ => .ok ()) ∧
        ran.2.held = r.held ++ segments.1.flatMap (encode v) ++
          encode v (segments.2.take (3 * (segments.2.length / 3))) := by
  have served (requests : List Request) :
      let ran := ((layer v).attendEach requests (layer v).start).run sink r
      let segments := Request.segments [] requests
      ran.1 = (requests.map fun _ => .ok (), remainder segments.2) ∧
        ran.2.held = r.held ++ segments.1.flatMap (encode v) ++ encode v (blocks segments.2) := by
    obtain ⟨result, held⟩ := takes.run_of_sends
      (Layer.sends_attendEach (sends_attend v) requests (layer v).start) r
    obtain ⟨answers, delivered⟩ := delivery_attendEach v requests []
    refine ⟨result.trans answers, ?_⟩
    rw [held, List.append_assoc]
    exact congrArg _ delivered
  refine ⟨?_, ?_, ?_⟩
  · rw [encoder, accepted]
  · intro writes x requests before after
    have none_closed : Request.segments [] requests = ([], x) := by
      have split := Request.segments_write [] writes []
      rwa [List.append_nil] at split
    have one_closed : Request.segments [] (requests ++ [.finalize]) = ([x], []) :=
      Request.segments_write [] writes [.finalize]
    obtain ⟨-, held⟩ := served requests
    obtain ⟨answered, closed⟩ := served (requests ++ [.finalize])
    rw [none_closed] at held
    rw [one_closed] at answered closed
    refine ⟨?_, ?_, congrArg Prod.snd answered, decode_encode v x⟩
    · rw [← blocks_eq_take, held, List.flatMap_nil, List.append_nil]
    · rw [closed, List.flatMap_singleton]
      exact List.append_nil _
  · intro requests ran segments
    obtain ⟨answered, held⟩ := served requests
    refine ⟨congrArg Prod.fst answered, ?_⟩
    rw [← blocks_eq_take]
    exact held

/-- Two finalizations in a row, a block that is completed by a later write, and a last segment that
is not finalized. -/
theorem encodes_each_segment_reused :
    let v : Variant := ⟨true, false⟩
    let requests : List Request := [.write [0xfb], .write [], .write [0xff, 0xfe], .finalize,
      .finalize, .write [0xff], .finalize, .write [1, 2, 3, 4]]
    let ran := ((layer v).attendEach requests (layer v).start).run .accepting .empty
    Variant.ofArgs (some (Bytes.ofText "url-nopad")) = .ok v ∧ Sink.accepting.TakesAll ∧
      ran.1.1 = requests.map (fun _ => .ok ()) ∧
      ran.2.held = Bytes.ofText "-__-_wAQID" ∧
      decode v (encode v [0xfb, 0xff, 0xfe, 0xff]) = some [0xfb, 0xff, 0xfe, 0xff] := by
  intro v requests ran
  have accepted : Variant.ofArgs (some (Bytes.ofText "url-nopad")) = .ok v := by decide +kernel
  obtain ⟨-, whole, cut⟩ := encodes_each_segment accepted Sink.takesAll_accepting .empty
  obtain ⟨answers, held⟩ := cut requests
  obtain ⟨-, -, -, decoded⟩ := whole [[0xfb, 0xff, 0xfe, 0xff]]
  exact ⟨accepted, Sink.takesAll_accepting, answers, held.trans (by decide +kernel), decoded⟩

end Base64

/-! ## Character data -/

namespace Layer

variable {fragments : Bytes → List Bytes}

theorem sends_attend_stateless (request : Request) (s : (stateless fragments).State) :
    ((stateless fragments).attend request s).Sends := by
  cases request with
  | write b =>
      apply Writing.sends_sendEach
      trivial
  | finalize => trivial

theorem delivery_attendEach_stateless {f : Bytes → Bytes} (nothing : f [] = [])
    (additive : ∀ x y, f (x ++ y) = f x ++ f y) (amount : ∀ x, (fragments x).flatten = f x)
    (writes : List Bytes) :
    ((stateless fragments).attendEach (writes.map .write) ()).delivery =
      ((writes.map fun _ => .ok (), ()), f writes.flatten) := by
  induction writes with
  | nil => rw [List.flatten_nil, nothing]; rfl
  | cons b rest ih =>
      have attended : ((stateless fragments).attend (.write b) ()).delivery =
          ((.ok (), ()), f b) := by
        change ((stateless fragments).write b ()).delivery = _
        rw [Writing.delivery, smooth_write_stateless, amount]
        rfl
      have step := delivery_attendEach_cons attended (rest.map .write)
      rw [ih] at step
      rw [List.flatten_cons, additive]
      exact step

end Layer

namespace CharacterData

/-- However its bytes are cut, each is replaced by itself. The bytes can be read back, so that they
are the only ones that look so. -/
theorem replaces_each_byte (keepLineBreaks : Bool) {sink : Sink} (takes : sink.TakesAll)
    (r : Sink.Record) :
    encoder (argsFor keepLineBreaks) = .ok (layer keepLineBreaks) ∧
    ∀ writes : List Bytes,
      let ran (writes : List Bytes) :=
        ((layer keepLineBreaks).attendEach (writes.map .write) (layer keepLineBreaks).start).run
          sink r
      let x := writes.flatten
      let replaced := x.flatMap (replacement keepLineBreaks)
      (ran writes).1.1 = writes.map (fun _ => .ok ()) ∧
        (ran writes).2.held = r.held ++ replaced ∧ decode replaced = x ∧
          ∀ others, (ran others).2.held = (ran writes).2.held → others.flatten = x := by
  have served (writes : List Bytes) :
      let ran := ((layer keepLineBreaks).attendEach (writes.map .write)
        (layer keepLineBreaks).start).run sink r
      ran.1.1 = writes.map (fun _ => .ok ()) ∧
        ran.2.held = r.held ++ writes.flatten.flatMap (replacement keepLineBreaks) := by
    have sends := Layer.sends_attendEach
      (@Layer.sends_attend_stateless (Substitution.fragments (reference keepLineBreaks)))
      (writes.map .write) ()
    obtain ⟨result, held⟩ := takes.run_of_sends sends r
    have delivered := Layer.delivery_attendEach_stateless rfl (Substitution.apply_append _)
      (Substitution.flatten_fragments (reference keepLineBreaks)) writes
    rw [delivered] at result held
    refine ⟨congrArg Prod.fst result, held.trans ?_⟩
    rw [← encode_eq]
    rfl
  refine ⟨encoder_argsFor keepLineBreaks, ?_⟩
  intro writes ran x replaced
  obtain ⟨answers, held⟩ := served writes
  refine ⟨answers, held, decode_flatMap keepLineBreaks x, ?_⟩
  intro others same
  have held' := (served others).2
  have equal : others.flatten.flatMap (replacement keepLineBreaks) = replaced :=
    List.append_cancel_left (held'.symm.trans (same.trans held))
  rw [← decode_flatMap keepLineBreaks others.flatten, equal, decode_flatMap]

/-- One write that looks like a reference, an empty one, and line breaks. -/
theorem replaces_each_byte_lookalike :
    let ran (keepLineBreaks : Bool) (writes : List Bytes) :=
      ((layer keepLineBreaks).attendEach (writes.map .write) (layer keepLineBreaks).start).run
        .accepting .empty
    let writes := [Bytes.ofText "a<&lt;\r", [], [0x1f], Bytes.ofText "\n&#7;"]
    Sink.accepting.TakesAll ∧
      (ran true writes).2.held = Bytes.ofText "a&lt;&amp;lt;\r&#31;\n&amp;#7;" ∧
      (ran false writes).2.held = Bytes.ofText "a&lt;&amp;lt;&#13;&#31;&#10;&amp;#7;" ∧
      decode (Bytes.ofText "a&lt;&amp;lt;&#13;&#31;&#10;&amp;#7;") = writes.flatten := by
  intro ran writes
  obtain ⟨-, kept⟩ := replaces_each_byte true Sink.takesAll_accepting .empty
  obtain ⟨-, replaced⟩ := replaces_each_byte false Sink.takesAll_accepting .empty
  obtain ⟨-, held, -, -⟩ := kept writes
  obtain ⟨-, held', decoded, -⟩ := replaced writes
  have text : writes.flatten.flatMap (replacement false) =
      Bytes.ofText "a&lt;&amp;lt;&#13;&#31;&#10;&amp;#7;" := by decide +kernel
  refine ⟨Sink.takesAll_accepting, held.trans (by decide +kernel), ?_, ?_⟩
  · exact held'.trans text
  · rw [← text]
    exact decoded

end CharacterData
end LayeredTemplate
