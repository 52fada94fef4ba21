import LayeredTemplate.Proofs.Boundaries
import LayeredTemplate.Proofs.Failures

/-! Text in, text out: the handlers that come with the library make texts of texts, so that an
expansion into a text never fails because its output is none. -/
namespace LayeredTemplate

open Utf8 (Valid valid_ofText valid_nil valid_of_ascii valid_flatten)

/-! ## Encodings of texts -/

theorem Base64.letter_lt (v : Variant) (n : Nat) : v.letter n < 0x80 := by
  have low (n : Nat) (small : n < 0x80) : UInt8.ofNat n < 0x80 := by
    rw [UInt8.lt_iff_toNat_lt, Utf8.toNat_ofNat (by omega)]
    exact small
  unfold Variant.letter
  split
  · exact low _ (by omega)
  split
  · exact low _ (by omega)
  split
  · exact low _ (by omega)
  split <;> split <;> decide

theorem Base64.padding_lt (v : Variant) (n : Nat) : ∀ b ∈ v.padding n, b < 0x80 := by
  unfold Variant.padding
  split
  · intro b hb
    rw [List.eq_of_mem_replicate hb]
    decide
  · exact List.forall_mem_nil _

theorem Base64.encode_lt (v : Variant) (x : Bytes) : ∀ b ∈ encode v x, b < 0x80 := by
  fun_induction encode v x with
  | case1 => exact List.forall_mem_nil _
  | case2 a =>
      simp only [List.forall_mem_append, List.forall_mem_cons]
      exact ⟨⟨letter_lt v _, letter_lt v _, List.forall_mem_nil _⟩, padding_lt v 2⟩
  | case3 a b =>
      simp only [List.forall_mem_append, List.forall_mem_cons]
      exact ⟨⟨letter_lt v _, letter_lt v _, letter_lt v _, List.forall_mem_nil _⟩, padding_lt v 1⟩
  | case4 a b c rest ih =>
      simp only [List.forall_mem_cons]
      exact ⟨letter_lt v _, letter_lt v _, letter_lt v _, letter_lt v _, ih⟩

theorem CharacterData.ascii_reference (keepLineBreaks : Bool) :
    Substitution.Ascii (reference keepLineBreaks) := by
  cases keepLineBreaks with
  | true => exact Substitution.ascii_of_each (by decide +kernel)
  | false => exact Substitution.ascii_of_each (by decide +kernel)

namespace Json

/-! ## JSON texts -/

theorem ascii_escape : Substitution.Ascii escape := Substitution.ascii_of_each (by decide +kernel)

theorem valid_quote (s : String) : Valid (quoteFragments s).flatten := by
  have inner : Valid (Substitution.fragments escape (Bytes.ofText s)).flatten := by
    rw [Substitution.flatten_fragments]
    exact Substitution.valid_apply ascii_escape (valid_ofText s)
  have mark : Valid [0x22] := valid_ofText "\""
  rw [quoteFragments, List.flatten_append, List.flatten_append, List.flatten_singleton]
  exact (mark.append inner).append mark

theorem valid_newline (layout : Layout) {before : Bytes} (h : Valid before) (level : Nat) :
    Valid (layout.newline before level).flatten := by
  cases layout with
  | compact =>
      simp only [Layout.newline]
      split
      · exact valid_nil
      · rw [List.flatten_singleton]
        exact h
  | pretty =>
      have blanks : ∀ part ∈ List.replicate level [0x20, 0x20], Valid part := by
        intro part listed
        rw [List.eq_of_mem_replicate listed]
        exact valid_ofText "  "
      rw [Layout.newline, List.flatten_cons]
      exact (h.append (valid_ofText "\n")).append (valid_flatten blanks)

theorem valid_separator (layout : Layout) (isFirst : Bool) (level : Nat) :
    Valid (layout.separator isFirst level).flatten := by
  apply valid_newline
  cases isFirst with
  | true => exact valid_nil
  | false => exact valid_ofText ","

theorem valid_enclosed (layout : Layout) (level : Nat) {opening closing : Bytes}
    {inner : List Bytes} (front : Valid opening) (content : Valid inner.flatten)
    (back : Valid closing) :
    Valid (opening :: (inner ++ (layout.newline [] level ++ [closing]))).flatten := by
  rw [List.flatten_cons, List.flatten_append, List.flatten_append, List.flatten_singleton]
  exact front.append (content.append ((valid_newline layout valid_nil level).append back))

mutual

theorem valid_fragments (layout : Layout) (level : Nat) :
    (j : Json) → Valid (fragments layout level j).flatten
  | .null => valid_flatten (List.forall_mem_singleton.2 (valid_ofText _))
  | .boolean _ => valid_flatten (List.forall_mem_singleton.2 (valid_ofText _))
  | .integer _ => valid_flatten (List.forall_mem_singleton.2 (valid_ofText _))
  | .float _ => valid_flatten (List.forall_mem_singleton.2 (valid_ofText _))
  | .text s => valid_quote s
  | .array [] => valid_ofText "[]"
  | .array (j :: rest) => by
      rw [fragments]
      · exact valid_enclosed layout level (valid_ofText "[")
          (valid_elementFragments layout (level + 1) true (j :: rest)) (valid_ofText "]")
      · exact List.cons_ne_nil j rest
  | .object [] => valid_ofText "\x7b\x7d"
  | .object (member :: rest) => by
      rw [fragments]
      · exact valid_enclosed layout level (valid_ofText "\x7b")
          (valid_memberFragments layout (level + 1) true (member :: rest)) (valid_ofText "\x7d")
      · exact List.cons_ne_nil member rest

theorem valid_elementFragments (layout : Layout) (level : Nat) :
    (isFirst : Bool) → (elements : List Json) →
      Valid (elementFragments layout level isFirst elements).flatten
  | _, [] => valid_nil
  | isFirst, j :: rest => by
      have front := valid_separator layout isFirst level
      have element := valid_fragments layout level j
      have later := valid_elementFragments layout level false rest
      rw [elementFragments, List.flatten_append, List.flatten_append]
      exact front.append (element.append later)

theorem valid_memberFragments (layout : Layout) (level : Nat) :
    (isFirst : Bool) → (members : List (String × Json)) →
      Valid (memberFragments layout level isFirst members).flatten
  | _, [] => valid_nil
  | isFirst, (key, j) :: rest => by
      have front := valid_separator layout isFirst level
      have colon : Valid layout.colon := by
        cases layout with
        | compact => exact valid_ofText ":"
        | pretty => exact valid_ofText ": "
      have value := valid_fragments layout level j
      have later := valid_memberFragments layout level false rest
      rw [memberFragments, List.flatten_append, List.flatten_append, List.flatten_cons,
        List.flatten_append]
      exact front.append ((valid_quote key).append (colon.append (value.append later)))

end

end Json

/-! ## Handlers -/

variable {ω : Type}

/-- Everything but a fault in the output, which no handler is to report. -/
def Failure.IsOwn : Failure → Prop
  | .invalidUtf8 _ => False
  | _ => True

theorem Failure.IsOrdinary.isOwn {e : Failure} (h : e.IsOrdinary) : e.IsOwn := by
  cases e with
  | invalidUtf8 fault => exact h
  | _ => trivial

open Failure (Within within_ok within_error)

/-- As long as nothing goes wrong, the head writes a text, or else it fails. -/
def Writing.OpensText (head : Writing (Except Failure Unit)) : Prop :=
  ∃ opened, head.Opens opened ∧ ∀ x ∈ opened, Valid x

/-- The value has no bytes of its own, or they are a text. -/
def Value.HoldsText (v : Value ω) : Prop := ∀ x ∈ v.content?, Valid x

def Layer.KeepsText (l : Layer) : Prop := ∃ f, l.Computes f ∧ ∀ x, Valid x → Valid (f x)

def Stack.KeepsText (layers : List Layer) : Prop :=
  ∃ f, Computes layers f ∧ ∀ x, Valid x → Valid (f x)

/-- The handler makes texts of texts. -/
def Handler.KeepsText : Handler ω → Prop
  | .formatter format => ∀ v args, v.HoldsText → (format v args).OpensText
  | .encoder build => ∀ args l, build args = .ok l → l.KeepsText

theorem Writing.opensText_error (e : Failure) : (done (.error e)).OpensText :=
  ⟨none, ⟨e, rfl⟩, fun _ none_there => by cases none_there⟩

theorem Value.opensText_writeRaw {v : Value ω} (h : v.HoldsText) : v.writeRaw.OpensText :=
  ⟨v.content?, v.opens_writeRaw, h⟩

theorem Json.keepsText_formatter :
    (Handler.formatter (Json.formatter : Formatter ω)).KeepsText := by
  intro v args _
  refine ⟨_, Expander.opens_formatter v args, ?_⟩
  intro x rendered
  obtain ⟨layout, -, rendered⟩ := Option.bind_eq_some_iff.1 rendered
  obtain ⟨document, -, rfl⟩ := Option.map_eq_some_iff.1 rendered
  exact valid_fragments layout 0 document

theorem Base64.keepsText_encoder : (Handler.encoder Base64.encoder : Handler ω).KeepsText := by
  intro args l built
  unfold Base64.encoder at built
  split at built <;> cases built
  exact ⟨_, computes_layer _, fun x _ => valid_of_ascii (encode_lt _ x)⟩

theorem CharacterData.keepsText_encoder :
    (Handler.encoder CharacterData.encoder : Handler ω).KeepsText := by
  have keeps (keepLineBreaks : Bool) : (layer keepLineBreaks).KeepsText :=
    ⟨_, computes_layer keepLineBreaks,
      fun _ h => Substitution.valid_apply (ascii_reference keepLineBreaks) h⟩
  intro args l built
  unfold CharacterData.encoder at built
  repeat' split at built
  all_goals cases built
  · exact keeps false
  · exact keeps true

theorem Vocabulary.IsBundled.keepsText {known : Vocabulary ω} (h : known.IsBundled)
    {name : String} {handler : Handler ω} (found : known.resolve name = some handler) :
    handler.KeepsText := by
  refine h.forall_handler ?_ Base64.keepsText_encoder Json.keepsText_formatter
    CharacterData.keepsText_encoder found
  rintro args l ⟨⟩
  exact ⟨id, Layer.computes_passthrough, fun _ h => h⟩

/-! ## Directives -/

namespace Stack

theorem keepsText_nil : KeepsText [] := by
  refine ⟨id, ⟨List.forall_mem_nil _, ?_⟩, fun _ h => h⟩
  intro received
  rfl

theorem KeepsText.cons {l : Layer} {layers : List Layer} (top : l.KeepsText)
    (below : KeepsText layers) : KeepsText (l :: layers) := by
  obtain ⟨g, own, keepsOwn⟩ := top
  obtain ⟨f, rest, keepsRest⟩ := below
  exact ⟨f ∘ g, rest.cons own, fun x h => keepsRest _ (keepsOwn x h)⟩

/-- A text passes through such layers as a text. -/
theorem KeepsText.opensText_pass {layers : List Layer} (below : KeepsText layers)
    {head : Writing (Except Failure Unit)} (h : head.OpensText) : (pass layers head).OpensText := by
  obtain ⟨f, computes, keeps⟩ := below
  obtain ⟨opened, opens, text⟩ := h
  have output := Expander.outputs_through computes opens (.start [] : Expander.Progress Unit)
  have same := congrArg Writing.delivery
    (Expander.map_unreported_through layers head (.start [] : Expander.Progress Unit))
  simp only [Writing.delivery, Writing.smooth_map, Prod.mk.injEq] at same
  obtain ⟨ends, sent⟩ := same
  have result := congrArg Prod.fst ends
  cases opened with
  | none =>
      obtain ⟨e, fails⟩ := output
      exact ⟨none, ⟨e, result.symm.trans fails⟩, fun _ none_there => by cases none_there⟩
  | some x =>
      obtain ⟨succeeds, -, arrived⟩ := output
      refine ⟨some (f x), ?_, ?_⟩
      · exact Prod.ext (result.symm.trans succeeds) (sent.symm.trans arrived)
      · rintro y ⟨⟩
        exact keeps x (text x rfl)

end Stack

namespace Expander

variable {known : Vocabulary ω}

theorem keepsText_layersOf (bundled : known.IsBundled) {encoders : List Stage} {layers : List Layer}
    (built : layersOf known encoders = .ok layers) : Stack.KeepsText layers := by
  induction encoders generalizing layers with
  | nil =>
      cases built
      exact Stack.keepsText_nil
  | cons stage rest ih =>
      obtain ⟨build, l, below, found, own, beneath, rfl⟩ := layersOf_cons_eq_ok built
      exact Stack.KeepsText.cons (bundled.keepsText found stage.args l own) (ih beneath)

/-- Served to a handler of the library, an argument that holds a text makes one. -/
theorem opensText_serve {handler : Handler ω} (keeps : handler.KeepsText) {layers : List Layer}
    (below : Stack.KeepsText layers) (args : Option Bytes) {v : Value ω} (text : v.HoldsText) :
    (serve handler args layers v).OpensText := by
  unfold serve
  cases handler with
  | formatter format => exact below.opensText_pass (keeps v args text)
  | encoder build =>
      simp only
      cases built : build args with
      | error e => exact Writing.opensText_error e
      | ok l =>
          exact (Stack.KeepsText.cons (keeps args l built) below).opensText_pass
            (Value.opensText_writeRaw text)

theorem opensText_perform (bundled : known.IsBundled) (d : Directive) {p : Progress ω}
    (text : p.draw.1.HoldsText) : ((perform known d p).map Prod.fst).OpensText := by
  cases d with
  | percent =>
      rw [perform, Writing.map_sendEach]
      refine ⟨some [Bytes.percent], rfl, ?_⟩
      rintro x ⟨⟩
      exact valid_ofText "%"
  | chain head encoders =>
      rw [map_fst_perform, ready]
      cases found : known.resolve head.name with
      | none => exact Writing.opensText_error _
      | some handler =>
          simp only
          cases built : layersOf known encoders with
          | error e => exact Writing.opensText_error e
          | ok layers =>
              exact opensText_serve (bundled.keepsText found) (keepsText_layersOf bundled built) _
                text

/-! ## Expansions -/

/-- No run fails because of its own output, from whatever source and into whatever sink. -/
theorem keeps_runFrom {expander : Expander ω} (bundled : expander.vocabulary.IsBundled)
    (x : List Template.Segment) (p : Progress ω) :
    (expander.runFrom x p).Keeps (fun _ => True) fun outcome =>
      Within Failure.IsOwn outcome.result := by
  have stop {e : Failure} (own : e.IsOwn) (p : Progress ω) :
      Within Failure.IsOwn (p.stop e).result := within_error own
  induction x generalizing p with
  | nil =>
      change Within Failure.IsOwn (p.finish expander.strict).result
      rw [result_finish, leftover]
      split
      · exact within_error trivial
      · exact within_ok
  | cons segment rest ih =>
      cases segment with
      | text b =>
          refine ⟨trivial, ?_⟩
          intro answer
          cases answer with
          | ok => exact ih p
          | error e => exact stop (e := .io e) trivial p
      | unclosed => exact stop (e := .incompleteDirective) trivial p
      | broken e => exact stop (e := .io e) trivial p
      | directive d =>
          apply (keeps_perform (fun _ h => h) bundled.failsWithin d p).of_map.bind
          rintro ⟨result, q⟩ ordinary
          cases result with
          | ok => exact ih q
          | error e => exact stop (ordinary e rfl).isOwn q

theorem holdsText_draw {args : List (Value ω)} (texts : ∀ v ∈ args, v.HoldsText) :
    (Progress.start args).draw.1.HoldsText := by
  cases args with
  | nil =>
      intro x absent
      cases absent
  | cons v rest => exact texts v List.mem_cons_self

/-- A directive that succeeds has written a text, and the arguments that it leaves hold texts. -/
theorem direct_text {known : Vocabulary ω} (bundled : known.IsBundled) (d : Directive)
    {args : List (Value ω)} (texts : ∀ v ∈ args, v.HoldsText) {waiting : List (Value ω)}
    (succeeds : (direct known d args).ending = .ok waiting) :
    Valid (direct known d args).output ∧ ∀ v ∈ waiting, v.HoldsText := by
  obtain ⟨opened, opens, text⟩ :=
    opensText_perform bundled d (holdsText_draw texts)
  have left := waiting_perform known d (.start args)
  have course : direct known d args =
      ⟨(perform known d (.start args)).smooth.2.flatten,
        (perform known d (.start args)).smooth.1.1.map
          fun _ => (perform known d (.start args)).smooth.1.2.waiting⟩ := rfl
  rw [course] at succeeds ⊢
  cases opened with
  | none =>
      obtain ⟨e, fails⟩ := opens
      simp only [Writing.smooth_map] at fails
      rw [fails] at succeeds
      cases succeeds
  | some y =>
      simp only [Writing.Opens, Writing.delivery, Writing.smooth_map, Prod.mk.injEq] at opens
      obtain ⟨ends, sent⟩ := opens
      rw [ends] at succeeds
      cases succeeds
      refine ⟨sent ▸ text y rfl, ?_⟩
      intro v listed
      rw [left ends] at listed
      exact texts v (List.mem_of_mem_drop listed)

/-- As far as a walk succeeds, its output is a text. -/
theorem walk_text {known : Vocabulary ω} (bundled : known.IsBundled) {x : List Template.Segment}
    (literals : ∀ b, .text b ∈ x → Valid b) {args : List (Value ω)}
    (texts : ∀ v ∈ args, v.HoldsText) {waiting : List (Value ω)}
    (succeeds : (walk known x args).ending = .ok waiting) : Valid (walk known x args).output := by
  induction x generalizing args with
  | nil => exact valid_nil
  | cons segment rest ih =>
      have later : ∀ b, .text b ∈ rest → Valid b :=
        fun b listed => literals b (List.mem_cons_of_mem _ listed)
      cases segment with
      | text b => exact (literals b List.mem_cons_self).append (ih later texts succeeds)
      | directive d =>
          rw [walk] at succeeds ⊢
          cases ending : (direct known d args).ending with
          | error e =>
              rw [Course.next_of_error ending] at succeeds
              cases succeeds
          | ok left =>
              rw [Course.next_of_ok ending] at succeeds ⊢
              obtain ⟨front, texts⟩ := direct_text bundled d texts ending
              exact front.append (ih later texts succeeds)
      | unclosed => cases succeeds
      | broken e => cases succeeds

/-- Text in, text out. With the handlers of the library alone, a template that is a text and
arguments that hold none but texts, expanding into a text never finds a fault in the output: it
gives the output where expanding into bytes does, and fails with the same where that fails. Each
name in the template is read as it is spelled. -/
theorem expandText_of_texts (expander : Expander ω)
    (bundled : expander.vocabulary.IsBundled) {s : Source} {template : String}
    (delivers : s.Delivers (Bytes.ofText template)) {args : List (Value ω)}
    (texts : ∀ v ∈ args, v.HoldsText) :
    (match (expander.expandBytes s args).2 with
      | .ok output => ∃ u : String, output = Bytes.ofText u ∧ (expander.expandText s args).2 = .ok u
      | .error e => (∀ fault, e ≠ .invalidUtf8 fault) ∧
          (expander.expandText s args).2 = .error e) ∧
    (Template.joined [] (Template.read s)).filterMap Template.Segment.directive? =
      (Template.bodies (Bytes.ofText template)).map Directive.parse ∧
    ∀ body ∈ Template.bodies (Bytes.ofText template), ∀ part ∈ Escape.split Bytes.bar body,
      Bytes.ofText (Stage.parse part).name =
        Escape.resolve (Escape.splitFirst Bytes.colon part).1 := by
  have valid := valid_ofText template
  have read := Template.joined_read delivers
  refine ⟨?_, ?_, ?_⟩
  · obtain ⟨held, result⟩ := run_expand_walk expander
      (read.trans (Template.joined_segments _).symm) args .empty
    have allowed := (keeps_runFrom bundled (Template.read s) (.start args)).run_ends
      .accepting .empty
    rw [← expand_eq_runFrom] at allowed
    have text {left : List (Value ω)}
        (succeeds : (walk expander.vocabulary _ args).ending = .ok left) :=
      walk_text bundled (Template.valid_segments valid).1 texts succeeds
    simp only [expandText, expandBytes]
    generalize (expander.expand s args).run .accepting .empty = done at held result allowed ⊢
    obtain ⟨outcome, record⟩ := done
    cases ended : outcome.result with
    | error e =>
        refine ⟨?_, rfl⟩
        rintro fault rfl
        exact allowed _ ended
    | ok =>
        simp only [ended] at result
        cases ending : (walk expander.vocabulary
            (Template.segments (Bytes.ofText template)) args).ending with
        | error e =>
            rw [ending] at result
            cases result
        | ok left =>
            obtain ⟨u, spelled⟩ := text ending
            have output : record.held = Bytes.ofText u := held.trans spelled
            refine ⟨u, output, ?_⟩
            simp only [Except.map, Except.bind, output, Utf8.decode_ofText]
            rfl
  · rw [read]
    exact Template.directives_eq _
  · intro body listed part stage
    exact Template.ofText_name_parse valid listed stage

/-- The source is cut inside a character that a backslash stands before, and so is the value that is
read. -/
theorem expandText_of_texts_cut_apart :
    let template := "\\é%json|cdata;—%R\\AW|base64;%\\RAW;"
    let s := Source.ofEvents [.chunk [0x5c, 0xc3], .interrupted, .chunk [0xa9],
      .chunk (Bytes.ofText "%json|cdata;—%R\\AW|base64;%\\RAW;")]
    let args : List (Value Unit) := [.text "<ß>", .bytes (Bytes.ofText "…"),
      .reader (.ofEvents [.chunk [0xc3], .interrupted, .chunk [0xbc]])]
    (withDefaults : Expander Unit).vocabulary.IsBundled ∧ s.Delivers (Bytes.ofText template) ∧
      (∀ v ∈ args, v.HoldsText) ∧
      (withDefaults.expandText s args).2 = .ok "é&quot;&lt;ß&gt;&quot;—4oCmü" ∧
      ∀ body ∈ ["json|cdata", "R\\AW|base64", "\\RAW"].map Bytes.ofText,
        ∀ part ∈ Escape.split Bytes.bar body, Bytes.ofText (Stage.parse part).name =
          Escape.resolve (Escape.splitFirst Bytes.colon part).1 := by
  intro template s args
  have bundled : (withDefaults : Expander Unit).vocabulary.IsBundled :=
    Vocabulary.isBundled_withDefaults
  have delivers : s.Delivers (Bytes.ofText template) := by decide +kernel
  have read : (.reader (.ofEvents [.chunk [0xc3], .interrupted, .chunk [0xbc]]) :
      Value Unit).content? = some (Bytes.ofText "ü") := by decide +kernel
  have texts : ∀ v ∈ args, v.HoldsText := by
    simp only [args, List.forall_mem_cons, Value.HoldsText, read]
    refine ⟨?_, ?_, ?_, List.forall_mem_nil _⟩
    · rintro x ⟨⟩
      exact valid_ofText _
    · rintro x ⟨⟩
      exact valid_ofText _
    · rintro x ⟨⟩
      exact valid_ofText _
  have ran : (withDefaults.expandBytes s args).2 =
      .ok (Bytes.ofText "é&quot;&lt;ß&gt;&quot;—4oCmü") := by decide +kernel
  have found : Template.bodies (Bytes.ofText template) =
      ["json|cdata", "R\\AW|base64", "\\RAW"].map Bytes.ofText := by decide +kernel
  obtain ⟨output, -, names⟩ := expandText_of_texts withDefaults bundled delivers texts
  rw [ran] at output
  obtain ⟨u, spelled, result⟩ := output
  rw [Utf8.ofText_injective spelled.symm] at result
  rw [found] at names
  exact ⟨bundled, delivers, texts, result, names⟩

end Expander
end LayeredTemplate
