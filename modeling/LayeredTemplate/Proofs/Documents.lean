import LayeredTemplate.Json.Format
import LayeredTemplate.Proofs.Lexemes
import LayeredTemplate.Proofs.Protection

/-! What the formatter writes denotes the value: read as JSON, either layout gives back the document
that the value stands for, with all keys and elements in their order. Floating-point numbers are
left out. -/
namespace LayeredTemplate

namespace Json

variable {b : UInt8} {x y rest : Bytes} {layout : Layout} {level fuel : Nat}

/-! ## Containers as they begin -/

theorem readValue_array (inhabited : ∀ y, skipBlanks x ≠ 0x5d :: y) :
    readValue (fuel + 1) (0x5b :: x) =
      (readElements fuel x).map fun (elements, rest) => (.array elements, rest) := by
  rw [readValue, skipBlanks_cons rfl]
  -- what is not the closing bracket falls to the second case
  simp only

theorem readValue_object (inhabited : ∀ y, skipBlanks x ≠ 0x7d :: y) :
    readValue (fuel + 1) (0x7b :: x) =
      (readMembers fuel x).map fun (members, rest) => (.object members, rest) := by
  rw [readValue, skipBlanks_cons rfl]
  simp only

/-! ## Layouts -/

theorem blanks_newline (layout : Layout) (level : Nat) :
    ∀ b ∈ (layout.newline [] level).flatten, isBlank b := by
  cases layout with
  | compact => exact List.forall_mem_nil _
  | pretty =>
      simp only [Layout.newline, List.flatten_cons, List.nil_append, List.singleton_append,
        List.forall_mem_cons]
      refine ⟨rfl, ?_⟩
      intro b listed
      obtain ⟨part, replicated, inside⟩ := List.mem_flatten.1 listed
      rw [List.eq_of_mem_replicate replicated] at inside
      simp only [List.mem_cons, List.not_mem_nil, or_false, or_self] at inside
      rw [inside]
      rfl

theorem flatten_separator (layout : Layout) (level : Nat) :
    (layout.separator false level).flatten = 0x2c :: (layout.separator true level).flatten := by
  cases layout <;> rfl

theorem exists_colon (layout : Layout) :
    ∃ blanks, layout.colon = 0x3a :: blanks ∧ ∀ b ∈ blanks, isBlank b := by
  cases layout with
  | compact => exact ⟨[], rfl, List.forall_mem_nil _⟩
  | pretty => exact ⟨[0x20], rfl, List.forall_mem_singleton.2 rfl⟩

theorem closed_blanks (blanks : ∀ b ∈ x, isBlank b) (closed : Closed rest) :
    Closed (x ++ rest) := by
  cases x with
  | nil => exact closed
  | cons b x => exact closed_cons (.inl (List.forall_mem_cons.1 blanks).1)

/-! ## Documents -/

/-- A text that neither begins nor ends with a blank. In front of whatever may stand behind a value
it is read as the document, with two units of fuel for each byte. -/
structure Spells (x : Bytes) (j : Json) : Prop where
  front : ∃ b tail, x = b :: tail ∧ isBlank b = false ∧ b ≠ 0x5d
  back : ∃ init b, x = init ++ [b] ∧ isBlank b = false
  reads : ∀ {fuel : Nat} {rest : Bytes}, 2 * x.length ≤ fuel → Closed rest →
    readValue fuel (x ++ rest) = some (j, rest)

/-- Since there is a first byte, there is fuel. -/
theorem spells_of_succ {j : Json} (front : ∃ b tail, x = b :: tail ∧ isBlank b = false ∧ b ≠ 0x5d)
    (back : ∃ init b, x = init ++ [b] ∧ isBlank b = false)
    (reads : ∀ fuel rest, 2 * x.length ≤ fuel + 1 → Closed rest →
      readValue (fuel + 1) (x ++ rest) = some (j, rest)) : Spells x j where
  front := front
  back := back
  reads := by
    intro fuel rest enough closed
    obtain ⟨b, tail, rfl, -⟩ := front
    cases fuel with
    | zero => simp only [List.length_cons] at enough; omega
    | succ fuel => exact reads fuel rest enough closed

theorem spells_null : Spells (Bytes.ofText "null") .null :=
  spells_of_succ ⟨_, _, rfl, rfl, by decide⟩ ⟨Bytes.ofText "nul", _, rfl, rfl⟩
    fun _ _ _ _ => rfl

theorem spells_boolean (b : Bool) :
    Spells (Bytes.ofText (if b then "true" else "false")) (.boolean b) := by
  cases b with
  | true =>
      exact spells_of_succ ⟨_, _, rfl, rfl, by decide⟩ ⟨Bytes.ofText "tru", _, rfl, rfl⟩
        fun _ _ _ _ => rfl
  | false =>
      exact spells_of_succ ⟨_, _, rfl, rfl, by decide⟩ ⟨Bytes.ofText "fals", _, rfl, rfl⟩
        fun _ _ _ _ => rfl

theorem spells_text (s : String) : Spells (quoteFragments s).flatten (.text s) := by
  refine spells_of_succ ?_ ?_ fun fuel rest _ _ => readValue_text s rest
  · exact ⟨_, _, flatten_quote s, rfl, by decide⟩
  · exact ⟨0x22 :: Substitution.apply escape (Bytes.ofText s), 0x22, flatten_quote s, rfl⟩

theorem spells_integer (n : Int) : Spells (Bytes.ofText (toString n)) (.integer n) := by
  obtain ⟨b, tail, front, begins⟩ := front_toString n
  obtain ⟨init, c, back, digit⟩ := back_toString n
  have each : ∀ b, isDigit b ∨ b = 0x2d → isBlank b = false ∧ b ≠ 0x5d :=
    Bytes.forall_of_each (by decide +kernel)
  refine spells_of_succ ⟨b, tail, front, each b begins⟩ ⟨init, c, back, (each c (.inl digit)).1⟩ ?_
  intro fuel rest _ closed
  have read := readNumber_toString n closed
  rw [front, List.cons_append] at read ⊢
  rw [readValue_number begins, read]

/-! ## Arrays and objects -/

theorem flatten_elements (layout : Layout) (level : Nat) (j : Json) (elements : List Json) :
    (elementFragments layout level true (j :: elements)).flatten =
      (layout.newline [] level).flatten ++ ((fragments layout level j).flatten ++
        (elementFragments layout level false elements).flatten) := by
  rw [elementFragments, List.flatten_append, List.flatten_append]
  rfl

theorem flatten_later_elements (layout : Layout) (level : Nat) (j : Json) (elements : List Json) :
    (elementFragments layout level false (j :: elements)).flatten =
      0x2c :: (elementFragments layout level true (j :: elements)).flatten := by
  simp only [elementFragments, List.flatten_append, flatten_separator, List.cons_append]

theorem flatten_members (layout : Layout) (level : Nat) (key : String) (j : Json)
    (members : List (String × Json)) :
    (memberFragments layout level true ((key, j) :: members)).flatten =
      (layout.newline [] level).flatten ++ ((quoteFragments key).flatten ++ (layout.colon ++
        ((fragments layout level j).flatten ++
          (memberFragments layout level false members).flatten))) := by
  rw [memberFragments, List.flatten_append, List.flatten_append, List.flatten_cons,
    List.flatten_append]
  rfl

theorem flatten_later_members (layout : Layout) (level : Nat) (member : String × Json)
    (members : List (String × Json)) :
    (memberFragments layout level false (member :: members)).flatten =
      0x2c :: (memberFragments layout level true (member :: members)).flatten := by
  simp only [memberFragments, List.flatten_append, flatten_separator, List.cons_append]

theorem readElements_flatten {elements : List Json} (nonempty : elements ≠ [])
    (each : ∀ j ∈ elements, Spells (fragments layout level j).flatten j)
    (blanks : ∀ b ∈ x, isBlank b) (rest : Bytes)
    (enough : 2 * (elementFragments layout level true elements).flatten.length + 1 ≤ fuel) :
    readElements fuel ((elementFragments layout level true elements).flatten ++
      (x ++ 0x5d :: rest)) = some (elements, rest) := by
  induction elements generalizing fuel with
  | nil => exact absurd rfl nonempty
  | cons j elements ih =>
      obtain ⟨first, later⟩ := List.forall_mem_cons.1 each
      rw [flatten_elements] at enough ⊢
      simp only [List.length_append] at enough
      cases fuel with
      | zero => cases enough
      | succ fuel =>
          rw [readElements, List.append_assoc, List.append_assoc,
            readValue_blanks (blanks_newline layout level)]
          cases elements with
          | nil =>
              rw [elementFragments, List.flatten_nil, List.nil_append]
              rw [first.reads (by omega) (closed_blanks blanks (closed_cons (by decide)))]
              simp only [Option.bind_eq_bind, Option.bind_some]
              rw [skipBlanks_blanks blanks, skipBlanks_cons (by decide)]
              rfl
          | cons k elements =>
              rw [flatten_later_elements] at enough ⊢
              rw [List.length_cons] at enough
              rw [List.cons_append, first.reads (by omega) (closed_cons (by decide))]
              simp only [Option.bind_eq_bind, Option.bind_some]
              rw [skipBlanks_cons (by decide)]
              simp only
              rw [ih (List.cons_ne_nil k elements) later (by omega)]
              rfl

theorem readMembers_flatten {members : List (String × Json)} (nonempty : members ≠ [])
    (each : ∀ member ∈ members, Spells (fragments layout level member.2).flatten member.2)
    (blanks : ∀ b ∈ x, isBlank b) (rest : Bytes)
    (enough : 2 * (memberFragments layout level true members).flatten.length + 1 ≤ fuel) :
    readMembers fuel ((memberFragments layout level true members).flatten ++
      (x ++ 0x7d :: rest)) = some (members, rest) := by
  induction members generalizing fuel with
  | nil => exact absurd rfl nonempty
  | cons member members ih =>
      obtain ⟨key, j⟩ := member
      obtain ⟨first, later⟩ := List.forall_mem_cons.1 each
      change Spells (fragments layout level j).flatten j at first
      obtain ⟨gap, colon, gapBlank⟩ := exists_colon layout
      rw [flatten_members, flatten_quote, colon] at enough ⊢
      simp only [List.length_append, List.length_cons] at enough
      cases fuel with
      | zero => cases enough
      | succ fuel =>
          simp only [List.append_assoc, List.cons_append, List.nil_append]
          rw [readMembers, skipBlanks_blanks (blanks_newline layout level),
            skipBlanks_cons (by decide)]
          simp only
          rw [readText_quote]
          simp only [Option.bind_eq_bind, Option.bind_some]
          rw [skipBlanks_cons (by decide)]
          simp only
          rw [readValue_blanks gapBlank]
          cases members with
          | nil =>
              rw [memberFragments, List.flatten_nil, List.nil_append]
              rw [first.reads (by omega) (closed_blanks blanks (closed_cons (by decide)))]
              simp only [Option.bind_some]
              rw [skipBlanks_blanks blanks, skipBlanks_cons (by decide)]
              rfl
          | cons next members =>
              rw [flatten_later_members] at enough ⊢
              rw [List.length_cons] at enough
              rw [List.cons_append, first.reads (by omega) (closed_cons (by decide))]
              simp only [Option.bind_some]
              rw [skipBlanks_cons (by decide)]
              simp only
              rw [ih (List.cons_ne_nil next members) later (by omega)]
              rfl

theorem flatten_enclosed (first last : UInt8) (inner : List Bytes) :
    ([first] :: (inner ++ (layout.newline [] level ++ [[last]]))).flatten =
      first :: (inner.flatten ++ ((layout.newline [] level).flatten ++ [last])) := by
  simp only [List.flatten_cons, List.flatten_append, List.flatten_nil, List.append_nil]
  rfl

/-- Brackets around what they enclose, with blanks before the closing one. -/
theorem spells_enclosed {first last : UInt8} {inner gap : Bytes} {j : Json}
    (opening : isBlank first = false ∧ first ≠ 0x5d) (closing : isBlank last = false)
    (reads : ∀ fuel rest, 2 * inner.length + 1 ≤ fuel →
      readValue (fuel + 1) (first :: (inner ++ (gap ++ last :: rest))) = some (j, rest)) :
    Spells (first :: (inner ++ (gap ++ [last]))) j := by
  refine spells_of_succ ⟨first, _, rfl, opening⟩ ⟨first :: (inner ++ gap), last, ?_, closing⟩ ?_
  · rw [List.cons_append, List.append_assoc]
  · intro fuel rest enough _
    have size : 2 * inner.length + 1 ≤ fuel := by
      simp only [List.length_cons, List.length_append] at enough
      omega
    have read := reads fuel rest size
    simpa only [List.cons_append, List.append_assoc, List.nil_append] using read

theorem spells_array {elements : List Json}
    (each : ∀ j ∈ elements, Spells (fragments layout (level + 1) j).flatten j) :
    Spells (fragments layout level (.array elements)).flatten (.array elements) := by
  cases elements with
  | nil =>
      exact spells_of_succ ⟨0x5b, [0x5d], rfl, rfl, by decide⟩ ⟨[0x5b], 0x5d, rfl, rfl⟩
        fun _ _ _ _ => rfl
  | cons j elements =>
      have nonempty := List.cons_ne_nil j elements
      rw [fragments, flatten_enclosed]
      · apply spells_enclosed ⟨rfl, by decide⟩ rfl
        intro fuel rest enough
        have inner := readElements_flatten nonempty each (blanks_newline layout level) rest enough
        rw [readValue_array, inner]
        · rfl
        · -- the first element does not begin with the closing bracket
          obtain ⟨b, tail, front, visible, other⟩ := (each j List.mem_cons_self).front
          intro y
          rw [flatten_elements, List.append_assoc, skipBlanks_blanks (blanks_newline _ _), front,
            List.append_assoc, List.cons_append, skipBlanks_cons visible]
          intro same
          exact other (List.cons.inj same).1
      · exact nonempty

theorem spells_object {members : List (String × Json)}
    (each : ∀ member ∈ members, Spells (fragments layout (level + 1) member.2).flatten member.2) :
    Spells (fragments layout level (.object members)).flatten (.object members) := by
  cases members with
  | nil =>
      exact spells_of_succ ⟨0x7b, [0x7d], rfl, rfl, by decide⟩ ⟨[0x7b], 0x7d, rfl, rfl⟩
        fun _ _ _ _ => rfl
  | cons member members =>
      have nonempty := List.cons_ne_nil member members
      rw [fragments, flatten_enclosed]
      · apply spells_enclosed ⟨rfl, by decide⟩ rfl
        intro fuel rest enough
        have inner := readMembers_flatten nonempty each (blanks_newline layout level) rest enough
        rw [readValue_object, inner]
        · rfl
        · intro y
          rw [flatten_members, List.append_assoc, flatten_quote,
            skipBlanks_blanks (blanks_newline _ _), List.append_assoc, List.cons_append,
            skipBlanks_cons rfl]
          intro same
          cases same
      · exact nonempty

/-- A document without floating-point numbers. -/
inductive Exact : Json → Prop
  | null : Exact .null
  | boolean (b : Bool) : Exact (.boolean b)
  | integer (n : Int) : Exact (.integer n)
  | text (s : String) : Exact (.text s)
  | array {elements : List Json} (each : ∀ j ∈ elements, Exact j) : Exact (.array elements)
  | object {members : List (String × Json)} (each : ∀ member ∈ members, Exact member.2) :
      Exact (.object members)

theorem Exact.spells {j : Json} (exact : Exact j) (layout : Layout) (level : Nat) :
    Spells (fragments layout level j).flatten j := by
  induction exact generalizing level with
  | null =>
      rw [fragments, List.flatten_singleton]
      exact spells_null
  | boolean b =>
      rw [fragments, List.flatten_singleton]
      exact spells_boolean b
  | integer n =>
      rw [fragments, List.flatten_singleton]
      exact spells_integer n
  | text s => exact spells_text s
  | array _ ih => exact spells_array fun j listed => ih j listed (level + 1)
  | object _ ih => exact spells_object fun member listed => ih member listed (level + 1)

/-- Neither the first byte nor the last is a blank. -/
def Trimmed (x : Bytes) : Prop :=
  (∀ b ∈ x.head?, isBlank b = false) ∧ ∀ b ∈ x.getLast?, isBlank b = false

theorem Spells.trimmed {j : Json} (h : Spells x j) : Trimmed x := by
  constructor
  · obtain ⟨b, tail, rfl, visible, -⟩ := h.front
    rintro b ⟨⟩
    exact visible
  · obtain ⟨init, b, rfl, visible⟩ := h.back
    rw [List.getLast?_concat]
    rintro b ⟨⟩
    exact visible

theorem Spells.read {j : Json} (h : Spells x j) : read x = some j := by
  have closed : Closed [] := by
    rintro b ⟨⟩
  have whole := h.reads (Nat.le_succ (2 * x.length)) closed
  rw [List.append_nil] at whole
  rw [Json.read, whole]
  rfl

end Json

/-! ## Values -/

variable {ω : Type}

/-- The document that a value is to be written as, if there is no floating-point number in it. -/
inductive Value.StandsFor : Value ω → Json → Prop
  | text (s : String) : StandsFor (.text s) (.text s)
  | bytes (x : Bytes) : StandsFor (.bytes x) (.array (x.map fun b => .integer b.toNat))
  | integer (n : Int) : StandsFor (.integer n) (.integer n)
  | unsigned (n : Nat) : StandsFor (.unsigned n) (.integer n)
  | boolean (b : Bool) : StandsFor (.boolean b) (.boolean b)
  | json {document : Json} (exact : document.Exact) : StandsFor (.json document) document

namespace Value.StandsFor

variable {v : Value ω} {document : Json}

theorem ofValue? (h : v.StandsFor document) : Json.ofValue? v = some document := by
  cases h <;> rfl

theorem exact (h : v.StandsFor document) : document.Exact := by
  cases h with
  | text s => exact .text s
  | bytes x =>
      refine .array ?_
      intro j listed
      obtain ⟨b, -, rfl⟩ := List.mem_map.1 listed
      exact .integer _
  | integer n | unsigned n => exact .integer _
  | boolean b => exact .boolean b
  | json exact => exact exact

end Value.StandsFor

namespace Json

/-- A value without floating-point numbers is written, in either layout, as a text without blanks
around it, and the text is read back as the document that the value stands for. -/
theorem formatter_denotes {v : Value ω} {document : Json} (stands : v.StandsFor document)
    (args : Option Bytes)
    (given : args ∈ [none, some (Bytes.ofText "compact"), some (Bytes.ofText "pretty")]) :
    ∃ text, read text = some document ∧ Trimmed text ∧ ∀ (sink : Sink) (r : Sink.Record),
      let ran := (formatter v args).run sink r
      (ran.1 = .ok () → ran.2.held = r.held ++ text) ∧ (sink.TakesAll → ran.1 = .ok ()) := by
  have accepted : ∃ layout, Layout.ofArgs args = .ok layout := by
    simp only [List.mem_cons, List.not_mem_nil, or_false] at given
    rcases given with rfl | rfl | rfl
    · exact ⟨.compact, rfl⟩
    · exact ⟨.compact, rfl⟩
    · exact ⟨.pretty, rfl⟩
  obtain ⟨layout, accepted⟩ := accepted
  have spells := stands.exact.spells layout 0
  refine ⟨_, spells.read, spells.trimmed, ?_⟩
  intro sink r ran
  have writes : formatter v args = .sendEach (fun e => .error (.io e)) (.done (.ok ()))
      (fragments layout 0 document) := by
    simp only [formatter, accepted, stands.ofValue?]
  simp only [ran, writes]
  constructor
  · apply Writing.held_of_sendEach
    intro e same
    cases same
  intro takes
  obtain ⟨after, ends, -⟩ := takes.run_sendEach (fun e => Except.error (Failure.io e))
    (.done (.ok ())) (fragments layout 0 document) r
  rw [ends]
  rfl

/-- Empty and nested containers, an empty key, control characters and the ends of both ranges. -/
theorem formatter_denotes_nested :
    let document : Json := .object [("", .array []), ("k\"\n", .array [.object [],
      .integer 18446744073709551615, .object [("\\", .integer (-9223372036854775808))]]),
      ("/é", .text "\x1f,]")]
    let v : Value Unit := .json document
    let compact := Bytes.ofText ("\x7b\"\":[],\"k\\\"\\n\":[\x7b\x7d,18446744073709551615," ++
      "\x7b\"\\\\\":-9223372036854775808\x7d],\"/é\":\"\\u001f,]\"\x7d")
    let pretty := Bytes.ofText ("\x7b\n  \"\": [],\n  \"k\\\"\\n\": [\n    \x7b\x7d,\n" ++
      "    18446744073709551615,\n    \x7b\n      \"\\\\\": -9223372036854775808\n" ++
      "    \x7d\n  ],\n  \"/é\": \"\\u001f,]\"\n\x7d")
    v.StandsFor document ∧ Sink.accepting.TakesAll ∧
      ((formatter v none).run .accepting .empty).2.held = compact ∧
      ((formatter v (some (Bytes.ofText "pretty"))).run .accepting .empty).2.held = pretty ∧
      (read compact = some document ∧ Trimmed compact) ∧
      read pretty = some document ∧ Trimmed pretty := by
  intro document v compact pretty
  have stands : v.StandsFor document := by
    refine .json (.object ?_)
    simp only [List.forall_mem_cons, List.not_mem_nil, false_implies, implies_true, and_true]
    refine ⟨.array (List.forall_mem_nil _), .array ?_, .text _⟩
    simp only [List.forall_mem_cons, List.not_mem_nil, false_implies, implies_true, and_true]
    refine ⟨.object (List.forall_mem_nil _), .integer _, .object ?_⟩
    exact List.forall_mem_singleton.2 (.integer _)
  have compactly : ((formatter v none).run .accepting .empty).2.held = compact := by
    decide +kernel
  have prettily : ((formatter v (some (Bytes.ofText "pretty"))).run .accepting .empty).2.held =
      pretty := by decide +kernel
  refine ⟨stands, Sink.takesAll_accepting, compactly, prettily, ?_, ?_⟩
  · obtain ⟨text, denotes, trimmed, written⟩ := formatter_denotes stands none (by simp)
    obtain ⟨whole, succeeds⟩ := written .accepting .empty
    have same := whole (succeeds Sink.takesAll_accepting)
    rw [compactly] at same
    rw [same]
    exact ⟨denotes, trimmed⟩
  · obtain ⟨text, denotes, trimmed, written⟩ :=
      formatter_denotes stands (some (Bytes.ofText "pretty")) (by simp)
    obtain ⟨whole, succeeds⟩ := written .accepting .empty
    have same := whole (succeeds Sink.takesAll_accepting)
    rw [prettily] at same
    rw [same]
    exact ⟨denotes, trimmed⟩

end Json
end LayeredTemplate
