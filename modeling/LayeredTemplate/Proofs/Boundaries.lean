import LayeredTemplate.Proofs.Concatenation
import LayeredTemplate.Proofs.Encoding
import LayeredTemplate.Proofs.Rendering

/-! Texts are cut as bytes, and their parts are texts. A byte below `0x80` is a character by itself
and no part of another one, so that dropping a backslash or cutting at a delimiter leaves whole
characters on both sides. -/
namespace LayeredTemplate

/-- What holds of the numbers of all bytes holds of all bytes. -/
theorem Bytes.forall_of_each {p : UInt8 → Prop} (each : ∀ n < 256, p (.ofNat n)) (b : UInt8) :
    p b := by
  have same := each b.toNat b.toNat_lt
  rwa [UInt8.ofNat_toNat] at same

namespace Utf8

open Bytes (backslash)
open Escape (Protects resolve splitFirst)

variable {u x y : Bytes} {b delim : UInt8} {special : UInt8 → Prop}

/-! ## Characters -/

/-- The bytes of one character. -/
def Character (u : Bytes) : Prop := ∃ c, u = String.utf8EncodeChar c

theorem character_singleton (ascii : b < 0x80) : Character [b] := by
  have each : ∀ b < 0x80, [b] = String.utf8EncodeChar (Char.ofNat b.toNat) :=
    Bytes.forall_of_each (by decide +kernel)
  exact ⟨_, each b ascii⟩

/-- A character has a single byte below `0x80`, or otherwise none. -/
theorem Character.cases (h : Character u) :
    (∃ b < 0x80, u = [b]) ∨ u ≠ [] ∧ ∀ b ∈ u, 0x80 ≤ b := by
  have high (n : Nat) (low : 0x80 ≤ n) (small : n < 0x100) : 0x80 ≤ UInt8.ofNat n := by
    rw [UInt8.le_iff_toNat_le, toNat_ofNat small]
    exact low
  obtain ⟨c, rfl⟩ := h
  unfold String.utf8EncodeChar
  simp only
  by_cases one : c.val.toNat ≤ 0x7f
  · rw [if_pos one]
    refine .inl ⟨_, ?_, rfl⟩
    rw [UInt8.lt_iff_toNat_lt, toNat_ofNat (by omega)]
    exact Nat.lt_succ_of_le one
  right
  rw [if_neg one]
  by_cases two : c.val.toNat ≤ 0x7ff
  · rw [if_pos two]
    refine ⟨List.cons_ne_nil _ _, ?_⟩
    simp only [List.forall_mem_cons, List.not_mem_nil, false_implies, implies_true, and_true]
    exact ⟨high _ (by omega) (by omega), high _ (by omega) (by omega)⟩
  rw [if_neg two]
  by_cases three : c.val.toNat ≤ 0xffff
  · rw [if_pos three]
    refine ⟨List.cons_ne_nil _ _, ?_⟩
    simp only [List.forall_mem_cons, List.not_mem_nil, false_implies, implies_true, and_true]
    exact ⟨high _ (by omega) (by omega), high _ (by omega) (by omega), high _ (by omega) (by omega)⟩
  · rw [if_neg three]
    refine ⟨List.cons_ne_nil _ _, ?_⟩
    simp only [List.forall_mem_cons, List.not_mem_nil, false_implies, implies_true, and_true]
    exact ⟨high _ (by omega) (by omega), high _ (by omega) (by omega), high _ (by omega) (by omega),
      high _ (by omega) (by omega)⟩

/-! ## Texts -/

theorem valid_nil : Valid [] := ⟨"", rfl⟩

theorem valid_ofText (s : String) : Valid (Bytes.ofText s) := ⟨s, rfl⟩

theorem Valid.append (first : Valid x) (second : Valid y) : Valid (x ++ y) := by
  obtain ⟨s, rfl⟩ := first
  obtain ⟨t, rfl⟩ := second
  exact ⟨s ++ t, (ofText_append s t).symm⟩

theorem Character.valid (h : Character u) : Valid u := by
  obtain ⟨c, rfl⟩ := h
  refine ⟨String.ofList [c], ?_⟩
  rw [Bytes.ofText, String.toList_ofList, List.flatMap_singleton]

theorem valid_of_ascii (ascii : ∀ b ∈ x, b < 0x80) : Valid x := by
  induction x with
  | nil => exact valid_nil
  | cons b x ih =>
      obtain ⟨first, rest⟩ := List.forall_mem_cons.1 ascii
      exact (character_singleton first).valid.append (ih rest)

theorem valid_flatten {parts : List Bytes} (texts : ∀ part ∈ parts, Valid part) :
    Valid parts.flatten := by
  induction parts with
  | nil => exact valid_nil
  | cons part rest ih =>
      obtain ⟨first, later⟩ := List.forall_mem_cons.1 texts
      exact first.append (ih later)

/-- One character after the other. -/
inductive Spelled : Bytes → Prop
  | nil : Spelled []
  | character {u x : Bytes} : Character u → Spelled x → Spelled (u ++ x)

theorem Valid.spelled (h : Valid x) : Spelled x := by
  obtain ⟨s, rfl⟩ := h
  rw [Bytes.ofText]
  induction s.toList with
  | nil => exact .nil
  | cons c rest ih =>
      rw [List.flatMap_cons]
      exact .character ⟨c, rfl⟩ ih

/-- Bare characters and escaped ones, which have a backslash before them. A backslash at the end may
lack its target. -/
inductive Marked : Bytes → Prop
  | nil : Marked []
  | dangling : Marked [backslash]
  | escaped {u x : Bytes} : Character u → Marked x → Marked (backslash :: u ++ x)
  | bare {u x : Bytes} : Character u → u ≠ [backslash] → Valid x → Marked x → Marked (u ++ x)

theorem Spelled.valid (h : Spelled x) : Valid x := by
  induction h with
  | nil => exact valid_nil
  | character single _ ih => exact single.valid.append ih

theorem Spelled.marked (h : Spelled x) : Marked x ∧ Marked (backslash :: x) := by
  induction h with
  | nil => exact ⟨.nil, .dangling⟩
  | @character u x single rest ih =>
      refine ⟨?_, .escaped single ih.1⟩
      by_cases escaping : u = [backslash]
      · subst escaping
        exact ih.2
      · exact .bare single escaping rest.valid ih.1

/-! ## Escapes -/

theorem protects_wide (marks : ∀ b, special b → b < 0x80) (wide : ∀ b ∈ u, 0x80 ≤ b) :
    Protects special u u := by
  induction u with
  | nil => exact .nil
  | cons b u ih =>
      obtain ⟨first, rest⟩ := List.forall_mem_cons.1 wide
      refine .bare ?_ ?_ (ih rest)
      · rintro rfl
        exact absurd first (by decide)
      · intro marked
        exact absurd (marks b marked) (UInt8.not_lt.2 first)

theorem Character.protects (h : Character u) (marks : ∀ b, special b → b < 0x80)
    (unescaping : u ≠ [backslash]) (plain : ∀ b, special b → u ≠ [b]) : Protects special u u := by
  rcases h.cases with ⟨b, -, rfl⟩ | ⟨-, wide⟩
  · refine .bare ?_ ?_ .nil
    · rintro rfl
      exact unescaping rfl
    · intro marked
      exact plain b marked rfl
  · exact protects_wide marks wide

/-- Behind a backslash the first byte of a character is protected, and the others need no
protection. -/
theorem Character.protects_escaped (h : Character u) (marks : ∀ b, special b → b < 0x80) :
    Protects special u (backslash :: u) := by
  rcases h.cases with ⟨b, -, rfl⟩ | ⟨nonempty, wide⟩
  · exact .escaped b .nil
  · cases u with
    | nil => exact absurd rfl nonempty
    | cons lead trail =>
        exact .escaped lead (protects_wide marks (List.forall_mem_cons.1 wide).2)

theorem Marked.resolve (h : Marked x) : Valid (resolve x) := by
  have unmarked : ∀ b : UInt8, False → b < 0x80 := fun _ => False.elim
  induction h with
  | nil => exact valid_nil
  | dangling =>
      rw [Escape.resolve_dangling]
      exact valid_nil
  | escaped single _ ih =>
      rw [(single.protects_escaped unmarked).resolve_append]
      exact single.valid.append ih
  | bare single unescaping _ _ ih =>
      rw [(single.protects unmarked unescaping fun _ => False.elim).resolve_append]
      exact single.valid.append ih

theorem Marked.splitFirst (h : Marked x) (ascii : delim < 0x80) (unescaping : delim ≠ backslash) :
    Valid (splitFirst delim x).1 ∧ ∀ rest ∈ (splitFirst delim x).2, Valid rest := by
  have marks : ∀ b, b = delim → b < 0x80 := by
    rintro b rfl
    exact ascii
  have slash : Valid [backslash] := (character_singleton (by decide)).valid
  have no_rest : ∀ rest ∈ (none : Option Bytes), Valid rest := by
    intro rest absent
    cases absent
  induction h with
  | nil => exact ⟨valid_nil, no_rest⟩
  | dangling =>
      rw [Escape.splitFirst_dangling]
      exact ⟨slash, no_rest⟩
  | escaped single _ ih =>
      rw [(single.protects_escaped marks).skips rfl]
      exact ⟨slash.append (single.valid.append ih.1), ih.2⟩
  | @bare u x single plain text _ ih =>
      by_cases found : u = [delim]
      · subst found
        rw [List.singleton_append, Escape.splitFirst_delim unescaping]
        refine ⟨valid_nil, ?_⟩
        rintro rest ⟨⟩
        exact text
      · have other : ∀ b, b = delim → u ≠ [b] := by
          rintro b rfl
          exact found
        rw [(single.protects marks plain other).skips rfl]
        exact ⟨single.valid.append ih.1, ih.2⟩

/-- Without its backslashes a text is still one. -/
theorem Valid.resolve (h : Valid x) : Valid (resolve x) := h.spelled.marked.1.resolve

/-- What stands before a delimiter and what stands behind it are texts. -/
theorem Valid.splitFirst (h : Valid x) (delim : UInt8) (ascii : delim < 0x80)
    (unescaping : delim ≠ backslash) :
    Valid (splitFirst delim x).1 ∧ ∀ rest ∈ (splitFirst delim x).2, Valid rest :=
  h.spelled.marked.1.splitFirst ascii unescaping

theorem Valid.split (h : Valid x) (delim : UInt8) (ascii : delim < 0x80)
    (unescaping : delim ≠ backslash) : ∀ part ∈ Escape.split delim x, Valid part := by
  induction size : x.length using Nat.strongRecOn generalizing x with
  | ind n ih =>
      obtain ⟨first, later⟩ := h.splitFirst delim ascii unescaping
      rw [Escape.split_eq]
      cases outer : Escape.splitFirst delim x with
      | mk head after =>
          rw [outer] at first later
          cases after with
          | none => exact List.forall_mem_singleton.2 first
          | some rest =>
              have shorter : rest.length < n := size ▸ Escape.splitFirst_rest_lt outer
              exact List.forall_mem_cons.2 ⟨first, ih _ shorter (later rest rfl) rfl⟩

/-! ## Decoding -/

theorem decodeLossy_of_valid (h : Valid x) : Bytes.ofText (decodeLossy x) = x := by
  obtain ⟨s, rfl⟩ := h
  rw [decodeLossy_ofText]

theorem decode_ofText (s : String) : decode (Bytes.ofText s) = .ok s := by
  have characters (cs : List Char) (index : Nat) :
      scalars index (cs.flatMap String.utf8EncodeChar) = .ok cs := by
    induction cs generalizing index with
    | nil => rw [List.flatMap_nil, scalars]
    | cons c rest ih =>
        obtain ⟨lead, more, bytes, holds⟩ :=
          front_utf8EncodeChar c (rest.flatMap String.utf8EncodeChar)
        rw [List.flatMap_cons, bytes, List.cons_append, scalars, holds]
        simp only [List.drop_left, ih]
        rfl
  rw [decode, Bytes.ofText, characters]
  exact congrArg Except.ok (String.ofList_toList ..)

end Utf8

namespace Substitution

variable {replacement : UInt8 → Option (List Bytes)} {x : Bytes}

/-- Only bytes below `0x80` are replaced, and by such. -/
def Ascii (replacement : UInt8 → Option (List Bytes)) : Prop :=
  ∀ b, ∀ parts ∈ replacement b, b < 0x80 ∧ ∀ c ∈ parts.flatten, c < 0x80

/-- A check of each byte. Within the parts of a replacement it goes through what is there, and not
through all bytes again. -/
theorem ascii_of_each (each : ∀ n < 256, (replacement (.ofNat n)).all fun parts =>
    UInt8.ofNat n < 0x80 && parts.flatten.all (· < 0x80)) : Ascii replacement := by
  intro b parts replaced
  have checked : (replacement b).all fun parts => b < 0x80 && parts.flatten.all (· < 0x80) :=
    Bytes.forall_of_each (p := fun b => (replacement b).all fun parts =>
      b < 0x80 && parts.flatten.all (· < 0x80)) each b
  rw [Option.mem_def.1 replaced] at checked
  simpa only [Option.all_some, Bool.and_eq_true, decide_eq_true_eq, List.all_eq_true] using checked

theorem apply_wide (ascii : Ascii replacement) (wide : ∀ b ∈ x, 0x80 ≤ b) :
    apply replacement x = x := by
  induction x with
  | nil => rfl
  | cons b x ih =>
      obtain ⟨first, rest⟩ := List.forall_mem_cons.1 wide
      have tail := ih rest
      rw [apply] at tail ⊢
      rw [List.flatMap_cons, tail]
      cases replaced : replacement b with
      | none => rfl
      | some parts => exact absurd (ascii b parts replaced).1 (UInt8.not_lt.2 first)

/-- Replacing characters by others leaves a text. -/
theorem valid_apply (ascii : Ascii replacement) (h : Utf8.Valid x) :
    Utf8.Valid (apply replacement x) := by
  have spelled := h.spelled
  clear h
  induction spelled with
  | nil => exact Utf8.valid_nil
  | @character u x single _ ih =>
      rw [apply_append]
      refine Utf8.Valid.append ?_ ih
      rcases single.cases with ⟨b, -, rfl⟩ | ⟨-, wide⟩
      · simp only [apply, List.flatMap_singleton]
        cases replaced : replacement b with
        | none => exact single.valid
        | some parts => exact Utf8.valid_of_ascii (ascii b parts replaced).2
      · rw [apply_wide ascii wide]
        exact single.valid

end Substitution

/-! ## Templates -/

namespace Template

open Escape (splitFirst)

/-- The bodies of the directives of a template in order, as they are written. -/
def bodies (t : Bytes) : List Bytes :=
  match _outer : splitFirst Bytes.percent t with
  | (_, none) => []
  | (_, some rest) =>
      match _inner : splitFirst Bytes.semicolon rest with
      | (_, none) => []
      | (body, some rest) => body :: bodies rest
termination_by t.length
decreasing_by
  exact Nat.lt_trans (Escape.splitFirst_rest_lt _inner) (Escape.splitFirst_rest_lt _outer)

theorem bodies_plain {t text : Bytes} (outer : splitFirst Bytes.percent t = (text, none)) :
    bodies t = [] := by
  rw [bodies]
  split
  · rfl
  · rename_i found
    cases outer.symm.trans found

theorem bodies_unclosed {t text rest body : Bytes}
    (outer : splitFirst Bytes.percent t = (text, some rest))
    (inner : splitFirst Bytes.semicolon rest = (body, none)) : bodies t = [] := by
  rw [bodies]
  split
  · rfl
  · rename_i found
    cases outer.symm.trans found
    split
    · rfl
    · rename_i found
      cases inner.symm.trans found

theorem bodies_directive {t text rest body next : Bytes}
    (outer : splitFirst Bytes.percent t = (text, some rest))
    (inner : splitFirst Bytes.semicolon rest = (body, some next)) :
    bodies t = body :: bodies next := by
  rw [bodies]
  split
  · rename_i found
    cases outer.symm.trans found
  · rename_i found
    cases outer.symm.trans found
    split
    · rename_i found
      cases inner.symm.trans found
    · rename_i found
      cases inner.symm.trans found
      rfl

theorem directives_eq (t : Bytes) : directives t = (bodies t).map Directive.parse := by
  induction t using templateInduction with
  | plain t text outer =>
      rw [directives, segments_plain outer, bodies_plain outer]
      rfl
  | unclosed t text rest body outer inner =>
      rw [directives, segments_unclosed outer inner, bodies_unclosed outer inner]
      rfl
  | directive t text rest body next outer inner ih =>
      rw [directives, segments_directive outer inner, bodies_directive outer inner]
      exact congrArg (Directive.parse body :: ·) ih

/-- The literal text of a template and the bodies of its directives are texts. -/
theorem valid_segments {t : Bytes} (h : Utf8.Valid t) :
    (∀ b, .text b ∈ segments t → Utf8.Valid b) ∧ ∀ body ∈ bodies t, Utf8.Valid body := by
  induction t using templateInduction with
  | plain t text outer =>
      obtain ⟨front, -⟩ := h.splitFirst Bytes.percent (by decide) (by decide)
      rw [outer] at front
      rw [segments_plain outer, bodies_plain outer]
      refine ⟨?_, List.forall_mem_nil _⟩
      intro b found
      cases List.mem_singleton.1 found
      exact front.resolve
  | unclosed t text rest body outer inner =>
      obtain ⟨front, -⟩ := h.splitFirst Bytes.percent (by decide) (by decide)
      rw [outer] at front
      rw [segments_unclosed outer inner, bodies_unclosed outer inner]
      refine ⟨?_, List.forall_mem_nil _⟩
      intro b found
      rcases List.mem_cons.1 found with same | found
      · cases same
        exact front.resolve
      · cases List.mem_singleton.1 found
  | directive t text rest body next outer inner ih =>
      obtain ⟨front, back⟩ := h.splitFirst Bytes.percent (by decide) (by decide)
      rw [outer] at front back
      obtain ⟨written, last⟩ :=
        (back rest rfl).splitFirst Bytes.semicolon (by decide) (by decide)
      rw [inner] at written last
      obtain ⟨texts, later⟩ := ih (last next rfl)
      rw [segments_directive outer inner, bodies_directive outer inner]
      refine ⟨?_, List.forall_mem_cons.2 ⟨written, later⟩⟩
      intro b found
      rcases List.mem_cons.1 found with same | found
      · cases same
        exact front.resolve
      · rcases List.mem_cons.1 found with other | found
        · cases other
        · exact texts b found

/-- The name of each stage is what its bytes spell. -/
theorem ofText_name_parse {t : Bytes} (h : Utf8.Valid t) {body : Bytes} (listed : body ∈ bodies t)
    {part : Bytes} (stage : part ∈ Escape.split Bytes.bar body) :
    Bytes.ofText (Stage.parse part).name =
      Escape.resolve (splitFirst Bytes.colon part).1 := by
  have written := (valid_segments h).2 body listed
  have single := written.split Bytes.bar (by decide) (by decide) part stage
  have name := (single.splitFirst Bytes.colon (by decide) (by decide)).1
  exact Utf8.decodeLossy_of_valid name.resolve

end Template
end LayeredTemplate
