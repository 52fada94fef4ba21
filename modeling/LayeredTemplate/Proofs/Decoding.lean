import LayeredTemplate.Proofs.Protection

/-! What is encoded can be read back: letters in base64, and the references of character data. -/
namespace LayeredTemplate

namespace Base64

variable {p q r s : Nat}

/-! ## Letters -/

theorem value_letter (v : Variant) (small : p < 64) : v.value (v.letter p) = some p := by
  obtain ⟨urlSafe, padded⟩ := v
  have each : ∀ urlSafe padded : Bool, ∀ n < 64,
      Variant.value ⟨urlSafe, padded⟩ (Variant.letter ⟨urlSafe, padded⟩ n) = some n := by
    decide +kernel
  exact each urlSafe padded p small

/-- No letter is the sign that pads a text. -/
theorem letter_ne (v : Variant) (small : p < 64) : v.letter p ≠ 0x3d := by
  have listed : v.letter p ∈ (List.range 64).map v.letter :=
    List.mem_map_of_mem (List.mem_range.2 small)
  rw [v.map_letter] at listed
  intro pad
  rw [pad] at listed
  cases safe : v.urlSafe <;> rw [safe] at listed <;> revert listed <;> decide +kernel

theorem bytesOf_letters (a b c : UInt8) :
    bytesOf (a.toNat / 4) (a.toNat % 4 * 16 + b.toNat / 16) (b.toNat % 16 * 4 + c.toNat / 64)
      (c.toNat % 64) = [a, b, c] := by
  have ha := a.toNat_lt
  have hb := b.toNat_lt
  have hc := c.toNat_lt
  have first : a.toNat / 4 * 4 + (a.toNat % 4 * 16 + b.toNat / 16) / 16 = a.toNat := by omega
  have second : (a.toNat % 4 * 16 + b.toNat / 16) % 16 * 16 +
      (b.toNat % 16 * 4 + c.toNat / 64) / 4 = b.toNat := by omega
  have third : (b.toNat % 16 * 4 + c.toNat / 64) % 4 * 64 + c.toNat % 64 = c.toNat := by omega
  simp only [bytesOf, first, second, third, UInt8.ofNat_toNat]

/-! ## Texts -/

theorem decode_nil (v : Variant) : decode v [] = some [] := by
  simp [decode, decodeTail]

theorem decode_letters (v : Variant) (hp : p < 64) (hq : q < 64) (hr : r < 64) (hs : s < 64)
    (rest : Bytes) :
    decode v (v.letter p :: v.letter q :: v.letter r :: v.letter s :: rest) =
      (decode v rest).map (bytesOf p q r s ++ ·) := by
  have unpadded : ¬(v.padded = true ∧ v.letter s = 0x3d ∧ rest = []) := by
    rintro ⟨-, pad, -⟩
    exact letter_ne v hs pad
  rw [decode, if_neg unpadded, value_letter v hp, value_letter v hq, value_letter v hr,
    value_letter v hs]
  rfl

theorem decode_two (v : Variant) (a b : UInt8) :
    decode v ([a, b] ++ v.padding 2) = decodeTail v [a, b] := by
  unfold Variant.padding
  cases padded : v.padded with
  | true => simp [decode, padded]
  | false => simp [decode, padded]

theorem decode_three (v : Variant) (a b : UInt8) {c : UInt8} (letter : c ≠ 0x3d) :
    decode v ([a, b, c] ++ v.padding 1) = decodeTail v [a, b, c] := by
  unfold Variant.padding
  cases padded : v.padded with
  | true => simp [decode, padded, letter]
  | false => simp [decode, padded]

/-- Block by block, and then a tail of one byte or two if there is one. What is missing to a block
counts as zeros, so that the bits that a tail leaves unused are zero. -/
theorem decode_encode (v : Variant) (x : Bytes) : decode v (encode v x) = some x := by
  match x with
  | [] => exact decode_nil v
  | [a] =>
      have ha := a.toNat_lt
      have first := value_letter v (show a.toNat / 4 < 64 by omega)
      have second := value_letter v (show a.toNat % 4 * 16 < 64 by omega)
      have unused : a.toNat % 4 * 16 % 16 = 0 := Nat.mul_mod_left _ _
      have bytes : bytesOf (a.toNat / 4) (a.toNat % 4 * 16) 0 0 = [a, 0, 0] :=
        bytesOf_letters a 0 0
      rw [encode, decode_two, decodeTail, first, second]
      simp only [Option.bind_eq_bind, Option.bind_some, if_pos unused, bytes, List.take_succ_cons,
        List.take_zero]
  | [a, b] =>
      have ha := a.toNat_lt
      have hb := b.toNat_lt
      have first := value_letter v (show a.toNat / 4 < 64 by omega)
      have second := value_letter v (show a.toNat % 4 * 16 + b.toNat / 16 < 64 by omega)
      have small : b.toNat % 16 * 4 < 64 := by omega
      have third := value_letter v small
      have unused : b.toNat % 16 * 4 % 4 = 0 := Nat.mul_mod_left _ _
      have bytes : bytesOf (a.toNat / 4) (a.toNat % 4 * 16 + b.toNat / 16) (b.toNat % 16 * 4) 0 =
          [a, b, 0] := bytesOf_letters a b 0
      rw [encode, decode_three v _ _ (letter_ne v small), decodeTail, first, second, third]
      simp only [Option.bind_eq_bind, Option.bind_some, if_pos unused, bytes, List.take_succ_cons,
        List.take_zero]
  | a :: b :: c :: rest =>
      have ha := a.toNat_lt
      have hb := b.toNat_lt
      have hc := c.toNat_lt
      rw [encode, decode_letters v (by omega) (by omega) (by omega) (by omega),
        decode_encode v rest, bytesOf_letters]
      rfl

end Base64

namespace CharacterData

/-! ## References -/

/-- What stands for a byte: itself if it is a line break that is kept, or else the reference that
names it if there is one. -/
def replacement (keepLineBreaks : Bool) (b : UInt8) : Bytes :=
  if keepLineBreaks ∧ (b = 0x0a ∨ b = 0x0d) then [b]
  else ((references.find? fun reference => reference.2 = b).map Prod.fst).getD [b]

theorem encode_eq (keepLineBreaks : Bool) (x : Bytes) :
    encode keepLineBreaks x = x.flatMap (replacement keepLineBreaks) := by
  have single (b : UInt8) : encode keepLineBreaks [b] = replacement keepLineBreaks b := by
    have each : ∀ keep : Bool, ∀ n < 256,
        encode keep [.ofNat n] = replacement keep (.ofNat n) := by
      decide +kernel
    simpa using each keepLineBreaks b.toNat b.toNat_lt
  induction x with
  | nil => rfl
  | cons b x ih => rw [encode_cons, single, ih, List.flatMap_cons]

/-- No reference begins another one. -/
theorem references_apart : ∀ e ∈ references, ∀ f ∈ references, e.1 <+: f.1 → e = f := by
  decide +kernel

theorem references_begin : ∀ e ∈ references, e.1.head? = some 0x26 := by
  decide +kernel

/-! ## Texts -/

theorem decode_cons (b : UInt8) (rest : Bytes) : decode (b :: rest) =
    match references.find? fun reference => reference.1.isPrefixOf (b :: rest) with
    | some reference => reference.2 :: decode (rest.drop (reference.1.length - 1))
    | none => b :: decode rest := by
  rw [decode]
  cases references.find? fun reference => reference.1.isPrefixOf (b :: rest) <;> rfl

/-- Of all references only the one that stands there is found. -/
theorem decode_reference {name : Bytes} {named : UInt8} (listed : (name, named) ∈ references)
    (rest : Bytes) : decode (name ++ rest) = named :: decode rest := by
  cases name with
  | nil => cases references_begin _ listed
  | cons c name =>
      have stands : (c :: name) <+: c :: (name ++ rest) := ⟨rest, rfl⟩
      have found : references.find? (fun reference =>
          reference.1.isPrefixOf (c :: (name ++ rest))) = some (c :: name, named) := by
        have present : (references.find? fun reference =>
            reference.1.isPrefixOf (c :: (name ++ rest))).isSome = true :=
          List.find?_isSome.2 ⟨_, listed, List.isPrefixOf_iff_prefix.2 stands⟩
        obtain ⟨e, first⟩ := Option.isSome_iff_exists.1 present
        have mem := List.mem_of_find?_eq_some first
        have begins : e.1 <+: c :: (name ++ rest) := by simpa using List.find?_some first
        rw [first]
        -- of two references that stand at the same place one would begin the other
        rcases List.prefix_or_prefix_of_prefix begins stands with inside | inside
        · rw [references_apart e mem _ listed inside]
        · rw [references_apart _ listed e mem inside]
      rw [List.cons_append, decode_cons, found]
      simp only [List.length_cons, Nat.add_sub_cancel, List.drop_left]

/-- Only an ampersand begins a reference. -/
theorem decode_other {b : UInt8} (other : b ≠ 0x26) (rest : Bytes) :
    decode (b :: rest) = b :: decode rest := by
  have nothing : (references.find? fun reference => reference.1.isPrefixOf (b :: rest)) = none := by
    rw [List.find?_eq_none]
    intro e listed begins
    obtain ⟨after, whole⟩ := List.isPrefixOf_iff_prefix.1 begins
    have first := references_begin e listed
    have same : (e.1 ++ after).head? = some 0x26 := by
      rw [List.head?_append, first, Option.some_or]
    rw [whole] at same
    exact other (Option.some.inj same)
  rw [decode_cons, nothing]

theorem decode_replacement (keepLineBreaks : Bool) (b : UInt8) (rest : Bytes) :
    decode (replacement keepLineBreaks b ++ rest) = b :: decode rest := by
  unfold replacement
  split
  · rename_i kept
    apply decode_other
    rcases kept.2 with rfl | rfl <;> decide
  cases found : references.find? fun reference => reference.2 = b with
  | none =>
      apply decode_other
      rintro rfl
      exact absurd found (by decide +kernel)
  | some e =>
      have named : e.2 = b := by simpa using List.find?_some found
      rw [← named]
      exact decode_reference (List.mem_of_find?_eq_some found) rest

theorem decode_flatMap (keepLineBreaks : Bool) (x : Bytes) :
    decode (x.flatMap (replacement keepLineBreaks)) = x := by
  induction x with
  | nil => rw [List.flatMap_nil, decode]
  | cons b x ih => rw [List.flatMap_cons, decode_replacement, ih]

end CharacterData
end LayeredTemplate
