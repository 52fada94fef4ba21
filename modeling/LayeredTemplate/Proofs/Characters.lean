import LayeredTemplate.Utf8

/-! Reading back the UTF-8 form of a text gives the text: the bytes of each character are the start
of a sequence that holds it. -/
namespace LayeredTemplate.Utf8

variable {lo hi : UInt8} {n : Nat}

theorem toNat_ofNat (small : n < 256) : (UInt8.ofNat n).toNat = n := by
  rw [UInt8.toNat_ofNat']
  exact Nat.mod_eq_of_lt small

/-- A further byte in its range adds its six bits. -/
theorem collect_bits (need acc taken : Nat) (rest : Bytes) (above : lo.toNat ≤ n % 64 + 0x80)
    (below : n % 64 + 0x80 ≤ hi.toNat) :
    collect (need + 1) lo hi acc taken (.ofNat (n % 64 + 0x80) :: rest) =
      collect need 0x80 0xbf (acc * 64 + n % 64) (taken + 1) rest := by
  have bits : (UInt8.ofNat (n % 64 + 0x80)).toNat = n % 64 + 0x80 := toNat_ofNat (by omega)
  have within : lo ≤ .ofNat (n % 64 + 0x80) ∧ .ofNat (n % 64 + 0x80) ≤ hi := by
    rw [UInt8.le_iff_toNat_le, UInt8.le_iff_toNat_le, bits]
    exact ⟨above, below⟩
  rw [collect, if_pos within, bits, Nat.add_sub_cancel]

theorem collect_trailing (need acc taken n : Nat) (rest : Bytes) :
    collect (need + 1) 0x80 0xbf acc taken (.ofNat (n % 64 + 0x80) :: rest) =
      collect need 0x80 0xbf (acc * 64 + n % 64) (taken + 1) rest := by
  apply collect_bits
  · exact Nat.le_add_left ..
  · have := Nat.mod_lt n (show 0 < 64 by decide)
    change n % 64 + 128 ≤ 191
    omega

/-- The code points that are no surrogates and not beyond the last one. -/
theorem scalar_range (c : Char) :
    c.val.toNat < 0xd800 ∨ 0xdfff < c.val.toNat ∧ c.val.toNat < 0x110000 := c.valid

theorem front_one (small : n ≤ 0x7f) (rest : Bytes) :
    front (.ofNat n) rest = .scalar (.ofNat n) 0 := by
  unfold front
  rw [toNat_ofNat (by omega)]
  exact if_pos (by omega)

theorem front_two (low : 0x7f < n) (high : n ≤ 0x7ff) (rest : Bytes) :
    front (.ofNat (n / 64 % 0x20 + 0xc0)) (.ofNat (n % 64 + 0x80) :: rest) =
      .scalar (.ofNat n) 1 := by
  have lead : n / 64 % 0x20 = n / 64 := by omega
  have amount : (n / 64 + 0xc0 - 0xc0) * 64 + n % 64 = n := by omega
  unfold front
  rw [lead, toNat_ofNat (by omega)]
  simp only
  rw [if_neg (by omega), if_neg (by omega), if_pos (by omega), collect_trailing 0, amount]
  rfl

/-- Whatever range the lead leaves to the second byte, the second byte lies in it. -/
theorem front_lead_three (low : 0x7ff < n) (high : n ≤ 0xffff) (scalar : n < 0xd800 ∨ 0xdfff < n)
    (rest : Bytes) :
    ∃ lo hi : UInt8, lo.toNat ≤ n / 64 % 64 + 0x80 ∧ n / 64 % 64 + 0x80 ≤ hi.toNat ∧
      front (.ofNat (n / 4096 % 0x10 + 0xe0)) rest = collect 2 lo hi (n / 4096) 0 rest := by
  have lead : n / 4096 % 0x10 = n / 4096 := by omega
  unfold front
  rw [lead, toNat_ofNat (by omega)]
  simp only
  rw [if_neg (by omega), if_neg (by omega), if_neg (by omega)]
  by_cases first : n / 4096 = 0
  · refine ⟨0xa0, 0xbf, ?_, ?_, ?_⟩
    · change 0xa0 ≤ _
      omega
    · change _ ≤ 0xbf
      omega
    · rw [if_pos (by omega), first]
  by_cases surrogates : n / 4096 = 0xd
  · refine ⟨0x80, 0x9f, ?_, ?_, ?_⟩
    · exact Nat.le_add_left ..
    · change _ ≤ 0x9f
      omega
    · rw [if_neg (by omega), if_pos (by omega), surrogates]
  · refine ⟨0x80, 0xbf, ?_, ?_, ?_⟩
    · exact Nat.le_add_left ..
    · change _ ≤ 0xbf
      omega
    · rw [if_neg (by omega), if_neg (by omega), if_pos (by omega), Nat.add_sub_cancel]

theorem front_three (low : 0x7ff < n) (high : n ≤ 0xffff) (scalar : n < 0xd800 ∨ 0xdfff < n)
    (rest : Bytes) :
    front (.ofNat (n / 4096 % 0x10 + 0xe0))
        (.ofNat (n / 64 % 64 + 0x80) :: .ofNat (n % 64 + 0x80) :: rest) =
      .scalar (.ofNat n) 2 := by
  have amount : (n / 4096 * 64 + n / 64 % 64) * 64 + n % 64 = n := by omega
  obtain ⟨lo, hi, above, below, collects⟩ := front_lead_three low high scalar
    (.ofNat (n / 64 % 64 + 0x80) :: .ofNat (n % 64 + 0x80) :: rest)
  rw [collects, collect_bits 1 _ _ _ above below, collect_trailing 0, amount]
  rfl

theorem front_lead_four (low : 0xffff < n) (high : n < 0x110000) (rest : Bytes) :
    ∃ lo hi : UInt8, lo.toNat ≤ n / 4096 % 64 + 0x80 ∧ n / 4096 % 64 + 0x80 ≤ hi.toNat ∧
      front (.ofNat (n / 262144 % 0x08 + 0xf0)) rest = collect 3 lo hi (n / 262144) 0 rest := by
  have lead : n / 262144 % 0x08 = n / 262144 := by omega
  unfold front
  rw [lead, toNat_ofNat (by omega)]
  simp only
  rw [if_neg (by omega), if_neg (by omega), if_neg (by omega), if_neg (by omega),
    if_neg (by omega), if_neg (by omega)]
  by_cases first : n / 262144 = 0
  · refine ⟨0x90, 0xbf, ?_, ?_, ?_⟩
    · change 0x90 ≤ _
      omega
    · change _ ≤ 0xbf
      omega
    · rw [if_pos (by omega), first]
  by_cases last : n / 262144 = 4
  · refine ⟨0x80, 0x8f, ?_, ?_, ?_⟩
    · exact Nat.le_add_left ..
    · change _ ≤ 0x8f
      omega
    · rw [if_neg (by omega), if_neg (by omega), if_pos (by omega), last]
  · refine ⟨0x80, 0xbf, ?_, ?_, ?_⟩
    · exact Nat.le_add_left ..
    · change _ ≤ 0xbf
      omega
    · rw [if_neg (by omega), if_pos (by omega), Nat.add_sub_cancel]

theorem front_four (low : 0xffff < n) (high : n < 0x110000) (rest : Bytes) :
    front (.ofNat (n / 262144 % 0x08 + 0xf0))
        (.ofNat (n / 4096 % 64 + 0x80) :: .ofNat (n / 64 % 64 + 0x80) ::
          .ofNat (n % 64 + 0x80) :: rest) =
      .scalar (.ofNat n) 3 := by
  have amount :
      ((n / 262144 * 64 + n / 4096 % 64) * 64 + n / 64 % 64) * 64 + n % 64 = n := by omega
  obtain ⟨lo, hi, above, below, collects⟩ := front_lead_four low high
    (.ofNat (n / 4096 % 64 + 0x80) :: .ofNat (n / 64 % 64 + 0x80) :: .ofNat (n % 64 + 0x80) :: rest)
  rw [collects, collect_bits 2 _ _ _ above below, collect_trailing 1, collect_trailing 0, amount]
  rfl

/-- The bytes of a character are the start of a sequence that holds it. -/
theorem front_utf8EncodeChar (c : Char) (rest : Bytes) :
    ∃ lead more, String.utf8EncodeChar c = lead :: more ∧
      front lead (more ++ rest) = .scalar c more.length := by
  have range := scalar_range c
  have code : Char.ofNat c.val.toNat = c := Char.ofNat_toNat c
  unfold String.utf8EncodeChar
  simp only
  by_cases one : c.val.toNat ≤ 0x7f
  · rw [if_pos one]
    exact ⟨_, _, rfl, (front_one one _).trans (by rw [code]; rfl)⟩
  by_cases two : c.val.toNat ≤ 0x7ff
  · rw [if_neg one, if_pos two]
    exact ⟨_, _, rfl, (front_two (by omega) two _).trans (by rw [code]; rfl)⟩
  by_cases three : c.val.toNat ≤ 0xffff
  · rw [if_neg one, if_neg two, if_pos three]
    exact ⟨_, _, rfl, (front_three (by omega) three (by omega) _).trans (by rw [code]; rfl)⟩
  · rw [if_neg one, if_neg two, if_neg three]
    exact ⟨_, _, rfl, (front_four (by omega) (by omega) _).trans (by rw [code]; rfl)⟩

theorem lossyScalars_append (c : Char) (x : Bytes) :
    lossyScalars (String.utf8EncodeChar c ++ x) = c :: lossyScalars x := by
  obtain ⟨lead, more, bytes, holds⟩ := front_utf8EncodeChar c x
  rw [bytes, List.cons_append, lossyScalars, holds]
  simp only [List.drop_left]

/-- Nothing is lost of what is the form of a text. -/
theorem decodeLossy_ofText (s : String) : decodeLossy (Bytes.ofText s) = s := by
  have characters (cs : List Char) : lossyScalars (cs.flatMap String.utf8EncodeChar) = cs := by
    induction cs with
    | nil => rw [List.flatMap_nil, lossyScalars]
    | cons c rest ih => rw [List.flatMap_cons, lossyScalars_append, ih]
  rw [decodeLossy, Bytes.ofText, characters, String.ofList_toList]

theorem ofText_append (s t : String) :
    Bytes.ofText (s ++ t) = Bytes.ofText s ++ Bytes.ofText t := by
  rw [Bytes.ofText, String.toList_append, List.flatMap_append]
  rfl

theorem ofText_injective {s t : String} (same : Bytes.ofText s = Bytes.ofText t) : s = t := by
  rw [← decodeLossy_ofText s, same, decodeLossy_ofText]

end LayeredTemplate.Utf8
