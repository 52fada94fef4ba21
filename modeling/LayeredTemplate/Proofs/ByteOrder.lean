import LayeredTemplate.Proofs.Characters
import Mathlib.Algebra.Ring.Nat

/-! Texts stand in the order of their UTF-8 forms, compared byte by byte: a greater character has a
greater first byte, or the same first byte and a greater one among those that follow. -/
namespace LayeredTemplate.Utf8

variable {n m : Nat}

/-! ## Characters -/

/-- How many bytes follow the first one in the form of a code point. -/
def followers (n : Nat) : Nat :=
  if n ≤ 0x7f then 0 else if n ≤ 0x7ff then 1 else if n ≤ 0xffff then 2 else 3

/-- Where the first bytes begin that so many bytes follow. They end where those begin that one more
follows. -/
def mark : Nat → Nat
  | 0 => 0
  | 1 => 0xc0
  | 2 => 0xe0
  | 3 => 0xf0
  | _ => 0x100

/-- The first byte, which holds the highest bits. -/
def lead (n : Nat) : Nat := n / 64 ^ followers n + mark (followers n)

/-- The bytes that follow, with six bits in each, the highest first. -/
def trailing (n : Nat) : Nat → Bytes
  | 0 => []
  | k + 1 => .ofNat (n / 64 ^ k % 64 + 0x80) :: trailing n k

theorem utf8EncodeChar_eq (c : Char) :
    String.utf8EncodeChar c =
      .ofNat (lead c.val.toNat) :: trailing c.val.toNat (followers c.val.toNat) := by
  have range := scalar_range c
  generalize bits : c.val.toNat = n at range
  unfold String.utf8EncodeChar lead followers
  simp only [bits]
  by_cases one : n ≤ 0x7f
  · simp only [if_pos one, trailing, mark, Nat.pow_zero, Nat.div_one, Nat.add_zero]
  by_cases two : n ≤ 0x7ff
  · have high : n / 64 % 0x20 = n / 64 := by omega
    simp only [if_neg one, if_pos two, trailing, mark, Nat.pow_zero, Nat.div_one, Nat.pow_one, high]
  by_cases three : n ≤ 0xffff
  · have high : n / 4096 % 0x10 = n / 4096 := by omega
    simp only [if_neg one, if_neg two, if_pos three, trailing, mark, Nat.pow_zero, Nat.div_one,
      Nat.pow_one, Nat.reducePow, high]
  · have high : n / 262144 % 0x08 = n / 262144 := by omega
    simp only [if_neg one, if_neg two, if_neg three, trailing, mark, Nat.pow_zero, Nat.div_one,
      Nat.pow_one, Nat.reducePow, high]

/-- The number of bytes that follow, with the code points that have as many. -/
theorem followers_cases (scalar : n < 0x110000) :
    followers n = 0 ∧ n < 0x80 ∨ followers n = 1 ∧ 0x80 ≤ n ∧ n < 0x800 ∨
      followers n = 2 ∧ 0x800 ≤ n ∧ n < 0x10000 ∨ followers n = 3 ∧ 0x10000 ≤ n := by
  unfold followers
  by_cases one : n ≤ 0x7f
  · rw [if_pos one]
    omega
  by_cases two : n ≤ 0x7ff
  · rw [if_neg one, if_pos two]
    omega
  by_cases three : n ≤ 0xffff
  · rw [if_neg one, if_neg two, if_pos three]
    omega
  · rw [if_neg one, if_neg two, if_neg three]
    omega

theorem followers_mono (le : n ≤ m) (scalar : m < 0x110000) : followers n ≤ followers m := by
  have small := followers_cases (Nat.lt_of_le_of_lt le scalar)
  have large := followers_cases scalar
  omega

theorem mark_le_succ (k : Nat) : mark k ≤ mark (k + 1) := by
  match k with
  | 0 | 1 | 2 | 3 => decide
  | _ + 4 => exact Nat.le_refl _

theorem mark_mono {k l : Nat} (le : k ≤ l) : mark k ≤ mark l := by
  induction le with
  | refl => exact Nat.le_refl _
  | step _ ih => exact Nat.le_trans ih (mark_le_succ _)

theorem mark_le_256 (k : Nat) : mark k ≤ 256 := mark_mono (Nat.le_add_right k 4)

theorem mark_le_lead (n : Nat) : mark (followers n) ≤ lead n := Nat.le_add_left ..

theorem lead_lt_mark (scalar : n < 0x110000) : lead n < mark (followers n + 1) := by
  unfold lead
  rcases followers_cases scalar with ⟨size, _⟩ | ⟨size, _⟩ | ⟨size, _⟩ | ⟨size, _⟩ <;>
    simp only [size, mark, Nat.reducePow] <;> omega

theorem lead_lt_of_followers_lt (more : followers n < followers m) (scalar : n < 0x110000) :
    lead n < lead m :=
  calc
    lead n < mark (followers n + 1) := lead_lt_mark scalar
    _ ≤ mark (followers m) := mark_mono more
    _ ≤ lead m := mark_le_lead m

/-- Where the first bytes agree the rest of the bits decides. -/
theorem lead_cases (less : n < m) (scalar : m < 0x110000) :
    lead n < lead m ∨ lead n = lead m ∧ followers n = followers m ∧
      n % 64 ^ followers m < m % 64 ^ followers m := by
  rcases Nat.lt_or_eq_of_le (followers_mono (Nat.le_of_lt less) scalar) with more | same
  · exact .inl (lead_lt_of_followers_lt more (Nat.lt_trans less scalar))
  · have parts := Nat.div_add_mod n (64 ^ followers m)
    have others := Nat.div_add_mod m (64 ^ followers m)
    have ordered : n / 64 ^ followers m ≤ m / 64 ^ followers m :=
      Nat.div_le_div_right (Nat.le_of_lt less)
    unfold lead
    rw [same]
    rcases Nat.lt_or_eq_of_le ordered with high | high
    · exact .inl (Nat.add_lt_add_right high _)
    · refine .inr ⟨by rw [high], rfl, ?_⟩
      rw [high] at parts
      omega

theorem ofNat_lt_ofNat (less : n < m) (small : m < 256) : UInt8.ofNat n < UInt8.ofNat m := by
  rw [UInt8.lt_iff_toNat_lt, toNat_ofNat small, toNat_ofNat (Nat.lt_trans less small)]
  exact less

/-- So many of the lowest bits are compared from the highest six on. -/
theorem trailing_lt (k : Nat) (less : n % 64 ^ k < m % 64 ^ k) (x y : Bytes) :
    trailing n k ++ x < trailing m k ++ y := by
  induction k with
  | zero =>
      rw [Nat.pow_zero, Nat.mod_one, Nat.mod_one] at less
      exact absurd less (Nat.lt_irrefl 0)
  | succ k ih =>
      have first (n : Nat) : n % 64 ^ (k + 1) = n % 64 ^ k + 64 ^ k * (n / 64 ^ k % 64) :=
        Nat.mod_pow_succ
      rw [first, first] at less
      rw [trailing, trailing, List.cons_append, List.cons_append, List.cons_lt_cons_iff]
      have high : n / 64 ^ k % 64 ≤ m / 64 ^ k % 64 := by
        apply Nat.le_of_not_lt
        intro above
        have bits := Nat.mul_le_mul_left (64 ^ k) (Nat.succ_le_of_lt above)
        have low := Nat.mod_lt m (Nat.pow_pos (n := k) (show 0 < 64 by decide))
        rw [Nat.mul_succ] at bits
        omega
      rcases Nat.lt_or_eq_of_le high with high | high
      · exact .inl (ofNat_lt_ofNat (Nat.add_lt_add_right high _) (by omega))
      · refine .inr ⟨by rw [high], ih ?_⟩
        rw [high] at less
        exact Nat.lt_of_add_lt_add_right less

/-- Whatever follows them, the forms of two characters are ordered as these are. -/
theorem utf8EncodeChar_lt {c d : Char} (less : c < d) (x y : Bytes) :
    String.utf8EncodeChar c ++ x < String.utf8EncodeChar d ++ y := by
  have codes : c.val.toNat < d.val.toNat := less
  have scalar : d.val.toNat < 0x110000 := by
    have range := scalar_range d
    omega
  rw [utf8EncodeChar_eq, utf8EncodeChar_eq, List.cons_append, List.cons_append,
    List.cons_lt_cons_iff]
  rcases lead_cases codes scalar with high | ⟨high, size, low⟩
  · have small : lead d.val.toNat < 256 :=
      Nat.lt_of_lt_of_le (lead_lt_mark scalar) (mark_le_256 _)
    exact .inl (ofNat_lt_ofNat high small)
  · rw [high, size]
    exact .inr ⟨rfl, trailing_lt _ low x y⟩

/-! ## Texts -/

theorem utf8EncodeChar_ne_nil (c : Char) : String.utf8EncodeChar c ≠ [] := by
  rw [utf8EncodeChar_eq]
  exact List.cons_ne_nil _ _

/-- The order of texts is that of their bytes. -/
theorem ofText_lt_ofText {s t : String} (less : s < t) : Bytes.ofText s < Bytes.ofText t := by
  have characters (cs ds : List Char) (less : cs < ds) :
      cs.flatMap String.utf8EncodeChar < ds.flatMap String.utf8EncodeChar := by
    induction less with
    | nil =>
        rename_i d ds
        rw [List.flatMap_nil, List.flatMap_cons]
        obtain ⟨b, more, form⟩ := List.exists_cons_of_ne_nil (utf8EncodeChar_ne_nil d)
        rw [form]
        exact .nil
    | rel first =>
        rw [List.flatMap_cons, List.flatMap_cons]
        exact utf8EncodeChar_lt first _ _
    | cons _ ih =>
        rw [List.flatMap_cons, List.flatMap_cons]
        exact List.append_left_lt ih
  exact characters s.toList t.toList less

end LayeredTemplate.Utf8
