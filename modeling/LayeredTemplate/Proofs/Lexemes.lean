import LayeredTemplate.Json.Reader
import LayeredTemplate.Json.Text
import LayeredTemplate.Proofs.Boundaries
import Mathlib.Data.List.TakeDrop

/-! The smallest parts of a JSON text, as they are written and read back: blanks, integers and
quoted texts. Each is read from the front, and what follows it is left. -/
namespace LayeredTemplate.Json

variable {b : UInt8} {x y rest : Bytes} {n fuel : Nat}

/-! ## Blanks -/

theorem skipBlanks_blanks (blanks : ∀ b ∈ x, isBlank b) : skipBlanks (x ++ y) = skipBlanks y :=
  List.dropWhile_append_of_pos blanks

theorem skipBlanks_cons (visible : isBlank b = false) : skipBlanks (b :: x) = b :: x := by
  rw [skipBlanks, List.dropWhile_cons, visible]
  rfl

theorem readValue_blanks (blanks : ∀ b ∈ x, isBlank b) :
    readValue fuel (x ++ y) = readValue fuel y := by
  cases fuel with
  | zero => rfl
  | succ fuel => rw [readValue, readValue, skipBlanks_blanks blanks]

/-! ## Integers -/

/-- Decimal digits as they are written, without a zero in front. -/
inductive Decimal : Nat → Bytes → Prop
  | single (d : Nat) (digit : d < 10) : Decimal d [UInt8.ofNat (0x30 + d)]
  | more {n : Nat} {x : Bytes} (front : Decimal n x) (positive : 0 < n) (d : Nat)
      (digit : d < 10) : Decimal (n * 10 + d) (x ++ [UInt8.ofNat (0x30 + d)])

theorem ofText_digitChar {d : Nat} (digit : d < 10) :
    Bytes.ofText (String.ofList [d.digitChar]) = [UInt8.ofNat (0x30 + d)] := by
  have each : ∀ d < 10, Bytes.ofText (String.ofList [d.digitChar]) = [UInt8.ofNat (0x30 + d)] := by
    decide +kernel
  exact each d digit

theorem decimal_toString (n : Nat) : Decimal n (Bytes.ofText (toString n)) := by
  induction n using Nat.strongRecOn with
  | ind n ih =>
      rw [Nat.toString_eq_ofList_toDigits]
      by_cases small : n < 10
      · rw [Nat.toDigits_of_lt_base small, ofText_digitChar small]
        exact .single n small
      · have front := ih (n / 10) (by omega)
        have last : n % 10 < 10 := by omega
        rw [Nat.toString_eq_ofList_toDigits] at front
        rw [Nat.toDigits_of_base_le (by decide) (by omega), String.ofList_append,
          Utf8.ofText_append, ofText_digitChar last]
        have whole := front.more (by omega) (n % 10) last
        rwa [Nat.div_add_mod'] at whole

theorem toNat_digit {d : Nat} (digit : d < 10) : (UInt8.ofNat (0x30 + d)).toNat = 0x30 + d :=
  Utf8.toNat_ofNat (by omega)

theorem isDigit_iff : isDigit b ↔ 0x30 ≤ b.toNat ∧ b.toNat ≤ 0x39 := by
  simp only [isDigit, decide_eq_true_eq, UInt8.le_iff_toNat_le]
  rfl

theorem isDigit_digit {d : Nat} (digit : d < 10) : isDigit (UInt8.ofNat (0x30 + d)) := by
  rw [isDigit_iff, toNat_digit digit]
  omega

namespace Decimal

theorem isDigit (h : Decimal n x) : ∀ b ∈ x, Json.isDigit b := by
  induction h with
  | single d digit => exact List.forall_mem_singleton.2 (isDigit_digit digit)
  | more _ _ d digit ih =>
      exact List.forall_mem_append.2 ⟨ih, List.forall_mem_singleton.2 (isDigit_digit digit)⟩

theorem numeral (h : Decimal n x) : Json.numeral 0 x = n := by
  induction h with
  | single d digit =>
      rw [Json.numeral, List.foldl_cons, List.foldl_nil, toNat_digit digit]
      omega
  | more _ _ d digit ih =>
      rw [Json.numeral] at ih ⊢
      rw [List.foldl_append, ih, List.foldl_cons, List.foldl_nil, toNat_digit digit]
      omega

/-- Only zero begins with a zero, and has no other digit. -/
theorem head (h : Decimal n x) :
    n = 0 ∧ x = [0x30] ∨ ∃ b tail, x = b :: tail ∧ b ≠ 0x30 ∧ Json.isDigit b := by
  induction h with
  | single d digit =>
      by_cases zero : d = 0
      · subst zero
        exact .inl ⟨rfl, rfl⟩
      · refine .inr ⟨_, [], rfl, ?_, isDigit_digit digit⟩
        intro same
        have value := toNat_digit digit
        rw [same] at value
        change 0x30 = 0x30 + d at value
        omega
  | more _ positive d digit ih =>
      rcases ih with ⟨rfl, -⟩ | ⟨b, tail, rfl, other, leads⟩
      · exact absurd positive (Nat.lt_irrefl 0)
      · exact .inr ⟨b, _, rfl, other, leads⟩

theorem exists_cons (h : Decimal n x) : ∃ b tail, x = b :: tail ∧ Json.isDigit b := by
  rcases h.head with ⟨-, rfl⟩ | ⟨b, tail, whole, -, leads⟩
  · exact ⟨0x30, [], rfl, rfl⟩
  · exact ⟨b, tail, whole, leads⟩

theorem exists_append (h : Decimal n x) : ∃ init b, x = init ++ [b] ∧ Json.isDigit b := by
  cases h with
  | single d digit => exact ⟨[], _, rfl, isDigit_digit digit⟩
  | more front _ d digit => exact ⟨_, _, rfl, isDigit_digit digit⟩

end Decimal

/-- What may stand behind a value: nothing, a blank, a comma or a closing bracket. -/
def Closed (rest : Bytes) : Prop := ∀ b ∈ rest.head?, isBlank b ∨ b ∈ [0x2c, 0x5d, 0x7d]

theorem closed_cons (h : isBlank b ∨ b ∈ [0x2c, 0x5d, 0x7d]) : Closed (b :: rest) := by
  rintro b ⟨⟩
  exact h

theorem Closed.not_continues (closed : Closed (b :: rest)) :
    isDigit b = false ∧ b ≠ 0x2e ∧ b ≠ 0x65 ∧ b ≠ 0x45 := by
  have each : ∀ b, isBlank b ∨ b ∈ [0x2c, 0x5d, 0x7d] →
      isDigit b = false ∧ b ≠ 0x2e ∧ b ≠ 0x65 ∧ b ≠ 0x45 := Bytes.forall_of_each (by decide +kernel)
  exact each b (closed b rfl)

theorem Closed.readDigits (closed : Closed rest) (digits : ∀ b ∈ x, isDigit b) :
    readDigits (x ++ rest) = (x, rest) := by
  have nothing : rest.takeWhile isDigit = [] ∧ rest.dropWhile isDigit = rest := by
    cases rest with
    | nil => exact ⟨rfl, rfl⟩
    | cons b rest =>
        rw [List.takeWhile_cons, List.dropWhile_cons, closed.not_continues.1]
        exact ⟨rfl, rfl⟩
  rw [Json.readDigits, List.span_eq_takeWhile_dropWhile, List.takeWhile_append_of_pos digits,
    List.dropWhile_append_of_pos digits, nothing.1, nothing.2, List.append_nil]

theorem Closed.readFraction (closed : Closed rest) : readFraction rest = some ([], rest) := by
  unfold Json.readFraction
  split
  · exact absurd rfl closed.not_continues.2.1
  · rfl

theorem Closed.readExponent (closed : Closed rest) : readExponent rest = some (none, rest) := by
  unfold Json.readExponent
  cases rest with
  | nil => rfl
  | cons b rest =>
      obtain ⟨-, -, lower, upper⟩ := closed.not_continues
      exact if_neg (not_or.2 ⟨lower, upper⟩)

theorem Decimal.readNumber {whole : Bytes} (h : Decimal n whole) (closed : Closed rest)
    (front : readDigits (if x.head? = some 0x2d then x.tail else x) = (whole, rest)) :
    readNumber x = some (.integer (if x.head? = some 0x2d then -n else n), rest) := by
  have proper : ¬(whole = [] ∨ whole.head? = some 0x30 ∧ whole ≠ [0x30]) := by
    rcases h.head with ⟨-, rfl⟩ | ⟨b, tail, rfl, other, -⟩
    · decide
    · rintro (empty | ⟨zero, -⟩)
      · cases empty
      · exact other (Option.some.inj zero)
  rw [Json.readNumber]
  simp only [front, if_neg proper, closed.readFraction, closed.readExponent, h.numeral,
    Option.bind_eq_bind, Option.bind_some, and_self, if_true]
  rfl

theorem ofText_toString_negSucc (n : Nat) :
    Bytes.ofText (toString (Int.negSucc n)) = 0x2d :: Bytes.ofText (toString (n + 1)) := by
  have sign : toString (Int.negSucc n) = "-" ++ toString (n + 1) := rfl
  rw [sign, Utf8.ofText_append]
  rfl

theorem front_toString (n : Int) :
    ∃ b tail, Bytes.ofText (toString n) = b :: tail ∧ (isDigit b ∨ b = 0x2d) := by
  cases n with
  | ofNat n =>
      obtain ⟨b, tail, whole, leads⟩ := (decimal_toString n).exists_cons
      exact ⟨b, tail, whole, .inl leads⟩
  | negSucc n => exact ⟨0x2d, _, ofText_toString_negSucc n, .inr rfl⟩

theorem back_toString (n : Int) :
    ∃ init b, Bytes.ofText (toString n) = init ++ [b] ∧ isDigit b := by
  cases n with
  | ofNat n => exact (decimal_toString n).exists_append
  | negSucc n =>
      obtain ⟨init, b, whole, digit⟩ := (decimal_toString (n + 1)).exists_append
      rw [ofText_toString_negSucc, whole]
      exact ⟨0x2d :: init, b, rfl, digit⟩

theorem readNumber_toString (n : Int) (closed : Closed rest) :
    readNumber (Bytes.ofText (toString n) ++ rest) = some (.integer n, rest) := by
  cases n with
  | ofNat n =>
      have written := decimal_toString n
      have unsigned : (Bytes.ofText (toString n) ++ rest).head? ≠ some 0x2d := by
        obtain ⟨b, tail, whole, leads⟩ := written.exists_cons
        rw [whole]
        intro same
        obtain rfl : b = 0x2d := Option.some.inj same
        exact absurd leads (by decide)
      have read := written.readNumber (x := Bytes.ofText (toString n) ++ rest) closed
      rw [if_neg unsigned, if_neg unsigned] at read
      exact read (closed.readDigits written.isDigit)
  | negSucc n =>
      have written := decimal_toString (n + 1)
      have read :=
        written.readNumber (x := 0x2d :: (Bytes.ofText (toString (n + 1)) ++ rest)) closed
      rw [ofText_toString_negSucc]
      exact read (closed.readDigits written.isDigit)

theorem readValue_number (begins : isDigit b ∨ b = 0x2d) :
    readValue (fuel + 1) (b :: x) = readNumber (b :: x) := by
  have each : ∀ b, isDigit b ∨ b = 0x2d →
      isBlank b = false ∧ b ∉ [0x6e, 0x74, 0x66, 0x22, 0x5b, 0x7b] :=
    Bytes.forall_of_each (by decide +kernel)
  obtain ⟨visible, other⟩ := each b begins
  simp only [List.mem_cons, List.not_mem_nil, or_false, not_or] at other
  obtain ⟨null, true', false', text, array, object⟩ := other
  rw [readValue, skipBlanks_cons visible]
  split
  case h_8 => rfl
  all_goals
    rename_i same
    cases same
  · exact absurd rfl null
  · exact absurd rfl true'
  · exact absurd rfl false'
  · exact absurd rfl text
  · exact absurd rfl array
  · exact absurd rfl object

/-! ## Quoted texts -/

/-- Wherever the bytes `u` stand between quotation marks, they are read as `v`. -/
def ReadAs (u v : Bytes) : Prop :=
  ∀ y, readQuoted (u ++ y) = (readQuoted y).map fun (more, rest) => (v ++ more, rest)

theorem readAs_plain (high : ¬b < 0x20) (mark : b ≠ 0x22) (slash : b ≠ 0x5c) : ReadAs [b] [b] := by
  intro y
  rw [List.singleton_append, readQuoted, if_neg high]
  · cases readQuoted y <;> rfl
  all_goals
    intros
    contradiction

theorem readAs_short {c : UInt8} (h : shortEscape c = some b) : ReadAs [0x5c, c] [b] := by
  have other : c ≠ 0x75 := by
    rintro rfl
    cases h
  intro y
  rw [List.cons_append, List.singleton_append, readQuoted, h]
  · cases readQuoted y <;> rfl
  all_goals
    intros
    contradiction

theorem readAs_codeUnit {p q r s : UInt8} (h : codeUnit p q r s = some n) (low : n < 0xd800) :
    ReadAs [0x5c, 0x75, p, q, r, s] (String.utf8EncodeChar (Char.ofNat n)) := by
  have alone : ¬(0xd800 ≤ n ∧ n < 0xe000) := by omega
  have first : ¬(0xd800 ≤ n ∧ n < 0xdc00) := by omega
  have second : ¬(0xdc00 ≤ n ∧ n < 0xe000) := by omega
  intro y
  -- six more bytes that could be another code unit are read by an equation of their own
  by_cases pair : ∃ e f g i tail, y = 0x5c :: 0x75 :: e :: f :: g :: i :: tail
  · obtain ⟨e, f, g, i, tail, rfl⟩ := pair
    simp only [List.cons_append, List.nil_append]
    rw [readQuoted, h]
    simp only [Option.bind_eq_bind, Option.bind_some, if_neg first, if_neg second]
    cases readQuoted (0x5c :: 0x75 :: e :: f :: g :: i :: tail) <;> rfl
  · simp only [List.cons_append, List.nil_append]
    rw [readQuoted, h]
    · simp only [Option.bind_eq_bind, Option.bind_some, if_neg alone]
      cases readQuoted y <;> rfl
    · intro e f g i tail same
      exact pair ⟨e, f, g, i, tail, same⟩

theorem readAs_control (low : b < 0x20) :
    ReadAs (Bytes.ofText "\\u00" ++ [0x30 + b / 16, if b % 16 < 10 then 0x30 + b % 16
      else 0x57 + b % 16]) [b] := by
  have each : ∀ b < 0x20, codeUnit 0x30 0x30 (0x30 + b / 16) (if b % 16 < 10 then 0x30 + b % 16
      else 0x57 + b % 16) = some b.toNat ∧ String.utf8EncodeChar (Char.ofNat b.toNat) = [b] :=
    Bytes.forall_of_each (by decide +kernel)
  have small : b.toNat < 0x20 := UInt8.lt_iff_toNat_lt.1 low
  obtain ⟨unit, same⟩ := each b low
  have read := readAs_codeUnit unit (by omega)
  rwa [same] at read

/-- Each byte is read back as itself, escaped or not. -/
theorem readAs_escape (b : UInt8) : ReadAs (Substitution.apply escape [b]) [b] := by
  rw [Substitution.apply, List.flatMap_singleton]
  cases escaped : escape b with
  | none =>
      refine readAs_plain ?_ ?_ ?_
      · intro low
        have each : ∀ b < 0x20, escape b ≠ none := Bytes.forall_of_each (by decide +kernel)
        exact each b low escaped
      · rintro rfl
        cases escaped
      · rintro rfl
        cases escaped
  | some parts =>
      unfold escape at escaped
      split at escaped
      case h_8 =>
        by_cases low : b < 0x20
        · rw [if_pos low] at escaped
          cases escaped
          simp only [List.flatten_singleton]
          exact readAs_control low
        · rw [if_neg low] at escaped
          cases escaped
      all_goals
        cases escaped
        exact readAs_short rfl

theorem readQuoted_escape (x rest : Bytes) :
    readQuoted (Substitution.apply escape x ++ 0x22 :: rest) = some (x, rest) := by
  induction x with
  | nil => rfl
  | cons b x ih =>
      rw [← List.singleton_append, Substitution.apply_append, List.append_assoc, readAs_escape b,
        ih]
      rfl

theorem flatten_quote (s : String) : (quoteFragments s).flatten =
    0x22 :: (Substitution.apply escape (Bytes.ofText s) ++ [0x22]) := by
  rw [quoteFragments, List.flatten_append, List.flatten_append, Substitution.flatten_fragments]
  rfl

theorem readText_quote (s : String) (rest : Bytes) :
    readText (Substitution.apply escape (Bytes.ofText s) ++ 0x22 :: rest) = some (s, rest) := by
  rw [readText, readQuoted_escape]
  simp only [Option.bind_eq_bind, Option.bind_some, Utf8.decode_ofText]
  rfl

theorem readValue_text (s : String) (rest : Bytes) :
    readValue (fuel + 1) ((quoteFragments s).flatten ++ rest) = some (.text s, rest) := by
  rw [flatten_quote, List.cons_append, List.append_assoc, readValue, skipBlanks_cons rfl]
  simp only
  rw [List.singleton_append, readText_quote]
  rfl

end LayeredTemplate.Json
