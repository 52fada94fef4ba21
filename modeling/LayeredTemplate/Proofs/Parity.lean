import LayeredTemplate.Proofs.Concatenation
import Mathlib.Data.List.Induction
import Mathlib.Order.Bounds.Basic

/-! Escapes seen from the right: whether a byte is escaped hangs on the run of backslashes before it
alone. An odd run ends in a backslash whose target the byte is, in an even one all of them pair up.
-/
namespace LayeredTemplate.Escape

open Bytes (backslash)

variable {delim : UInt8}

/-- How many backslashes `x` ends in. -/
def trailing (x : Bytes) : Nat := (x.reverse.takeWhile (· = backslash)).length

theorem trailing_concat (x : Bytes) (b : UInt8) :
    trailing (x ++ [b]) = if b = backslash then trailing x + 1 else 0 := by
  unfold trailing
  by_cases escaping : b = backslash
  · simp [escaping]
  · simp [escaping]

/-- A byte in front that is no backslash changes no run. -/
theorem trailing_bare {b : UInt8} (unescaping : b ≠ backslash) (x : Bytes) :
    trailing (b :: x) = trailing x := by
  induction x using List.reverseRecOn with
  | nil => exact (trailing_concat [] b).trans (if_neg unescaping)
  | append_singleton x c ih => rw [← List.cons_append, trailing_concat, trailing_concat, ih]

/-- An escaped pair in front changes no run either, or makes it longer by two. -/
theorem trailing_escaped (b : UInt8) (x : Bytes) :
    trailing (backslash :: b :: x) % 2 = trailing x % 2 := by
  induction x using List.reverseRecOn with
  | nil =>
      have pair : trailing ([backslash] ++ [b]) = if b = backslash then 2 else 0 :=
        trailing_concat [backslash] b
      change trailing ([backslash] ++ [b]) % 2 = 0
      rw [pair]
      split
      · rfl
      · rfl
  | append_singleton x c ih =>
      rw [← List.cons_append, ← List.cons_append, trailing_concat, trailing_concat]
      split
      · omega
      · rfl

/-- The last backslash lacks a target if the run at the end is odd. -/
theorem dangles_iff (x : Bytes) : dangles x = true ↔ trailing x % 2 = 1 := by
  induction x using readingInduction with
  | nil => decide
  | dangling => decide
  | escaped b x ih => rw [dangles_escaped, trailing_escaped, ih]
  | bare b x unescaping ih => rw [dangles_bare unescaping, trailing_bare unescaping, ih]

/-- Before each `delim` stands an odd number of backslashes. -/
def Guarded (delim : UInt8) (x : Bytes) : Prop :=
  ∀ i, x[i]? = some delim → trailing (x.take i) % 2 = 1

/-- At index `i` stands a `delim`, with an even number of backslashes before it. -/
def Unescaped (delim : UInt8) (x : Bytes) (i : Nat) : Prop :=
  x[i]? = some delim ∧ trailing (x.take i) % 2 = 0

theorem guarded_iff (x : Bytes) : Guarded delim x ↔ ∀ i, ¬Unescaped delim x i := by
  refine forall_congr' fun i => ?_
  rw [Unescaped, not_and, Nat.mod_two_not_eq_zero]

theorem unescaped_escaped (unescaping : delim ≠ backslash) (b : UInt8) (x : Bytes) (i : Nat) :
    Unescaped delim (backslash :: b :: x) i ↔ ∃ j, i = j + 2 ∧ Unescaped delim x j := by
  match i with
  | 0 =>
      refine iff_of_false ?_ (by rintro ⟨j, before, -⟩; omega)
      rintro ⟨here, -⟩
      exact unescaping (Option.some.inj here).symm
  | 1 =>
      refine iff_of_false ?_ (by rintro ⟨j, before, -⟩; omega)
      rintro ⟨-, even⟩
      cases even
  | i + 2 => simp [Unescaped, trailing_escaped]

theorem unescaped_bare {b : UInt8} (unescaping : b ≠ backslash) (other : b ≠ delim) (x : Bytes)
    (i : Nat) : Unescaped delim (b :: x) i ↔ ∃ j, i = j + 1 ∧ Unescaped delim x j := by
  match i with
  | 0 =>
      refine iff_of_false ?_ (by rintro ⟨j, before, -⟩; omega)
      rintro ⟨here, -⟩
      exact other (Option.some.inj here)
  | i + 1 => simp [Unescaped, trailing_bare unescaping]

theorem guarded_of_shifted {x y : Bytes} {n : Nat}
    (shifted : ∀ i, Unescaped delim y i ↔ ∃ j, i = j + n ∧ Unescaped delim x j) :
    Guarded delim y ↔ Guarded delim x := by
  rw [guarded_iff, guarded_iff]
  constructor
  · intro guarded j found
    exact guarded (j + n) ((shifted _).2 ⟨j, rfl, found⟩)
  · intro guarded i found
    obtain ⟨j, -, found⟩ := (shifted i).1 found
    exact guarded j found

theorem guarded_escaped (unescaping : delim ≠ backslash) (b : UInt8) (x : Bytes) :
    Guarded delim (backslash :: b :: x) ↔ Guarded delim x :=
  guarded_of_shifted (unescaped_escaped unescaping b x)

theorem guarded_bare {b : UInt8} (unescaping : b ≠ backslash) (other : b ≠ delim) (x : Bytes) :
    Guarded delim (b :: x) ↔ Guarded delim x :=
  guarded_of_shifted (unescaped_bare unescaping other x)

/-- Searching finds nothing where every delimiter is guarded, and only there. -/
theorem find_eq_none_iff (unescaping : delim ≠ backslash) (x : Bytes) :
    find delim x = none ↔ Guarded delim x := by
  induction x using readingInduction with
  | nil =>
      refine iff_of_true rfl ?_
      intro i found
      cases found
  | dangling =>
      refine iff_of_true (by simp [find]) ?_
      intro i found
      have here : delim ∈ [backslash] := List.mem_of_getElem? found
      exact absurd (List.mem_singleton.1 here) unescaping
  | escaped b x ih => rw [find_escaped, Option.map_eq_none_iff, guarded_escaped unescaping, ih]
  | bare b x escaping ih =>
      by_cases found : b = delim
      · subst found
        refine iff_of_false (by simp [find_delim unescaping]) ?_
        intro guarded
        have none_before : trailing [] % 2 = 1 := guarded 0 rfl
        exact absurd none_before (by decide)
      · rw [find_bare escaping found, Option.map_eq_none_iff, guarded_bare escaping found, ih]

/-! ## The first delimiter -/

theorem isLeast_of_shifted {x y : Bytes} {i n : Nat}
    (shifted : ∀ i, Unescaped delim y i ↔ ∃ j, i = j + n ∧ Unescaped delim x j)
    (least : IsLeast {j | Unescaped delim x j} i) : IsLeast {j | Unescaped delim y j} (i + n) := by
  obtain ⟨found, first⟩ := least
  refine ⟨(shifted _).2 ⟨i, rfl, found⟩, ?_⟩
  intro j other
  obtain ⟨k, rfl, later⟩ := (shifted j).1 other
  exact Nat.add_le_add_right (first later) n

/-- What is found is the first of the delimiters that are not escaped. -/
theorem isLeast_of_find (unescaping : delim ≠ backslash) {x : Bytes} {i : Nat}
    (found : find delim x = some i) : IsLeast {j | Unescaped delim x j} i := by
  induction x using readingInduction generalizing i with
  | nil => cases found
  | dangling => simp [find] at found
  | escaped b x ih =>
      rw [find_escaped] at found
      obtain ⟨j, first, rfl⟩ := Option.map_eq_some_iff.1 found
      exact isLeast_of_shifted (unescaped_escaped unescaping b x) (ih first)
  | bare b x escaping ih =>
      by_cases here : b = delim
      · subst here
        rw [find_delim unescaping] at found
        cases found
        exact ⟨⟨rfl, rfl⟩, fun j _ => Nat.zero_le j⟩
      · rw [find_bare escaping here] at found
        obtain ⟨j, first, rfl⟩ := Option.map_eq_some_iff.1 found
        exact isLeast_of_shifted (unescaped_bare escaping here x) (ih first)

/-- A backslash is taken for the start of a pair wherever it is looked at. -/
theorem find_backslash (x : Bytes) : find backslash x = none := by
  induction x using readingInduction with
  | nil => rfl
  | dangling => simp [find]
  | escaped b x ih => rw [find_escaped, ih, Option.map_none]
  | bare b x escaping ih => rw [find_bare escaping escaping, ih, Option.map_none]

/-- A search by indices. It goes on behind a byte that is not sought, and from a backslash on behind
a whole pair, perhaps past the end. From index `i` it comes to an end with this answer. -/
inductive Searches (delim : UInt8) (x : Bytes) : (i : Nat) → (answer : Option Nat) → Prop
  | past {i : Nat} : x.length ≤ i → Searches delim x i none
  | pair {i : Nat} {answer : Option Nat} : x[i]? = some backslash →
      Searches delim x (i + 2) answer → Searches delim x i answer
  | here {i : Nat} : delim ≠ backslash → x[i]? = some delim → Searches delim x i (some i)
  | next {i : Nat} {b : UInt8} {answer : Option Nat} : x[i]? = some b → b ≠ backslash →
      b ≠ delim → Searches delim x (i + 1) answer → Searches delim x i answer

/-- The search stands before bare bytes and whole pairs only, never in the middle of a pair. -/
theorem searches_find (delim : UInt8) {x rest : Bytes} {i : Nat} (ahead : x.drop i = rest) :
    Searches delim x i ((find delim rest).map (· + i)) := by
  have here {i : Nat} {b : UInt8} {y : Bytes} (front : x.drop i = b :: y) : x[i]? = some b := by
    rw [← List.head?_drop, front, List.head?_cons]
  have moved (n i : Nat) (answer : Option Nat) :
      (answer.map (· + n)).map (· + i) = answer.map (· + (i + n)) := by
    rw [Option.map_map]
    congr 1
    funext j
    exact Nat.add_right_comm .. |>.trans (Nat.add_assoc ..)
  induction rest using readingInduction generalizing i with
  | nil => exact .past (List.drop_eq_nil_iff.1 ahead)
  | dangling =>
      have ends : find delim [backslash] = none := by simp [find]
      have whole := congrArg List.length ahead
      rw [List.length_drop, List.length_singleton] at whole
      rw [ends]
      exact .pair (here ahead) (.past (by omega))
  | escaped b y ih =>
      have later : x.drop (i + 2) = y := by rw [← List.drop_drop, ahead]; rfl
      rw [find_escaped, moved]
      exact .pair (here ahead) (ih later)
  | bare b y escaping ih =>
      have later : x.drop (i + 1) = y := by rw [← List.drop_drop, ahead]; rfl
      by_cases found : b = delim
      · subst found
        rw [find_delim escaping, Option.map_some, Nat.zero_add]
        exact .here escaping (here ahead)
      · rw [find_bare escaping found, moved]
        exact .next (here ahead) escaping found (ih later)

/-- What is found is told by the run of backslashes before it alone. The search by indices always
comes to an end, and with an index that cuts the input in two. -/
theorem find_eq_some_iff_isLeast (delim : UInt8) (x : Bytes) :
    (∀ i, find delim x = some i ↔ delim ≠ backslash ∧ IsLeast {j | Unescaped delim x j} i) ∧
      (find delim x = none ↔ delim = backslash ∨ ∀ i, ¬Unescaped delim x i) ∧
      Searches delim x 0 (find delim x) ∧
      ∀ i, find delim x = some i →
        i + 1 ≤ x.length ∧ splitFirst delim x = (x.take i, some (x.drop (i + 1))) ∧
          x.take i ++ delim :: x.drop (i + 1) = x := by
  have nowhere (escaping : delim = backslash) : find delim x = none := by
    rw [escaping, find_backslash]
  have free (unescaping : delim ≠ backslash) :
      find delim x = none ↔ ∀ i, ¬Unescaped delim x i :=
    (find_eq_none_iff unescaping x).trans (guarded_iff x)
  refine ⟨?_, ?_, ?_, ?_⟩
  · intro i
    constructor
    · intro found
      have unescaping : delim ≠ backslash := by
        intro escaping
        cases (nowhere escaping).symm.trans found
      exact ⟨unescaping, isLeast_of_find unescaping found⟩
    · rintro ⟨unescaping, least⟩
      cases found : find delim x with
      | none => exact absurd least.1 ((free unescaping).1 found i)
      | some j => rw [(isLeast_of_find unescaping found).unique least]
  · by_cases escaping : delim = backslash
    · exact iff_of_true (nowhere escaping) (.inl escaping)
    · rw [free escaping, or_iff_right escaping]
  · simpa using searches_find delim (List.drop_zero (l := x))
  · intro i found
    have inside := find_lt found
    have unescaping : delim ≠ backslash := by
      intro escaping
      cases (nowhere escaping).symm.trans found
    have here := (isLeast_of_find unescaping found).1.1
    have delim_there : x[i] = delim :=
      Option.some.inj ((List.getElem?_eq_getElem inside).symm.trans here)
    refine ⟨inside, by rw [splitFirst, found], ?_⟩
    rw [← delim_there, ← List.drop_eq_getElem_cons inside, List.take_append_drop]

/-- After runs of three, two and no backslashes, the last one being the start of a pair without a
second byte. -/
theorem find_eq_some_iff_isLeast_after_runs :
    let x := Bytes.ofText "\\\\\\|\\\\|a|\\"
    find Bytes.bar x = some 6 ∧ IsLeast {j | Unescaped Bytes.bar x j} 6 ∧
      splitFirst Bytes.bar x = (Bytes.ofText "\\\\\\|\\\\", some (Bytes.ofText "a|\\")) ∧
      find backslash x = none := by
  intro x
  obtain ⟨some_iff, -, -, cuts⟩ := find_eq_some_iff_isLeast Bytes.bar x
  obtain ⟨-, none_iff, -, -⟩ := find_eq_some_iff_isLeast backslash x
  have found : find Bytes.bar x = some 6 := by decide +kernel
  refine ⟨found, ((some_iff 6).1 found).2, ?_, none_iff.2 (.inl rfl)⟩
  rw [(cuts 6 found).2.1]
  decide +kernel

end LayeredTemplate.Escape
