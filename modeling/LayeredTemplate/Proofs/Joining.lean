import LayeredTemplate.Proofs.Parity
import LayeredTemplate.Proofs.Rendering

/-! Splitting at a delimiter and joining with it undo each other. Joining the segments of a byte
string gives it back, always. Splitting gives back what was joined if no part has a delimiter of its
own and none but the last could take the meaning of the one behind it away; so parts whose
delimiters and backslashes are protected come back as they were. -/
namespace LayeredTemplate.Escape

open Bytes (backslash)

variable {delim : UInt8} {x : Bytes}

/-! ## Splitting, then joining -/

/-- The two sides of the first delimiter, and the delimiter, are all that there is. -/
theorem splitFirst_append (delim : UInt8) (x : Bytes) :
    (splitFirst delim x).1 ++ (splitFirst delim x).2.elim [] (delim :: ·) = x := by
  induction x using readingInduction with
  | nil => rfl
  | dangling => rw [splitFirst_dangling]; rfl
  | escaped b x ih =>
      rw [splitFirst_escaped]
      exact congrArg (backslash :: b :: ·) ih
  | bare b x unescaping ih =>
      by_cases found : b = delim
      · subst found
        rw [splitFirst_delim unescaping]
        rfl
      · rw [splitFirst_bare unescaping found]
        exact congrArg (b :: ·) ih

theorem find_fst_splitFirst (delim : UInt8) (x : Bytes) :
    find delim (splitFirst delim x).1 = none := by
  induction x using readingInduction with
  | nil => rfl
  | dangling => rw [splitFirst_dangling]; simp [find]
  | escaped b x ih => rw [splitFirst_escaped, find_escaped, ih, Option.map_none]
  | bare b x unescaping ih =>
      by_cases found : b = delim
      · subst found
        rw [splitFirst_delim unescaping]
        rfl
      · rw [splitFirst_bare unescaping found, find_bare unescaping found, ih, Option.map_none]

theorem split_ne_nil (delim : UInt8) (x : Bytes) : split delim x ≠ [] := by
  rw [split_eq]
  exact List.cons_ne_nil _ _

theorem intercalate_split (delim : UInt8) (x : Bytes) :
    [delim].intercalate (split delim x) = x := by
  fun_induction split delim x with
  | case1 x segment rest apart ih =>
      have whole := splitFirst_append delim x
      rw [apart] at whole
      rw [List.intercalate_cons_of_ne_nil (split_ne_nil delim rest), ih, ← whole,
        List.append_assoc]
      rfl
  | case2 x segment apart =>
      rw [List.intercalate_singleton]
      exact splitFirst_of_none apart

theorem find_of_mem_split {segment : Bytes} (h : segment ∈ split delim x) :
    find delim segment = none := by
  fun_induction split delim x with
  | case1 x first rest apart ih =>
      rcases List.mem_cons.1 h with rfl | later
      · have free := find_fst_splitFirst delim x
        rwa [apart] at free
      · exact ih later
  | case2 x first apart =>
      have free := find_fst_splitFirst delim x
      rw [apart] at free
      rwa [List.mem_singleton.1 h]

/-- What follows the first segment is the other segments, joined, if there are any. -/
theorem splitFirst_of_split {first : Bytes} {more : List Bytes}
    (apart : split delim x = first :: more) :
    splitFirst delim x = (first, if more = [] then none else some ([delim].intercalate more)) := by
  rw [split_eq] at apart
  obtain ⟨rfl, rfl⟩ := List.cons.inj apart
  cases after : (splitFirst delim x).2 with
  | none => exact Prod.ext rfl after
  | some rest =>
      rw [Option.elim_some, if_neg (split_ne_nil delim rest), intercalate_split]
      exact Prod.ext rfl after

/-! ## One segment after the other -/

/-- The answer to call number `n`, counted from zero. -/
def Splitter.answer : Splitter → Nat → Option Bytes
  | s, 0 => s.next.1
  | s, n + 1 => s.next.2.answer n

/-- The segments are yielded in order, and nothing is ever yielded behind them. -/
theorem Splitter.answer_eq (s : Splitter) (n : Nat) :
    s.answer n = (s.left.elim [] (split s.delim))[n]? := by
  induction n generalizing s with
  | zero =>
      obtain ⟨delim, left⟩ := s
      cases left with
      | none => rfl
      | some x =>
          rw [Option.elim_some, split_eq]
          rfl
  | succ n ih =>
      obtain ⟨delim, left⟩ := s
      rw [answer, ih]
      cases left with
      | none => rfl
      | some x =>
          rw [Option.elim_some, split_eq delim x]
          rfl

/-! ## Joining, then splitting -/

/-- Nothing follows that such a segment could take the meaning away from. -/
theorem Guarded.skips (guarded : Guarded delim x) (unescaping : delim ≠ backslash)
    (even : trailing x % 2 = 0) : Skips delim x := by
  have absent : splitFirst delim x = (x, none) := by
    rw [splitFirst, (find_eq_none_iff unescaping x).2 guarded]
  have complete : dangles x = false := by
    rw [← Bool.not_eq_true, dangles_iff]
    omega
  intro y
  exact splitFirst_append_of_none absent complete y

/-- Only the last part may end on a backslash that lacks its target. -/
theorem split_intercalate (unescaping : delim ≠ backslash) {parts : List Bytes}
    (nonempty : parts ≠ []) (whole : ∀ part ∈ parts, split delim part = [part])
    (skips : ∀ part ∈ parts.dropLast, Skips delim part) :
    split delim ([delim].intercalate parts) = parts := by
  induction parts with
  | nil => exact absurd rfl nonempty
  | cons part rest ih =>
      obtain ⟨first, others⟩ := List.forall_mem_cons.1 whole
      by_cases last : rest = []
      · subst last
        rw [List.intercalate_singleton, first]
      · rw [List.dropLast_cons_of_ne_nil last] at skips
        obtain ⟨skip, later⟩ := List.forall_mem_cons.1 skips
        rw [List.intercalate_cons_of_ne_nil last, List.append_assoc, List.singleton_append,
          skip.split_delim unescaping, ih last others later]

theorem Guarded.split_self (guarded : Guarded delim x) (unescaping : delim ≠ backslash) :
    split delim x = [x] := by
  rw [split_eq, splitFirst, (find_eq_none_iff unescaping x).2 guarded]
  rfl

/-- Protected parts come back as they were. -/
theorem resolve_split_protect (unescaping : delim ≠ backslash) {parts : List Bytes}
    (nonempty : parts ≠ []) :
    (split delim ([delim].intercalate (parts.map (protect (· = delim))))).map resolve = parts := by
  have protects (part : Bytes) := protects_protect (fun b => decide (b = delim)) part
  have skips (part : Bytes) : Skips delim (protect (· = delim) part) :=
    (protects part).skips (decide_eq_true rfl)
  have apart : split delim ([delim].intercalate (parts.map (protect (· = delim)))) =
      parts.map (protect (· = delim)) := by
    apply split_intercalate unescaping
    · exact fun none_there => nonempty (List.map_eq_nil_iff.1 none_there)
    · intro written among
      obtain ⟨part, -, rfl⟩ := List.mem_map.1 among
      exact (skips part).split_self
    · intro written among
      obtain ⟨part, -, rfl⟩ := List.mem_map.1 (List.dropLast_subset _ among)
      exact skips part
  rw [apart, List.map_map]
  exact List.map_id'' (fun part => (protects part).resolve_self) parts

/-- The segments of a byte string come one by one, there is at least one, they hold no delimiter of
their own, and joined they are the byte string again; the first split takes the first of them and
leaves the others joined. Parts that hold no delimiter come back from their join if all but the last
have a target for their last backslash, and any parts do if they are protected. -/
theorem split_inverts_join (delim : UInt8) :
    (∀ x : Bytes, ∃ first more, split delim x = first :: more ∧
      (∀ n, (Splitter.start delim x).answer n = (first :: more)[n]?) ∧
      [delim].intercalate (first :: more) = x ∧
      (∀ segment ∈ first :: more, find delim segment = none ∧
        (delim ≠ backslash → Guarded delim segment)) ∧
      splitFirst delim x =
        (first, if more = [] then none else some ([delim].intercalate more))) ∧
    (delim ≠ backslash → ∀ parts : List Bytes, parts ≠ [] →
      ((∀ part ∈ parts, Guarded delim part) → (∀ part ∈ parts.dropLast, trailing part % 2 = 0) →
        split delim ([delim].intercalate parts) = parts) ∧
      (split delim ([delim].intercalate (parts.map (protect (· = delim))))).map resolve =
        parts) := by
  refine ⟨?_, ?_⟩
  · intro x
    obtain ⟨first, more, apart⟩ := List.exists_cons_of_ne_nil (split_ne_nil delim x)
    refine ⟨first, more, apart, ?_, ?_, ?_, splitFirst_of_split apart⟩
    · intro n
      rw [Splitter.answer_eq, ← apart]
      rfl
    · rw [← apart]
      exact intercalate_split delim x
    · intro segment among
      rw [← apart] at among
      have free := find_of_mem_split among
      exact ⟨free, fun unescaping => (find_eq_none_iff unescaping segment).1 free⟩
  · intro unescaping parts nonempty
    refine ⟨?_, resolve_split_protect unescaping nonempty⟩
    intro guarded even
    apply split_intercalate unescaping nonempty
    · intro part among
      exact (guarded part among).split_self unescaping
    · intro part among
      exact (guarded part (List.dropLast_subset _ among)).skips unescaping (even part among)

/-- Escaped delimiters, an empty segment, and a last one that ends on a backslash. -/
theorem split_inverts_join_dangling :
    let parts := [Bytes.ofText "a\\|\\\\", [], Bytes.ofText "|b\\"]
    let segments := [Bytes.ofText "a\\|\\\\", [], Bytes.ofText "b\\"]
    Bytes.bar ≠ backslash ∧ parts ≠ [] ∧ segments ≠ [] ∧
      (∀ segment ∈ segments, Guarded Bytes.bar segment) ∧
      (∀ segment ∈ segments.dropLast, trailing segment % 2 = 0) ∧
      split Bytes.bar (Bytes.ofText "a\\|\\\\||b\\") = segments ∧
      (split Bytes.bar (Bytes.ofText "a\\\\\\|\\\\\\\\||\\|b\\\\")).map resolve = parts := by
  intro parts segments
  have unescaping : Bytes.bar ≠ backslash := by decide
  have guarded : ∀ segment ∈ segments, Guarded Bytes.bar segment := by
    intro segment among
    rw [← find_eq_none_iff unescaping]
    revert segment
    decide +kernel
  have even : ∀ segment ∈ segments.dropLast, trailing segment % 2 = 0 := by decide +kernel
  obtain ⟨-, joined⟩ := split_inverts_join Bytes.bar
  obtain ⟨apart, -⟩ := joined unescaping segments (List.cons_ne_nil _ _)
  obtain ⟨-, back⟩ := joined unescaping parts (List.cons_ne_nil _ _)
  have plain : [Bytes.bar].intercalate segments = Bytes.ofText "a\\|\\\\||b\\" := by
    decide +kernel
  have escaped : [Bytes.bar].intercalate (parts.map (protect (· = Bytes.bar))) =
      Bytes.ofText "a\\\\\\|\\\\\\\\||\\|b\\\\" := by
    decide +kernel
  rw [plain] at apart
  rw [escaped] at back
  exact ⟨unescaping, List.cons_ne_nil _ _, List.cons_ne_nil _ _, guarded, even,
    apart guarded even, back⟩

end LayeredTemplate.Escape
