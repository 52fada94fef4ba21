import LayeredTemplate.Bytes

/-! The escape rule on whole byte strings: a backslash takes away the meaning of the byte after it
and is itself dropped when the text is resolved; one without a target is dropped too. -/
namespace LayeredTemplate.Escape

open Bytes (backslash)

/-- The index of the first `delim` that no backslash protects. -/
def find (delim : UInt8) : Bytes → Option Nat
  | [] => none
  | [b] => if b = backslash then none else if b = delim then some 0 else none
  | b :: c :: rest =>
      if b = backslash then (find delim rest).map (· + 2)
      else if b = delim then some 0
      else (find delim (c :: rest)).map (· + 1)

theorem find_lt {delim : UInt8} {x : Bytes} {i : Nat} (h : find delim x = some i) :
    i < x.length := by
  fun_induction find delim x generalizing i with
  | case1 => simp at h
  | case2 => simp at h
  | case3 => simp at h; simp [← h]
  | case4 => simp at h
  | case5 b rest ih =>
      obtain ⟨j, hj, rfl⟩ := Option.map_eq_some_iff.1 h
      have := ih hj
      simp; omega
  | case6 => simp at h; simp [← h]
  | case7 b c rest _ _ ih =>
      obtain ⟨j, hj, rfl⟩ := Option.map_eq_some_iff.1 h
      have := ih hj
      simp at this ⊢; omega

/-- What stands before the first unprotected `delim`, and what stands after it if there is one. -/
def splitFirst (delim : UInt8) (x : Bytes) : Bytes × Option Bytes :=
  match find delim x with
  | some i => (x.take i, some (x.drop (i + 1)))
  | none => (x, none)

theorem splitFirst_rest_lt {delim : UInt8} {x head rest : Bytes}
    (h : splitFirst delim x = (head, some rest)) : rest.length < x.length := by
  unfold splitFirst at h
  split at h
  · rename_i i hi
    have := find_lt hi
    simp only [Prod.mk.injEq, Option.some.injEq] at h
    rw [← h.2]; simp; omega
  · simp at h

/-- The segments between unprotected `delim`s, backslashes kept. There is always at least one. -/
def split (delim : UInt8) (x : Bytes) : List Bytes :=
  match _eq : splitFirst delim x with
  | (head, some rest) => head :: split delim rest
  | (head, none) => [head]
termination_by x.length
decreasing_by exact splitFirst_rest_lt _eq

/-- Yields the segments one by one. Nothing is left once the last of them was yielded. -/
structure Splitter where
  delim : UInt8
  left : Option Bytes
  deriving DecidableEq, Repr

namespace Splitter

def start (delim : UInt8) (x : Bytes) : Splitter := ⟨delim, some x⟩

def next (s : Splitter) : Option Bytes × Splitter :=
  match s.left with
  | none => (none, s)
  | some x =>
      let (segment, rest) := splitFirst s.delim x
      (some segment, { s with left := rest })

end Splitter

/-- The text that `x` stands for. -/
def resolve : Bytes → Bytes
  | [] => []
  | [b] => if b = backslash then [] else [b]
  | b :: c :: rest => if b = backslash then c :: resolve rest else b :: resolve (c :: rest)

/-- Nothing in `x` is escaped, so that `x` stands for itself. -/
def isPlain (x : Bytes) : Bool := !x.contains backslash

/-- `y` stands for `x`, with a backslash before every backslash and every byte that `special`
holds of, and perhaps before others. -/
inductive Protects (special : UInt8 → Prop) : Bytes → Bytes → Prop
  | nil : Protects special [] []
  | bare {b : UInt8} {x y : Bytes} : b ≠ backslash → ¬ special b →
      Protects special x y → Protects special (b :: x) (b :: y)
  | escaped {x y : Bytes} (b : UInt8) : Protects special x y →
      Protects special (b :: x) (backslash :: b :: y)

/-- The shortest such `y`. -/
def protect (special : UInt8 → Bool) (x : Bytes) : Bytes :=
  x.flatMap fun b => if b = backslash ∨ special b then [backslash, b] else [b]

end LayeredTemplate.Escape
