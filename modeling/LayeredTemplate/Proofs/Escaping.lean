import LayeredTemplate.Escape

/-! Laws of the escape rule. A byte string is read from the left as bare bytes and escaped pairs,
with a backslash that lacks its target at the end at most; searching, splitting and resolving all
follow that reading. -/
namespace LayeredTemplate.Escape

open Bytes (backslash)

variable {delim b : UInt8}

/-- The reading as an induction principle. -/
theorem readingInduction {motive : Bytes → Prop} (nil : motive []) (dangling : motive [backslash])
    (escaped : ∀ b x, motive x → motive (backslash :: b :: x))
    (bare : ∀ b x, b ≠ backslash → motive x → motive (b :: x)) (x : Bytes) : motive x := by
  fun_induction resolve x with
  | case1 => exact nil
  | case2 => exact dangling
  | case3 b h => exact bare b [] h nil
  | case4 c rest ih => exact escaped c rest ih
  | case5 b c rest h ih => exact bare b (c :: rest) h ih

theorem find_escaped (delim b : UInt8) (x : Bytes) :
    find delim (backslash :: b :: x) = (find delim x).map (· + 2) := by
  rw [find, if_pos rfl]

theorem find_bare (unescaping : b ≠ backslash) (other : b ≠ delim) (x : Bytes) :
    find delim (b :: x) = (find delim x).map (· + 1) := by
  cases x with
  | nil => simp only [find, if_neg unescaping, if_neg other, Option.map_none]
  | cons c x => rw [find, if_neg unescaping, if_neg other]

theorem find_delim (unescaping : delim ≠ backslash) (x : Bytes) :
    find delim (delim :: x) = some 0 := by
  cases x with
  | nil => rw [find, if_neg unescaping, if_pos rfl]
  | cons c x => rw [find, if_neg unescaping, if_pos rfl]

@[simp] theorem splitFirst_nil (delim : UInt8) : splitFirst delim [] = ([], none) := rfl

@[simp] theorem splitFirst_dangling (delim : UInt8) :
    splitFirst delim [backslash] = ([backslash], none) := by
  simp [splitFirst, find]

@[simp] theorem splitFirst_escaped (delim b : UInt8) (x : Bytes) :
    splitFirst delim (backslash :: b :: x) =
      (backslash :: b :: (splitFirst delim x).1, (splitFirst delim x).2) := by
  unfold splitFirst
  rw [find_escaped]
  cases find delim x <;> rfl

theorem splitFirst_bare (unescaping : b ≠ backslash) (other : b ≠ delim) (x : Bytes) :
    splitFirst delim (b :: x) = (b :: (splitFirst delim x).1, (splitFirst delim x).2) := by
  unfold splitFirst
  rw [find_bare unescaping other]
  cases find delim x <;> rfl

theorem splitFirst_delim (unescaping : delim ≠ backslash) (x : Bytes) :
    splitFirst delim (delim :: x) = ([], some x) := by
  unfold splitFirst
  rw [find_delim unescaping]
  rfl

theorem split_eq (delim : UInt8) (x : Bytes) :
    split delim x = (splitFirst delim x).1 :: (splitFirst delim x).2.elim [] (split delim) := by
  rw [split]
  split <;> rename_i eq <;> rw [eq] <;> rfl

@[simp] theorem resolve_dangling : resolve [backslash] = [] := by rw [resolve, if_pos rfl]

@[simp] theorem resolve_escaped (b : UInt8) (x : Bytes) :
    resolve (backslash :: b :: x) = b :: resolve x := by
  rw [resolve, if_pos rfl]

theorem resolve_bare (unescaping : b ≠ backslash) (x : Bytes) :
    resolve (b :: x) = b :: resolve x := by
  cases x with
  | nil => simp only [resolve, if_neg unescaping]
  | cons c x => rw [resolve, if_neg unescaping]

end LayeredTemplate.Escape
