import LayeredTemplate.Base64
import LayeredTemplate.CharacterData
import LayeredTemplate.Proofs.Composition

/-! Encoding in pieces comes to the same as encoding as a whole: each layer that comes with the
library computes a function of all the bytes that it receives, however they are cut. -/
namespace LayeredTemplate

/-! ## Blocks of three bytes -/

namespace Base64

/-- The whole blocks at the front of a byte string. -/
def blocks (x : Bytes) : Bytes := x.take (x.length - x.length % 3)

/-- What stands behind the last whole block. -/
def remainder (x : Bytes) : Bytes := x.drop (x.length - x.length % 3)

theorem blocks_remainder (x : Bytes) : blocks x ++ remainder x = x := List.take_append_drop ..

theorem length_blocks (x : Bytes) : (blocks x).length % 3 = 0 := by
  rw [blocks, List.length_take]
  omega

theorem length_remainder (x : Bytes) : (remainder x).length < 3 := by
  rw [remainder, List.length_drop]
  omega

theorem blocks_append {x : Bytes} (whole : x.length % 3 = 0) (y : Bytes) :
    blocks (x ++ y) = x ++ blocks y := by
  have size : (x ++ y).length - (x ++ y).length % 3 = x.length + (y.length - y.length % 3) := by
    rw [List.length_append]
    omega
  rw [blocks, size, List.take_length_add_append]
  rfl

theorem remainder_append {x : Bytes} (whole : x.length % 3 = 0) (y : Bytes) :
    remainder (x ++ y) = remainder y := by
  have joined : blocks (x ++ y) ++ remainder (x ++ y) = x ++ blocks y ++ remainder y := by
    rw [blocks_remainder, List.append_assoc, blocks_remainder]
  rw [blocks_append whole] at joined
  exact List.append_cancel_left joined

theorem blocks_of_short {x : Bytes} (short : x.length < 3) : blocks x = [] := by
  have size : x.length - x.length % 3 = 0 := by omega
  rw [blocks, size, List.take_zero]

theorem remainder_of_short {x : Bytes} (short : x.length < 3) : remainder x = x := by
  have joined := blocks_remainder x
  rwa [blocks_of_short short] at joined

/-- Blocks are encoded one by one. -/
theorem encode_append (v : Variant) {x : Bytes} (whole : x.length % 3 = 0) (y : Bytes) :
    encode v (x ++ y) = encode v x ++ encode v y := by
  match x with
  | [] => rfl
  | [_] | [_, _] => simp at whole
  | a :: b :: c :: rest =>
      have still : rest.length % 3 = 0 := by simp only [List.length_cons] at whole; omega
      simp only [List.cons_append, encode, encode_append v still]

theorem encode_blocks_remainder (v : Variant) (x : Bytes) :
    encode v (blocks x) ++ encode v (remainder x) = encode v x := by
  rw [← encode_append v (length_blocks x), blocks_remainder]

theorem blocks_remainder_append (x y : Bytes) : blocks x ++ (remainder x ++ y) = x ++ y := by
  rw [← List.append_assoc, blocks_remainder]

/-- What was left over is completed by what follows. -/
theorem remainder_remainder (x y : Bytes) : remainder (remainder x ++ y) = remainder (x ++ y) := by
  rw [← blocks_remainder_append x y, remainder_append (length_blocks x)]

theorem encode_blocks_append (v : Variant) (x y : Bytes) :
    encode v (blocks x) ++ encode v (blocks (remainder x ++ y)) = encode v (blocks (x ++ y)) := by
  rw [← blocks_remainder_append x y, blocks_append (length_blocks x),
    encode_append v (length_blocks x)]

/-! ## The layer -/

theorem delivery_writeBlocks (v : Variant) (x : Bytes) :
    (writeBlocks v x).delivery = ((.ok (), remainder x), encode v (blocks x)) := by
  unfold writeBlocks remainder blocks
  by_cases none_whole : x.length - x.length % 3 = 0
  · simp [none_whole, Writing.delivery, Writing.smooth, encode]
  · simp [none_whole, Writing.delivery, Writing.smooth_sendEach, Writing.smooth]

/-- A write settles the blocks that it completes and holds back what is left. -/
theorem delivery_write (v : Variant) (x : Bytes) {held : Bytes} (short : held.length < 3) :
    (write v x held).delivery =
      ((.ok (), remainder (held ++ x)), encode v (blocks (held ++ x))) := by
  unfold write
  by_cases nothing : held = []
  · rw [if_pos nothing, nothing]
    exact delivery_writeBlocks v x
  rw [if_neg nothing]
  have split : held ++ x =
      held ++ x.take (3 - held.length) ++ x.drop (3 - held.length) := by
    rw [List.append_assoc, List.take_append_drop]
  have size : (held ++ x.take (3 - held.length)).length =
      held.length + min (3 - held.length) x.length := by
    rw [List.length_append, List.length_take]
  by_cases partly : (held ++ x.take (3 - held.length)).length < 3
  · have all : x.length ≤ 3 - held.length := by omega
    rw [List.take_of_length_le all] at partly ⊢
    simp only [if_pos partly, blocks_of_short partly, remainder_of_short partly]
    rfl
  · have whole : (held ++ x.take (3 - held.length)).length % 3 = 0 := by omega
    have rest := delivery_writeBlocks v (x.drop (3 - held.length))
    simp only [Writing.delivery, Prod.mk.injEq] at rest
    simp only [if_neg partly, Writing.delivery, Writing.smooth_sendEach, List.flatten_append, rest]
    rw [split, remainder_append whole, blocks_append whole, encode_append v whole]
    simp

theorem delivery_finalize (v : Variant) (held : Bytes) :
    (finalize v held).delivery = ((.ok (), []), encode v held) := by
  unfold finalize
  by_cases nothing : held = []
  · simp [nothing, Writing.delivery, Writing.smooth, encode]
  · simp [nothing, Writing.delivery, Writing.smooth_sendEach, Writing.smooth]

/-- All whole blocks received so far have been written on, and nothing else has. -/
theorem feed_layer (v : Variant) (received : List Bytes) {held : Bytes} (short : held.length < 3) :
    ((layer v).feed held received).1 = remainder (held ++ received.flatten) ∧
      ((layer v).feed held received).2.flatten = encode v (blocks (held ++ received.flatten)) := by
  induction received generalizing held with
  | nil =>
      rw [List.flatten_nil, List.append_nil, blocks_of_short short, remainder_of_short short]
      exact ⟨rfl, rfl⟩
  | cons b rest ih =>
      have written := delivery_write v b short
      simp only [Writing.delivery, Prod.mk.injEq] at written
      obtain ⟨kept, sent⟩ := ih (length_remainder (held ++ b))
      have joined : held ++ (b :: rest).flatten = held ++ b ++ rest.flatten := by
        rw [List.flatten_cons, List.append_assoc]
      rw [joined, ← remainder_remainder, ← encode_blocks_append]
      have step : (layer v).feed held (b :: rest) =
          (((layer v).feed (write v b held).smooth.1.2 rest).1,
            (write v b held).smooth.2 ++ ((layer v).feed (write v b held).smooth.1.2 rest).2) := rfl
      rw [step, written.1]
      refine ⟨kept, ?_⟩
      rw [List.flatten_append, written.2, sent]

end Base64

/-! ## Layers as functions -/

namespace Layer

/-- By itself the layer makes `f` of all that it receives, and it only fails with what is beneath.
-/
structure Computes (l : Layer) (f : Bytes → Bytes) : Prop where
  steady : l.Steady
  flatten_alone : ∀ received, (l.alone l.start received).flatten = f received.flatten

theorem smooth_write_stateless (fragments : Bytes → List Bytes) (b : Bytes) :
    ((stateless fragments).write b ()).smooth = ((.ok (), ()), fragments b) := by
  simp only [stateless, Writing.smooth_sendEach, Writing.smooth, List.append_nil]

theorem flatten_feed_stateless {fragments : Bytes → List Bytes} {f : Bytes → Bytes}
    (nothing : f [] = []) (additive : ∀ x y, f (x ++ y) = f x ++ f y)
    (amount : ∀ x, (fragments x).flatten = f x) (received : List Bytes) :
    ((stateless fragments).feed () received).2.flatten = f received.flatten := by
  induction received with
  | nil => exact nothing.symm
  | cons b rest ih =>
      simp only [feed, smooth_write_stateless, List.flatten_append, List.flatten_cons, ih, amount, additive]

theorem computes_stateless {fragments : Bytes → List Bytes} {f : Bytes → Bytes}
    (nothing : f [] = []) (additive : ∀ x y, f (x ++ y) = f x ++ f y)
    (amount : ∀ x, (fragments x).flatten = f x) : (stateless fragments).Computes f where
  steady := steady_stateless fragments
  flatten_alone received := by
    rw [alone_eq]
    exact (congrArg List.flatten (List.append_nil _)).trans
      (flatten_feed_stateless nothing additive amount received)

theorem computes_passthrough : passthrough.Computes id :=
  computes_stateless rfl (fun _ _ => rfl) fun x => List.append_nil x

end Layer

namespace Substitution

variable (replacement : UInt8 → Option (List Bytes))

theorem apply_append (x y : Bytes) :
    apply replacement (x ++ y) = apply replacement x ++ apply replacement y :=
  List.flatMap_append ..

theorem flatten_fragmentsFrom (run x : Bytes) :
    (fragmentsFrom replacement run x).flatten = run.reverse ++ apply replacement x := by
  induction x generalizing run with
  | nil =>
      unfold fragmentsFrom
      by_cases nothing : run = []
      · simp [nothing, apply]
      · simp [nothing, apply]
  | cons b rest ih =>
      unfold fragmentsFrom
      have first : apply replacement (b :: rest) =
          ((replacement b).elim [b] List.flatten) ++ apply replacement rest := by
        rw [apply, List.flatMap_cons]
        cases replacement b <;> rfl
      rw [first]
      cases replacement b with
      | none => simp [ih]
      | some parts =>
          by_cases nothing : run = []
          · simp [nothing, ih]
          · simp [nothing, ih]

theorem flatten_fragments (x : Bytes) :
    (fragments replacement x).flatten = apply replacement x := flatten_fragmentsFrom ..

end Substitution

theorem CharacterData.computes_layer (keepLineBreaks : Bool) :
    (layer keepLineBreaks).Computes (encode keepLineBreaks) :=
  Layer.computes_stateless rfl (Substitution.apply_append _) (Substitution.flatten_fragments _)

namespace Base64

/-- The layer never fails by itself, whatever it holds. -/
theorem steady_layer (v : Variant) : (layer v).Steady where
  write_succeeds x held := by
    have direct (x : Bytes) : (writeBlocks v x).smooth.1.1 = .ok () :=
      congrArg (·.1.1) (delivery_writeBlocks v x)
    change (write v x held).smooth.1.1 = .ok ()
    unfold write
    split
    · exact direct x
    · simp only
      split
      · rfl
      · rw [Writing.smooth_sendEach]
        exact direct _
  finalize_succeeds f given held := by
    cases given
    exact congrArg (·.1.1) (delivery_finalize v held)

theorem computes_layer (v : Variant) : (layer v).Computes (encode v) where
  steady := steady_layer v
  flatten_alone received := by
    have short : ([] : Bytes).length < 3 := by decide
    obtain ⟨kept, sent⟩ := feed_layer v received short
    have closed : ((layer v).closing (remainder received.flatten)).flatten =
        encode v (remainder received.flatten) := congrArg Prod.snd (delivery_finalize v _)
    have start : (layer v).start = ([] : Bytes) := rfl
    rw [Layer.alone_eq, List.flatten_append, start, kept, sent, List.nil_append]
    rw [closed, encode_blocks_remainder]

end Base64
end LayeredTemplate
