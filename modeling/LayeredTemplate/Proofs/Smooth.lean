import LayeredTemplate.Writing

/-! Writings as long as nothing goes wrong: against the sink that takes everything they come to what
`smooth` says. -/
namespace LayeredTemplate

namespace Sink

theorem Record.held_add (r : Record) (c : Call) : (r.add c).held = r.held ++ c.taken := by
  simp [Record.held, Record.add]

theorem accepting_call (b : Bytes) (r : Record) :
    accepting.call b r = (.took b.length, r.add ⟨b, .took b.length⟩) := rfl

/-- All of a byte string is taken in one call, and nothing in none. -/
theorem accepting_writeAll (b : Bytes) (r : Record) :
    accepting.writeAll b r = (.ok (), if b = [] then r else r.add ⟨b, .took b.length⟩) := by
  have nothing (fuel : Nat) (r : Record) : accepting.pour fuel [] r = (.ok (), r) := by
    cases fuel <;> simp [pour]
  cases b with
  | nil => exact nothing 0 r
  | cons c x =>
      have once : accepting.settle (c :: x) (accepting.patience r) r =
          (.took (x.length + 1), r.add ⟨c :: x, .took (x.length + 1)⟩) := accepting_call _ _
      rw [writeAll, List.length_cons, pour, if_neg (List.cons_ne_nil c x), once]
      simp only [List.drop_succ_cons, List.drop_length, nothing, List.cons_ne_nil, ↓reduceIte]

end Sink

namespace Writing

universe u v

variable {α : Type u} {β : Type v}

theorem map_bind {γ : Type _} (w : Writing α) (f : α → Writing β) (g : β → γ) :
    (w.bind f).map g = w.bind fun a => (f a).map g := bind_assoc ..

theorem map_map {γ : Type _} (w : Writing α) (f : α → β) (g : β → γ) :
    (w.map f).map g = w.map fun a => g (f a) := map_bind ..

theorem map_sendEach (stop : IoError → α) (next : Writing α) (fragments : List Bytes) (f : α → β) :
    (sendEach stop next fragments).map f =
      sendEach (fun e => f (stop e)) (next.map f) fragments := by
  induction fragments with
  | nil => rfl
  | cons b rest ih =>
      simp only [sendEach, map, bind, Writing.writeAll.injEq, true_and]
      funext answer
      cases answer with
      | ok => exact ih
      | error e => rfl

theorem smooth_map (w : Writing α) (f : α → β) : (w.map f).smooth = (f w.smooth.1, w.smooth.2) := by
  rw [map, smooth_bind]
  simp [smooth]

theorem smooth_sendEach (stop : IoError → α) (next : Writing α) (fragments : List Bytes) :
    (sendEach stop next fragments).smooth = (next.smooth.1, fragments ++ next.smooth.2) := by
  induction fragments with
  | nil => rfl
  | cons b rest ih => simp [sendEach, smooth, ih]

/-- The result of a writing and all the bytes that it writes, as long as nothing goes wrong. -/
def delivery (w : Writing α) : α × Bytes := (w.smooth.1, w.smooth.2.flatten)

theorem delivery_bind (w : Writing α) (f : α → Writing β) :
    (w.bind f).delivery =
      ((f w.delivery.1).delivery.1, w.delivery.2 ++ (f w.delivery.1).delivery.2) := by
  simp only [delivery, smooth_bind, List.flatten_append]

/-- A sink that takes everything gets the delivery of a writing. -/
theorem run_accepting (w : Writing α) (r : Sink.Record) :
    (w.run .accepting r).1 = w.delivery.1 ∧
      (w.run .accepting r).2.held = r.held ++ w.delivery.2 := by
  induction w generalizing r with
  | done a => simp [run, delivery, smooth]
  | writeAll b next ih =>
      rw [run, Sink.accepting_writeAll]
      obtain ⟨result, held⟩ := ih (.ok ()) (if b = [] then r else r.add ⟨b, .took b.length⟩)
      refine ⟨result, held.trans ?_⟩
      have added : (if b = [] then r else r.add ⟨b, .took b.length⟩).held = r.held ++ b := by
        split
        · simp_all
        · simp [Sink.Record.held_add, Sink.Call.taken]
      rw [added]
      simp [delivery, smooth]
  | write b next ih =>
      have answer : Sink.accepting.write b r = (.ok b.length, r.add ⟨b, .took b.length⟩) := by
        simp [Sink.write, Sink.accepting_call]
      rw [run, answer]
      obtain ⟨result, held⟩ := ih (.ok b.length) (r.add ⟨b, .took b.length⟩)
      refine ⟨result, held.trans ?_⟩
      simp [Sink.Record.held_add, Sink.Call.taken, delivery, smooth]
  | flush next ih =>
      obtain ⟨result, held⟩ := ih (.ok ()) { r with flushes := r.flushes + 1 }
      exact ⟨result, held⟩

/-! ## Portions -/

/-- Everything is written as a whole. -/
def Whole : Writing α → Prop
  | .done _ => True
  | .writeAll _ next => ∀ answer, (next answer).Whole
  | .write .. => False
  | .flush next => ∀ answer, (next answer).Whole

theorem whole_whole (w : Writing α) : w.whole.Whole := by
  induction w with
  | done a => trivial
  | writeAll b next ih => exact ih
  | write b next ih =>
      intro answer
      exact ih _
  | flush next ih => exact ih

theorem Whole.bind {w : Writing α} {f : α → Writing β} (h : w.Whole) (rest : ∀ a, (f a).Whole) :
    (w.bind f).Whole := by
  induction w with
  | done a => exact rest a
  | writeAll b next ih =>
      intro answer
      exact ih answer (h answer)
  | write b next ih => exact h.elim
  | flush next ih =>
      intro answer
      exact ih answer (h answer)

theorem Whole.map {w : Writing α} (h : w.Whole) (f : α → β) : (w.map f).Whole :=
  h.bind fun _ => trivial

/-- A sink that takes everything takes each write at once. It is not called for nothing. -/
theorem Whole.portions_accepting {w : Writing α} (h : w.Whole) (r : Sink.Record) :
    (w.run .accepting r).2.portions = r.portions ++ w.smooth.2.filter (· ≠ []) := by
  induction w generalizing r with
  | done a => simp [run, smooth]
  | writeAll b next ih =>
      rw [run, Sink.accepting_writeAll]
      refine (ih (.ok ()) (h _) _).trans ?_
      simp only [smooth]
      by_cases nothing : b = []
      · simp [nothing]
      · have taken : (r.add ⟨b, .took b.length⟩).portions = r.portions ++ [b] := by
          simp [Sink.Record.portions, Sink.Record.add, Sink.Call.taken]
        rw [if_neg nothing, taken, List.append_assoc]
        simp [nothing]
  | write b next ih => exact h.elim
  | flush next ih => exact ih (.ok ()) (h _) { r with flushes := r.flushes + 1 }

end Writing
end LayeredTemplate
