import LayeredTemplate.Proofs.Chains
import LayeredTemplate.Proofs.Smooth

/-! Layers upon layers: what a stack makes of a writing, its lower part makes of what its upper part
makes of it. That is so call by call, whatever the layers do and wherever one of them fails, and it
includes their finalizing. A directive is a head over such a stack, and but for what it reports it
is determined by the value that it draws. -/
namespace LayeredTemplate

/-! ## Writings made whole -/

namespace Writing

universe u v

variable {α : Type u} {β : Type v}

theorem whole_bind (w : Writing α) (f : α → Writing β) :
    (w.bind f).whole = w.whole.bind fun a => (f a).whole := by
  induction w with
  | done a => rfl
  | writeAll b next ih => simp only [bind, whole, ih]
  | write b next ih => simp only [bind, whole, ih]
  | flush next ih => simp only [bind, whole, ih]

theorem whole_map (w : Writing α) (f : α → β) : (w.map f).whole = w.whole.map f := whole_bind ..

theorem Whole.whole_eq {w : Writing α} (h : w.Whole) : w.whole = w := by
  induction w with
  | done a => rfl
  | writeAll b next ih =>
      rw [whole]
      congr 1
      funext answer
      exact ih answer (h answer)
  | write b next ih => exact h.elim
  | flush next ih =>
      rw [whole]
      congr 1
      funext answer
      exact ih answer (h answer)

theorem run_map (w : Writing α) (f : α → β) (sink : Sink) (r : Sink.Record) :
    (w.map f).run sink r = (f (w.run sink r).1, (w.run sink r).2) := run_bind ..

/-- Writings that are the same but for what is made of their results make the same calls. -/
theorem run_eq_of_map_eq {γ : Type _} {w : Writing α} {v : Writing β} {f : α → γ} {g : β → γ}
    (same : w.map f = v.map g) (sink : Sink) (r : Sink.Record) :
    f (w.run sink r).1 = g (v.run sink r).1 ∧ (w.run sink r).2 = (v.run sink r).2 := by
  have runs := congrArg (fun writing => writing.run sink r) same
  simp only [run_map, Prod.mk.injEq] at runs
  exact runs

end Writing

namespace Layer

variable {α β : Type}

theorem carry_bind (l : Layer) (w : Writing α) (f : α → Writing β) (s : l.State) :
    l.carry (w.bind f) s = (l.carry w s).bind fun (a, s) => l.carry (f a) s := by
  induction w generalizing s with
  | done a => rfl
  | writeAll b next ih => simp only [Writing.bind, carry, Writing.bind_assoc, ih]
  | write b next ih => simp only [Writing.bind, carry, Writing.bind_assoc, ih]
  | flush next ih => simp only [Writing.bind, carry, ih]

/-- A layer is given each write as a whole anyway. -/
theorem carry_whole (l : Layer) (w : Writing α) (s : l.State) :
    l.carry w.whole s = l.carry w s := by
  induction w generalizing s with
  | done a => rfl
  | writeAll b next ih => simp only [Writing.whole, carry, ih]
  | write b next ih => simp only [Writing.whole, carry, ih]
  | flush next ih => simp only [Writing.whole, carry, ih]

theorem carry_passthrough (w : Writing α) (s : passthrough.State) :
    passthrough.carry w s = w.whole.map fun a => (a, passthrough.start) := by
  induction w with
  | done a => rfl
  | writeAll b next ih =>
      simp only [carry, Writing.whole, passthrough, stateless, Writing.sendEach, Writing.map,
        Writing.bind]
      congr 1
      funext answer
      cases answer with
      | ok => exact ih (.ok ())
      | error e => exact ih (.error e)
  | write b next ih =>
      simp only [carry, Writing.whole, passthrough, stateless, Writing.sendEach, Writing.map,
        Writing.bind]
      congr 1
      funext answer
      cases answer with
      | ok => exact ih (.ok b.length)
      | error e => exact ih (.error e)
  | flush next ih =>
      simp only [carry, Writing.whole, Writing.map, Writing.bind]
      congr 1
      funext answer
      exact ih answer

end Layer

/-! ## A stack upon a stack -/

namespace Stack

variable {α β : Type}

/-- The states of some layers and of those beneath them. -/
def join : {above below : List Layer} → States above → States below → States (above ++ below)
  | [], _, (), t => t
  | _ :: _, _, (s, states), t => (s, join states t)

theorem fresh_append (above below : List Layer) :
    fresh (above ++ below) = join (fresh above) (fresh below) := by
  induction above with
  | nil => rfl
  | cons l above ih => exact congrArg (Prod.mk l.start) ih

theorem carry_bind (layers : List Layer) (w : Writing α) (f : α → Writing β)
    (states : States layers) :
    carry layers (w.bind f) states =
      (carry layers w states).bind fun (a, states) => carry layers (f a) states := by
  induction layers generalizing α β w with
  | nil =>
      simp only [carry, Writing.whole_bind, Writing.map, Writing.bind_assoc]
      rfl
  | cons l below ih =>
      obtain ⟨s, states⟩ := states
      simp only [carry, Layer.carry_bind, ih, Writing.map, Writing.bind_assoc]
      rfl

theorem carry_done (layers : List Layer) (a : α) (states : States layers) :
    carry layers (.done a) states = .done (a, states) := by
  induction layers generalizing α a with
  | nil => rfl
  | cons l below ih =>
      obtain ⟨s, states⟩ := states
      rw [carry, Layer.carry, ih]
      rfl

theorem carry_map (layers : List Layer) (w : Writing α) (f : α → β) (states : States layers) :
    carry layers (w.map f) states =
      (carry layers w states).map fun (a, states) => (f a, states) := by
  rw [Writing.map, carry_bind, Writing.map]
  congr 1
  funext done
  obtain ⟨a, states⟩ := done
  exact carry_done layers (f a) states

theorem carry_whole (layers : List Layer) (w : Writing α) (states : States layers) :
    carry layers w.whole states = carry layers w states := by
  cases layers with
  | nil => rw [carry, carry, (Writing.whole_whole w).whole_eq]
  | cons l below =>
      obtain ⟨s, states⟩ := states
      rw [carry, carry, Layer.carry_whole]

/-- What goes through all of the layers goes through the upper ones and then through those beneath.
-/
theorem carry_append (above below : List Layer) (w : Writing α) (s : States above)
    (t : States below) :
    carry (above ++ below) w (join s t) =
      (carry below (carry above w s) t).map fun ((a, s), t) => (a, join s t) := by
  induction above generalizing α w with
  | nil =>
      simp only [carry, carry_map, carry_whole, Writing.map_map]
      exact (Writing.bind_done _).symm
  | cons l above ih =>
      obtain ⟨top, s⟩ := s
      simp only [List.cons_append, join, carry, ih, carry_map, Writing.map_map]

/-! ## Finalizing -/

/-- Finalizing, without a report of it. -/
def close : (layers : List Layer) → States layers → Writing (Except IoError Unit)
  | [], _ => .done (.ok ())
  | l :: below, (s, states) =>
      match l.finalize with
      | none => close below states
      | some f =>
          (carry below (f s) states).bind fun
            | ((.error e, _), _) => .done (.error e)
            | ((.ok _, _), states) => close below states

theorem map_fst_finalize (depth : Nat) (layers : List Layer) (states : States layers) :
    (finalize depth layers states).map Prod.fst = close layers states := by
  induction layers with
  | nil => rfl
  | cons l below ih =>
      obtain ⟨s, states⟩ := states
      simp only [finalize, close]
      cases l.finalize with
      | none => exact ih states
      | some f =>
          simp only [Writing.map_bind]
          congr 1
          funext done
          obtain ⟨⟨answer, _⟩, states⟩ := done
          cases answer with
          | error e => rfl
          | ok =>
              simp only [Writing.map_map]
              exact ih states

/-- The upper layers are finalized first, through those beneath, and these only if that succeeds. -/
theorem close_append (above below : List Layer) (s : States above) (t : States below) :
    close (above ++ below) (join s t) =
      (carry below (close above s) t).bind fun
        | (.error e, _) => .done (.error e)
        | (.ok _, t) => close below t := by
  induction above generalizing t with
  | nil =>
      simp only [close, carry_done]
      rfl
  | cons l above ih =>
      obtain ⟨top, s⟩ := s
      simp only [List.cons_append, join, close]
      cases l.finalize with
      | none => exact ih s t
      | some f =>
          simp only [carry_append, carry_bind, Writing.map, Writing.bind_assoc, Writing.bind]
          congr 1
          funext done
          obtain ⟨⟨⟨answer, _⟩, s⟩, t⟩ := done
          cases answer with
          | error e =>
              simp only [carry_done]
              rfl
          | ok => exact ih s t

/-! ## A head over a stack -/

/-- What becomes of the writing of a head in fresh layers, which are finalized if it succeeds. -/
def pass (layers : List Layer) (head : Writing (Except Failure Unit)) :
    Writing (Except Failure Unit) :=
  (carry layers head (fresh layers)).bind fun
    | (.error e, _) => .done (.error e)
    | (.ok _, states) => (close layers states).map (·.mapError .io)

theorem pass_whole (layers : List Layer) (head : Writing (Except Failure Unit)) :
    pass layers head.whole = pass layers head := by
  rw [pass, pass, carry_whole]

/-- To a lower stack the upper one, head included, is nothing but another head. -/
theorem pass_append (above below : List Layer) (head : Writing (Except Failure Unit)) :
    pass (above ++ below) head = pass below (pass above head) := by
  simp only [pass, fresh_append, carry_append, carry_bind, Writing.map, Writing.bind_assoc,
    Writing.bind]
  congr 1
  funext done
  obtain ⟨⟨result, s⟩, t⟩ := done
  cases result with
  | error e =>
      simp only [carry_done]
      rfl
  | ok =>
      simp only [close_append, carry_bind, carry_done, Writing.bind_assoc]
      congr 1
      funext done
      obtain ⟨answer, t⟩ := done
      cases answer <;> rfl

/-- A single layer that has nothing to finalize. -/
theorem pass_singleton {l : Layer} (unfinalized : l.finalize = none)
    (head : Writing (Except Failure Unit)) :
    pass [l] head = (l.carry head l.start).whole.map Prod.fst := by
  have closed (states : States [l]) : close [l] states = .done (.ok ()) := by
    obtain ⟨s, states⟩ := states
    simp only [close, unfinalized]
  simp only [pass, carry, fresh, closed, Writing.map, Writing.bind_assoc, Writing.bind]
  congr 1
  funext done
  obtain ⟨result, s⟩ := done
  cases result <;> rfl

theorem pass_passthrough (head : Writing (Except Failure Unit)) :
    pass [.passthrough] head = head.whole := by
  have carried := Layer.carry_passthrough head Layer.passthrough.start
  rw [pass_singleton rfl, carried, Writing.whole_map, Writing.map_map,
    (Writing.whole_whole head).whole_eq]
  exact Writing.bind_done head.whole

/-- A layer that changes nothing may stand anywhere. -/
theorem pass_insert_passthrough (above below : List Layer) (head : Writing (Except Failure Unit)) :
    pass (above ++ .passthrough :: below) head = pass (above ++ below) head := by
  have single : pass (.passthrough :: below) (pass above head) = pass below (pass above head) := by
    have lower := pass_append [.passthrough] below (pass above head)
    rw [pass_passthrough, pass_whole] at lower
    exact lower
  rw [pass_append, single, ← pass_append]

end Stack

/-! ## A directive but for its report -/

namespace Expander

variable {ω : Type}

/-- The same progress without what was reported. -/
def Progress.unreported (p : Progress ω) : Progress ω := { p with journal := [] }

theorem Progress.drawn_unreported (p : Progress ω) : p.unreported.drawn = p.drawn := rfl

theorem map_unreported_through (layers : List Layer) (head : Writing (Except Failure Unit))
    (p : Progress ω) :
    (through layers head p).map (Prod.map id Progress.unreported) =
      (Stack.pass layers head).map fun result => (result, p.unreported) := by
  simp only [through, Stack.pass, Writing.map_bind]
  congr 1
  funext done
  obtain ⟨result, states⟩ := done
  cases result with
  | error e => rfl
  | ok =>
      simp only [← Stack.map_fst_finalize layers.length, Writing.map_map]
      rfl

/-- A stage that cannot stand behind a head is refused whatever comes after it. -/
theorem layersOf_cons_cases (known : Vocabulary ω) (stage : Stage) :
    (∃ e, (e = .unknownName stage.name ∨ e = .notAnEncoder stage.name) ∧
        ∀ rest, layersOf known (stage :: rest) = .error e) ∨
      ∃ build, known.resolve stage.name = some (.encoder build) := by
  cases found : known.resolve stage.name with
  | none =>
      refine .inl ⟨_, .inl rfl, ?_⟩
      intro rest
      simp only [layersOf, planEncoders, found]
      rfl
  | some handler =>
      cases handler with
      | formatter format =>
          refine .inl ⟨_, .inr rfl, ?_⟩
          intro rest
          simp only [layersOf, planEncoders, found]
          rfl
      | encoder build => exact .inr ⟨build, rfl⟩

/-- What a directive needs before it draws its argument: the handler of its head, and the layers for
its other stages, top first. -/
def ready (known : Vocabulary ω) (head : Stage) (encoders : List Stage) :
    Except Failure (Handler ω × List Layer) :=
  match known.resolve head.name with
  | none => .error (.unknownName head.name)
  | some handler => (layersOf known encoders).map fun layers => (handler, layers)

/-- What the head of a directive then does with the argument. -/
def serve (handler : Handler ω) (args : Option Bytes) (layers : List Layer) (v : Value ω) :
    Writing (Except Failure Unit) :=
  match handler with
  | .formatter format => Stack.pass layers (format v args)
  | .encoder build =>
      match build args with
      | .error e => .done (.error e)
      | .ok l => Stack.pass (l :: layers) v.writeRaw

theorem map_unreported_performHead (plan : Plan ω) (layers : List Layer) (v : Value ω)
    (p : Progress ω) :
    (performHead plan layers v p).map (Prod.map id Progress.unreported) =
      (serve plan.head plan.headArgs layers v).map fun result => (result, p.unreported) := by
  unfold performHead serve
  cases plan.head with
  | formatter format => exact map_unreported_through ..
  | encoder build =>
      simp only
      cases build plan.headArgs with
      | error e => rfl
      | ok l => exact map_unreported_through ..

/-- A chain either is not ready, or draws one argument and serves it. -/
theorem map_unreported_perform (known : Vocabulary ω) (head : Stage) (encoders : List Stage)
    (p : Progress ω) :
    (perform known (.chain head encoders) p).map (Prod.map id Progress.unreported) =
      match ready known head encoders with
      | .error e => .done (.error e, p.unreported)
      | .ok (handler, layers) =>
          (serve handler head.args layers p.draw.1).map fun result =>
            (result, p.draw.2.unreported) := by
  simp only [perform, plan, ready, layersOf]
  cases known.resolve head.name with
  | none => rfl
  | some handler =>
      simp only
      cases planEncoders known encoders with
      | error e => rfl
      | ok plans =>
          simp only [Except.bind, Progress.draw_report]
          cases buildLayers plans with
          | error e => rfl
          | ok layers => exact map_unreported_performHead ..

theorem map_fst_perform (known : Vocabulary ω) (head : Stage) (encoders : List Stage)
    (p : Progress ω) :
    (perform known (.chain head encoders) p).map Prod.fst =
      match ready known head encoders with
      | .error e => .done (.error e)
      | .ok (handler, layers) => serve handler head.args layers p.draw.1 := by
  have performed := congrArg (Writing.map Prod.fst)
    (map_unreported_perform known head encoders p)
  rw [Writing.map_map] at performed
  refine Eq.trans performed ?_
  cases ready known head encoders with
  | error e => rfl
  | ok needed =>
      simp only [Writing.map_map]
      exact Writing.bind_done _

end Expander
end LayeredTemplate
