import LayeredTemplate.Proofs.Registration
import LayeredTemplate.Proofs.Stepping
import LayeredTemplate.Setup
import Mathlib.Data.List.TakeWhile

/-! A run knows handlers by the names that it looks up, and by nothing else. More names make no
difference to a run that found all it looked up, and it does not matter in which order handlers were
registered. -/
namespace LayeredTemplate

/-! ## More names -/

namespace Vocabulary

variable {ω : Type} {known grown : Vocabulary ω} {name : String} {handler : Handler ω}

/-- All that one vocabulary knows the other one knows as well. -/
def Extends (grown known : Vocabulary ω) : Prop := ∀ entry ∈ known.entries, entry ∈ grown.entries

theorem Extends.resolve (h : grown.Extends known) (found : known.resolve name = some handler) :
    grown.resolve name = some handler :=
  mem_entries_iff.1 (h _ (mem_entries_iff.2 found))

/-- New names are all added, and the vocabulary then knows these entries besides its own. -/
theorem addEach_of_new {entries : List (String × Handler ω)}
    (distinct : (entries.map Prod.fst).Nodup)
    (new : ∀ name ∈ entries.map Prod.fst, known.contains name = false) :
    (known.addEach entries).1 = .ok () ∧ ∀ name,
      (known.addEach entries).2.resolve name = (known.resolve name).or (named name entries) := by
  obtain ⟨result, resolved⟩ := known.addEach_eq distinct
  have none_taken : (entries.map Prod.fst).find? known.contains = none := by
    rw [List.find?_eq_none]
    intro name listed
    rw [new name listed]
    exact Bool.false_ne_true
  have all : known.admitted entries = entries := by
    rw [admitted, List.takeWhile_eq_self_iff]
    intro e mem
    rw [new e.1 (List.mem_map_of_mem mem)]
    rfl
  rw [none_taken] at result
  rw [all] at resolved
  exact ⟨result, resolved⟩

theorem extends_after (v : Vocabulary ω) (steps : List (Step ω)) : (v.after steps).Extends v := by
  rintro ⟨name, handler⟩ mem
  rw [mem_entries_iff] at mem ⊢
  rw [resolve_after, mem, Option.some_or]

end Vocabulary

namespace Expander

open Template (Segment)

variable {ω : Type} {known grown : Vocabulary ω}

/-- The lookups go from left to right, so that all those before a failure of another kind agree. -/
theorem planEncoders_of_extends (h : grown.Extends known) (stages : List Stage) :
    (∃ name, planEncoders known stages = .error (.unknownName name)) ∨
      planEncoders grown stages = planEncoders known stages := by
  induction stages with
  | nil => exact .inr rfl
  | cons stage rest ih =>
      cases found : known.resolve stage.name with
      | none =>
          refine .inl ⟨stage.name, ?_⟩
          simp only [planEncoders, found]
      | some handler =>
          have also := h.resolve found
          cases handler with
          | formatter format =>
              right
              simp only [planEncoders, found, also]
          | encoder build =>
              rcases ih with ⟨name, unknown⟩ | same
              · refine .inl ⟨name, ?_⟩
                simp only [planEncoders, found, unknown]
              · right
                simp only [planEncoders, found, also, same]

theorem plan_of_extends (h : grown.Extends known) (head : Stage) (encoders : List Stage) :
    (∃ name, plan known head encoders = .error (.unknownName name)) ∨
      plan grown head encoders = plan known head encoders := by
  cases found : known.resolve head.name with
  | none =>
      refine .inl ⟨head.name, ?_⟩
      simp only [plan, found]
  | some handler =>
      have also := h.resolve found
      rcases planEncoders_of_extends h encoders with ⟨name, unknown⟩ | same
      · refine .inl ⟨name, ?_⟩
        simp only [plan, found, unknown]
      · right
        simp only [plan, found, also, same]

/-- A directive fails with an unknown name before it does anything, or it does the same. -/
theorem perform_of_extends (h : grown.Extends known) (d : Directive) (p : Progress ω) :
    (∃ name, perform known d p = .done (.error (.unknownName name), p)) ∨
      perform grown d p = perform known d p := by
  cases d with
  | percent => exact .inr rfl
  | chain head encoders =>
      rcases plan_of_extends h head encoders with ⟨name, unknown⟩ | same
      · refine .inl ⟨name, ?_⟩
        simp only [perform, unknown]
      · right
        simp only [perform, same]

theorem advance_of_extends (h : grown.Extends known) (segment : Option Segment) (p : Progress ω) :
    (∃ name, advance known segment p = .done (.error (.unknownName name), p)) ∨
      advance grown segment p = advance known segment p := by
  cases segment with
  | none => exact .inr rfl
  | some segment =>
      cases segment with
      | directive d => exact perform_of_extends h d p
      | text b => exact .inr rfl
      | unclosed => exact .inr rfl
      | broken e => exact .inr rfl

theorem run_runFrom_of_extends (h : grown.Extends known) (strict : Bool) (x : List Segment)
    (p : Progress ω) (sink : Sink) (r : Sink.Record)
    (settled : ∀ name,
      ((runFrom ⟨known, strict⟩ x p).run sink r).1.result ≠ .error (.unknownName name)) :
    (runFrom ⟨grown, strict⟩ x p).run sink r = (runFrom ⟨known, strict⟩ x p).run sink r := by
  induction x generalizing p r with
  | nil => rfl
  | cons segment rest ih =>
      simp only [runFrom, Writing.run_bind] at settled ⊢
      rcases advance_of_extends h (some segment) p with ⟨name, unknown⟩ | same
      · rw [unknown] at settled
        exact absurd rfl (settled name)
      · rw [same]
        generalize (advance known (some segment) p).run sink r = done at settled ⊢
        obtain ⟨⟨result, q⟩, after⟩ := done
        cases result with
        | ok => exact ih q after settled
        | error e => rfl

end Expander

/-! ## Another order -/

namespace Setup

open Vocabulary (Registration)

variable {ω : Type}

/-- A registration while an expander is set up. -/
def register (s : Setup ω) : Registration ω → Except Failure (Setup ω)
  | .one name handler => s.add name handler
  | .bundled => s.addDefaults

/-- Registers in order, up to the first failure. -/
def registerEach (s : Setup ω) : List (Registration ω) → Except Failure (Setup ω)
  | [] => .ok s
  | r :: rest =>
      match s.register r with
      | .ok s => s.registerEach rest
      | .error e => .error e

theorem addEach_append (s : Setup ω) (x y : List (String × Handler ω)) :
    s.addEach (x ++ y) = (s.addEach x).bind fun s => s.addEach y := by
  induction x generalizing s with
  | nil => rfl
  | cons e rest ih =>
      simp only [List.cons_append, addEach]
      cases s.add e.1 e.2 with
      | error e => rfl
      | ok s => exact ih s

theorem register_eq (s : Setup ω) (r : Registration ω) : s.register r = s.addEach r.entries := by
  cases r with
  | one name handler =>
      cases grown : s.add name handler with
      | ok t => simp only [register, Registration.entries, addEach, grown]
      | error e => simp only [register, Registration.entries, addEach, grown]
  | bundled => rfl

theorem registerEach_eq (s : Setup ω) (x : List (Registration ω)) :
    s.registerEach x = s.addEach (x.flatMap Registration.entries) := by
  induction x generalizing s with
  | nil => rfl
  | cons r rest ih =>
      rw [registerEach, register_eq, List.flatMap_cons, addEach_append]
      cases s.addEach r.entries with
      | error e => rfl
      | ok s => exact ih s

/-- Setting up adds what a vocabulary by itself would add. -/
theorem exists_addEach (s : Setup ω) {entries : List (String × Handler ω)}
    (accepted : (s.vocabulary.addEach entries).1 = .ok ()) :
    ∃ t, s.addEach entries = .ok t ∧ t.vocabulary = (s.vocabulary.addEach entries).2 ∧
      t.strict = s.strict := by
  induction entries generalizing s with
  | nil => exact ⟨s, rfl, rfl, rfl⟩
  | cons e rest ih =>
      simp only [Vocabulary.addEach, addEach, add] at accepted ⊢
      cases grown : s.vocabulary.add e.1 e.2 with
      | error e =>
          rw [grown] at accepted
          cases accepted
      | ok added =>
          rw [grown] at accepted
          exact ih { s with
            vocabulary := added, journal := s.journal ++ [.registered e.2.role e.1] } accepted

/-- In whichever order new names are registered, the same expander is set up. -/
theorem registerEach_perm (s : Setup ω) {x y : List (Registration ω)} (same : y.Perm x)
    (distinct : ((x.flatMap Registration.entries).map Prod.fst).Nodup)
    (new : ∀ name ∈ (x.flatMap Registration.entries).map Prod.fst,
      s.vocabulary.contains name = false) :
    ∃ t u, s.registerEach x = .ok t ∧ s.registerEach y = .ok u ∧ u.build.1 = t.build.1 := by
  have entries : (y.flatMap Registration.entries).Perm (x.flatMap Registration.entries) :=
    same.flatMap_right _
  have names := entries.map Prod.fst
  have others : ((y.flatMap Registration.entries).map Prod.fst).Nodup :=
    names.nodup_iff.2 distinct
  have new' : ∀ name ∈ (y.flatMap Registration.entries).map Prod.fst,
      s.vocabulary.contains name = false := by
    intro name listed
    exact new name (names.mem_iff.1 listed)
  obtain ⟨accepted, resolved⟩ := Vocabulary.addEach_of_new distinct new
  obtain ⟨accepted', resolved'⟩ := Vocabulary.addEach_of_new others new'
  obtain ⟨t, built, vocabulary, strict⟩ := s.exists_addEach accepted
  obtain ⟨u, built', vocabulary', strict'⟩ := s.exists_addEach accepted'
  refine ⟨t, u, (s.registerEach_eq x).trans built, (s.registerEach_eq y).trans built', ?_⟩
  have equal : u.vocabulary = t.vocabulary := by
    apply Vocabulary.eq_of_resolve
    intro name
    rw [vocabulary, vocabulary', resolved, resolved', Vocabulary.named_perm entries distinct]
  simp only [build, equal, strict, strict']

end Setup

namespace Expander

open Vocabulary (Registration)

variable {ω : Type}

/-- A run that does not end in an unknown name makes the same calls and ends the same with any
vocabulary that knows more. And new names, none of them twice, may be registered in any order: the
names listed are the same, and so is every run. -/
theorem run_expand_by_name :
    (∀ known grown : Vocabulary ω, grown.Extends known → ∀ strict template args sink r,
      let ran := (expand ⟨known, strict⟩ template args).run sink r
      (∀ name, ran.1.result ≠ .error (.unknownName name)) →
        (expand ⟨grown, strict⟩ template args).run sink r = ran) ∧
    ∀ (s : Setup ω) (x y : List (Registration ω)), y.Perm x →
      ((x.flatMap Registration.entries).map Prod.fst).Nodup →
      (∀ name ∈ (x.flatMap Registration.entries).map Prod.fst,
        s.vocabulary.contains name = false) →
      ∃ t u, s.registerEach x = .ok t ∧ s.registerEach y = .ok u ∧
        u.vocabulary.names = t.vocabulary.names ∧ ∀ template args sink r,
          (u.build.1.expand template args).run sink r =
            (t.build.1.expand template args).run sink r := by
  constructor
  · intro known grown more strict template args sink r ran settled
    simp only [ran, expand_eq_runFrom] at settled ⊢
    exact run_runFrom_of_extends more strict _ _ sink r settled
  · intro s x y same distinct new
    obtain ⟨t, u, built, built', equal⟩ := s.registerEach_perm same distinct new
    refine ⟨t, u, built, built', congrArg (fun e => e.vocabulary.names) equal, ?_⟩
    intro template args sink r
    rw [equal]

/-- A run stops at a formatter that is no encoder, and the name behind it may mean something or not.
Names are registered before and after those that come with the library. -/
theorem run_expand_by_name_unresolved :
    let known : Vocabulary Unit :=
      Vocabulary.withRaw.after [.register (.one "json" (.formatter Json.formatter))]
    let grown := known.after
      [.register (.one "late" (.encoder Gallery.Encoders.reject)), .register .bundled]
    let template := Source.ofBytes (Bytes.ofText "a%RAW;b%RAW|json|late;c")
    let args : List (Value Unit) := [.text "x", .text "y"]
    let ran := (expand ⟨grown, true⟩ template args).run .accepting .empty
    let x : List (Registration Unit) :=
      [.one "zero" (.formatter Gallery.Formatters.silent), .bundled]
    (grown.Extends known ∧ ran.1.result = .error (.notAnEncoder "json") ∧
      ran.2.held = Bytes.ofText "axb") ∧
    ∃ t u, Setup.start.registerEach x = .ok t ∧ Setup.start.registerEach x.reverse = .ok u ∧
      u.vocabulary.names = t.vocabulary.names ∧
        (u.build.1.expand (Source.ofBytes (Bytes.ofText "%zero|cdata;")) args).run .accepting .empty =
          (t.build.1.expand (Source.ofBytes (Bytes.ofText "%zero|cdata;")) args).run .accepting
            .empty := by
  intro known grown template args ran x
  obtain ⟨more, orders⟩ := @run_expand_by_name Unit
  have extends_known : grown.Extends known := known.extends_after _
  have stopped : ((expand ⟨known, true⟩ template args).run .accepting .empty).1.result =
      .error (.notAnEncoder "json") := by decide +kernel
  have held : ((expand ⟨known, true⟩ template args).run .accepting .empty).2.held =
      Bytes.ofText "axb" := by decide +kernel
  have settled : ∀ name, ((expand ⟨known, true⟩ template args).run .accepting .empty).1.result ≠
      .error (.unknownName name) := by
    intro name
    rw [stopped]
    simp
  have same := more known grown extends_known true template args .accepting .empty settled
  refine ⟨⟨extends_known, ?_, ?_⟩, ?_⟩
  · exact (congrArg (·.1.result) same).trans stopped
  · exact (congrArg (·.2.held) same).trans held
  · obtain ⟨t, u, built, built', names, runs⟩ :=
      orders .start x x.reverse (List.reverse_perm x) (by decide +kernel) (by decide +kernel)
    exact ⟨t, u, built, built', names, runs _ args .accepting .empty⟩

end Expander
end LayeredTemplate
