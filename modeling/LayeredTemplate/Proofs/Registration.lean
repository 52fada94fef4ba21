import LayeredTemplate.Gallery
import LayeredTemplate.Proofs.ByteOrder
import Mathlib.Data.List.Find
import Mathlib.Data.List.Nodup

/-! Names are given once. Whatever is registered later, in whichever way, a name keeps the handler
of its first registration, and a registration that fails adds nothing from the first name on that is
taken. A vocabulary is determined by what its names stand for. -/
namespace LayeredTemplate.Vocabulary

variable {ω : Type} {known added : Vocabulary ω} {name taken : String} {handler given : Handler ω}

/-! ## Entries and names -/

/-- The handler of the first entry with a name. -/
def named (name : String) (entries : List (String × Handler ω)) : Option (Handler ω) :=
  (entries.find? (·.1 = name)).map (·.2)

theorem named_append (x y : List (String × Handler ω)) :
    named name (x ++ y) = (named name x).or (named name y) := by
  rw [named, List.find?_append, Option.map_or]
  rfl

theorem named_cons (entry : String × Handler ω) (rest : List (String × Handler ω)) :
    named name (entry :: rest) = (named name [entry]).or (named name rest) :=
  named_append [entry] rest

theorem named_self : named name [(name, handler)] = some handler := by
  simp [named]

theorem named_of_ne (other : taken ≠ name) : named name [(taken, handler)] = none := by
  simp [named, other]

theorem isSome_named_iff {entries : List (String × Handler ω)} :
    (named name entries).isSome = true ↔ name ∈ entries.map (·.1) := by
  simp [named, List.find?_isSome]

/-- Where each name has one entry it stands for the handler of that. -/
theorem named_eq_some_iff {entries : List (String × Handler ω)}
    (distinct : (entries.map Prod.fst).Nodup) :
    named name entries = some handler ↔ (name, handler) ∈ entries := by
  constructor
  · intro found
    obtain ⟨e, first, rfl⟩ := Option.map_eq_some_iff.1 found
    have same : e.1 = name := by simpa using List.find?_some first
    rw [← same]
    exact List.mem_of_find?_eq_some first
  · intro mem
    have present : (named name entries).isSome = true :=
      isSome_named_iff.2 (List.mem_map_of_mem mem)
    obtain ⟨given, found⟩ := Option.isSome_iff_exists.1 present
    obtain ⟨e, first, rfl⟩ := Option.map_eq_some_iff.1 found
    have same : e.1 = name := by simpa using List.find?_some first
    have entry := List.inj_on_of_nodup_map distinct (List.mem_of_find?_eq_some first) mem same
    rw [found, entry]

/-- In such a list the order of the entries does not matter. -/
theorem named_perm {x y : List (String × Handler ω)} (same : y.Perm x)
    (distinct : (x.map Prod.fst).Nodup) (name : String) : named name y = named name x := by
  have others : (y.map Prod.fst).Nodup := (same.map Prod.fst).nodup_iff.2 distinct
  apply Option.ext
  intro handler
  rw [named_eq_some_iff others, named_eq_some_iff distinct, same.mem_iff]

theorem isSome_resolve_iff : (known.resolve name).isSome = true ↔ name ∈ known.names :=
  isSome_named_iff

theorem contains_iff : known.contains name = true ↔ name ∈ known.names := by
  simp [contains, names]

theorem contains_eq_isSome_resolve (known : Vocabulary ω) (name : String) :
    known.contains name = (known.resolve name).isSome := by
  rw [Bool.eq_iff_iff, contains_iff, isSome_resolve_iff]

theorem resolve_of_not_contains (free : known.contains name = false) :
    known.resolve name = none := by
  rw [contains_eq_isSome_resolve, Option.isSome_eq_false_iff] at free
  exact Option.isNone_iff_eq_none.1 free

/-- Names stand in the order of their bytes, each of them once. -/
theorem ascending_names (known : Vocabulary ω) :
    known.names.Pairwise fun a b => Bytes.ofText a < Bytes.ofText b := by
  rw [names, List.pairwise_map]
  exact known.sorted.imp Utf8.ofText_lt_ofText

theorem nodup_names (known : Vocabulary ω) : known.names.Nodup := by
  rw [names, List.Nodup, List.pairwise_map]
  apply known.sorted.imp
  intro a b less same
  exact String.lt_irrefl _ (same ▸ less)

theorem mem_entries_iff : (name, handler) ∈ known.entries ↔ known.resolve name = some handler :=
  (named_eq_some_iff known.nodup_names).symm

/-- Vocabularies in which all names stand for the same are the same. -/
theorem eq_of_resolve {v w : Vocabulary ω} (same : ∀ name, v.resolve name = w.resolve name) :
    v = w := by
  have distinct (v : Vocabulary ω) : v.entries.Nodup := List.Nodup.of_map _ v.nodup_names
  have members : v.entries.Perm w.entries := by
    apply (List.perm_ext_iff_of_nodup (distinct v) (distinct w)).2
    rintro ⟨name, handler⟩
    rw [mem_entries_iff, mem_entries_iff, same]
  have entries : v.entries = w.entries := by
    apply List.Perm.eq_of_pairwise _ v.sorted w.sorted members
    intro a b _ _ less more
    exact absurd (String.lt_trans less more) (String.lt_irrefl _)
  obtain ⟨_, _⟩ := v
  obtain ⟨_, _⟩ := w
  cases entries
  rfl

/-! ## Adding entries -/

theorem find?_place {entry : String × Handler ω} (other : entry.1 ≠ name)
    (es : List (String × Handler ω)) :
    (place entry es).find? (·.1 = name) = es.find? (·.1 = name) := by
  have skipped (es : List (String × Handler ω)) :
      (entry :: es).find? (·.1 = name) = es.find? (·.1 = name) :=
    List.find?_cons_of_neg (by simpa using other)
  induction es with
  | nil => exact skipped []
  | cons e rest ih =>
      unfold place
      split
      · exact skipped (e :: rest)
      · rw [List.find?_cons, List.find?_cons, ih]

theorem find?_place_self {es : List (String × Handler ω)} (fresh : ∀ e ∈ es, e.1 ≠ name) :
    (place (name, handler) es).find? (·.1 = name) = some (name, handler) := by
  induction es with
  | nil => simp [place]
  | cons e rest ih =>
      obtain ⟨first, others⟩ := List.forall_mem_cons.1 fresh
      unfold place
      split
      · simp
      · rw [List.find?_cons_of_neg (by simpa using first)]
        exact ih others

theorem add_of_contains (present : known.contains name = true) (handler : Handler ω) :
    known.add name handler = .error (.alreadyRegistered name) := dif_pos present

/-- A name that is free gets its handler, and nothing else changes. -/
theorem add_of_free (free : known.contains name = false) (handler : Handler ω) :
    ∃ added, known.add name handler = .ok added ∧ ∀ other,
      added.resolve other = (known.resolve other).or (named other [(name, handler)]) := by
  have absent : ¬known.contains name = true := by
    rw [free]
    exact Bool.false_ne_true
  refine ⟨_, dif_neg absent, ?_⟩
  intro other
  by_cases same : name = other
  · subst same
    have fresh : ∀ e ∈ known.entries, e.1 ≠ name := by
      intro e mem equal
      exact absent (contains_iff.2 (List.mem_map.2 ⟨e, mem, equal⟩))
    rw [resolve_of_not_contains free, named_self]
    exact congrArg (Option.map Prod.snd) (find?_place_self fresh)
  · rw [named_of_ne same, Option.or_none]
    exact congrArg (Option.map Prod.snd) (find?_place same known.entries)

/-- A name once taken keeps its handler. -/
theorem resolve_add (found : known.resolve name = some handler)
    (grown : known.add taken given = .ok added) : added.resolve name = some handler := by
  cases free : known.contains taken with
  | true =>
      rw [add_of_contains free] at grown
      cases grown
  | false =>
      obtain ⟨added', grown', resolve⟩ := add_of_free free given
      rw [grown] at grown'
      cases grown'
      rw [resolve, found, Option.some_or]

/-- The entries before the first one whose name is taken. -/
def admitted (known : Vocabulary ω) (entries : List (String × Handler ω)) :
    List (String × Handler ω) :=
  entries.takeWhile fun e => !known.contains e.1

theorem admitted_of_contains {e : String × Handler ω} (present : known.contains e.1 = true)
    (rest : List (String × Handler ω)) : known.admitted (e :: rest) = [] := by
  rw [admitted, List.takeWhile_cons, present]
  rfl

theorem admitted_of_free {e : String × Handler ω} (free : known.contains e.1 = false)
    (rest : List (String × Handler ω)) :
    known.admitted (e :: rest) = e :: known.admitted rest := by
  rw [admitted, List.takeWhile_cons, free]
  rfl

theorem admitted_congr {v w : Vocabulary ω} {entries : List (String × Handler ω)}
    (same : ∀ e ∈ entries, v.contains e.1 = w.contains e.1) :
    v.admitted entries = w.admitted entries := by
  induction entries with
  | nil => rfl
  | cons e rest ih =>
      obtain ⟨first, others⟩ := List.forall_mem_cons.1 same
      have later := ih others
      unfold admitted at later ⊢
      rw [List.takeWhile_cons, List.takeWhile_cons, first, later]

/-- Adding entries in order stops at the first whose name is taken. -/
theorem addEach_eq (known : Vocabulary ω) {entries : List (String × Handler ω)}
    (distinct : (entries.map Prod.fst).Nodup) :
    (known.addEach entries).1 =
        (match (entries.map Prod.fst).find? known.contains with
          | none => .ok ()
          | some name => .error (.alreadyRegistered name)) ∧
      ∀ name, (known.addEach entries).2.resolve name =
        (known.resolve name).or (named name (known.admitted entries)) := by
  induction entries generalizing known with
  | nil =>
      constructor
      · rfl
      · intro name
        exact Option.or_none.symm
  | cons e rest ih =>
      obtain ⟨once, others⟩ := List.nodup_cons.1 distinct
      cases free : known.contains e.1 with
      | true =>
          have stopped : known.addEach (e :: rest) = (.error (.alreadyRegistered e.1), known) := by
            rw [addEach, add_of_contains free]
          rw [stopped, admitted_of_contains free, List.map_cons, List.find?_cons, free]
          constructor
          · rfl
          · intro name
            exact Option.or_none.symm
      | false =>
          obtain ⟨added, grown, resolve⟩ := add_of_free free e.2
          have goes : known.addEach (e :: rest) = added.addEach rest := by
            rw [addEach, grown]
          -- the names that come later are as free as they were
          have same : ∀ d ∈ rest, added.contains d.1 = known.contains d.1 := by
            intro d mem
            have other : e.1 ≠ d.1 := by
              intro equal
              apply once
              rw [equal]
              exact List.mem_map_of_mem mem
            rw [contains_eq_isSome_resolve, contains_eq_isSome_resolve, resolve, named_of_ne other,
              Option.or_none]
          have first : (rest.map Prod.fst).find? added.contains =
              (rest.map Prod.fst).find? known.contains := by
            apply List.find?_congr
            intro name mem
            obtain ⟨d, listed, rfl⟩ := List.mem_map.1 mem
            exact same d listed
          obtain ⟨result, resolved⟩ := ih added others
          rw [goes, admitted_of_free free, List.map_cons, List.find?_cons, free]
          constructor
          · rw [result, first]
          · intro name
            rw [resolved, resolve, admitted_congr same, named_cons e (known.admitted rest),
              Option.or_assoc]

/-! ## Registrations -/

/-- What is registered at a time: one handler, or the ones that come with the library. -/
inductive Registration (ω : Type) where
  | one (name : String) (handler : Handler ω)
  | bundled

def Registration.entries : Registration ω → List (String × Handler ω)
  | .one name handler => [(name, handler)]
  | .bundled => Vocabulary.bundled

theorem Registration.distinct (r : Registration ω) : (r.entries.map Prod.fst).Nodup := by
  cases r with
  | one name handler => exact List.nodup_singleton name
  | bundled => exact (by decide : ["base64", "json", "cdata"].Nodup)

/-- What becomes of a vocabulary. A copy goes on from the same entries, whatever becomes of the one
that it was made of. -/
inductive Step (ω : Type) where
  | register (r : Registration ω)
  | copy

/-- Whether a step succeeds, and the vocabulary after it. -/
def take (v : Vocabulary ω) : Step ω → Except Failure Unit × Vocabulary ω
  | .register (.one name handler) =>
      match v.add name handler with
      | .ok added => (.ok (), added)
      | .error e => (.error e, v)
  | .register .bundled => v.install
  | .copy => (.ok (), v)

/-- The vocabulary after some steps, whether they succeed or not. -/
def after (v : Vocabulary ω) (steps : List (Step ω)) : Vocabulary ω :=
  steps.foldl (fun v step => (v.take step).2) v

/-- The entries that a registration comes to, of which the last may have failed. -/
def tried (v : Vocabulary ω) : List (String × Handler ω) → List (String × Handler ω)
  | [] => []
  | e :: rest => if v.contains e.1 then [e] else e :: v.tried rest

/-- All entries that were tried in some steps, in order. -/
def history (v : Vocabulary ω) : List (Step ω) → List (String × Handler ω)
  | [] => []
  | .register r :: rest => v.tried r.entries ++ (v.take (.register r)).2.history rest
  | .copy :: rest => v.history rest

theorem take_register (v : Vocabulary ω) (r : Registration ω) :
    v.take (.register r) = v.addEach r.entries := by
  cases r with
  | one name handler =>
      cases grown : v.add name handler with
      | ok added => simp only [take, Registration.entries, addEach, grown]
      | error e => simp only [take, Registration.entries, addEach, grown]
  | bundled => rfl

/-- A single registration fails if the name is taken, and nothing changes then. -/
theorem take_one (v : Vocabulary ω) (name : String) (handler : Handler ω) :
    let registered := v.take (.register (.one name handler))
    if v.contains name then registered = (.error (.alreadyRegistered name), v)
    else registered.1 = .ok () ∧ ∀ other,
      registered.2.resolve other = if other = name then some handler else v.resolve other := by
  intro registered
  cases free : v.contains name with
  | true =>
      rw [if_pos rfl]
      simp only [registered, take, add_of_contains free]
  | false =>
      obtain ⟨added, grown, resolve⟩ := add_of_free free handler
      have accepted : registered = (.ok (), added) := by
        simp only [registered, take, grown]
      rw [if_neg Bool.false_ne_true, accepted]
      constructor
      · rfl
      · intro other
        rw [resolve]
        by_cases same : name = other
        · rw [if_pos same.symm, ← same, resolve_of_not_contains free, named_self]
          rfl
        · rw [if_neg (Ne.symm same), named_of_ne same, Option.or_none]

/-- An entry that was tried and failed makes no difference: its name stands for something already. -/
theorem resolve_or_tried (entries : List (String × Handler ω)) :
    (known.resolve name).or (named name (known.tried entries)) =
      (known.resolve name).or (named name (known.admitted entries)) := by
  induction entries with
  | nil => rfl
  | cons e rest ih =>
      cases free : known.contains e.1 with
      | true =>
          have last : known.tried (e :: rest) = [e] := if_pos free
          rw [admitted_of_contains free, last]
          by_cases same : e.1 = name
          · rw [same, contains_eq_isSome_resolve] at free
            obtain ⟨handler, found⟩ := Option.isSome_iff_exists.1 free
            rw [found, Option.some_or, Option.some_or]
          · rw [named_of_ne same]
            rfl
      | false =>
          have goes : known.tried (e :: rest) = e :: known.tried rest :=
            if_neg (by rw [free]; exact Bool.false_ne_true)
          rw [admitted_of_free free, goes, named_cons e (known.tried rest),
            named_cons e (known.admitted rest)]
          cases named name [e] with
          | some handler => rfl
          | none => exact ih

theorem resolve_take_register (v : Vocabulary ω) (r : Registration ω) (name : String) :
    (v.take (.register r)).2.resolve name =
      (v.resolve name).or (named name (v.tried r.entries)) := by
  rw [take_register, (addEach_eq v r.distinct).2, resolve_or_tried]

/-- A name stands for what it stood for, or else for what it was first registered with. -/
theorem resolve_after (v : Vocabulary ω) (steps : List (Step ω)) (name : String) :
    (v.after steps).resolve name = (v.resolve name).or (named name (v.history steps)) := by
  induction steps generalizing v with
  | nil => exact Option.or_none.symm
  | cons step rest ih =>
      have goes : v.after (step :: rest) = (v.take step).2.after rest := rfl
      rw [goes, ih]
      cases step with
      | register r => rw [resolve_take_register, history, named_append, Option.or_assoc]
      | copy => rfl

/-- All that can be seen of the names of a vocabulary agrees. -/
structure Coherent (v : Vocabulary ω) : Prop where
  ascending : v.names.Pairwise fun a b => Bytes.ofText a < Bytes.ofText b
  length_names : v.names.length = v.size
  contains_iff : ∀ name, v.contains name = true ↔ name ∈ v.names
  resolve_iff : ∀ name, (v.resolve name).isSome = true ↔ name ∈ v.names

theorem coherent (v : Vocabulary ω) : v.Coherent where
  ascending := v.ascending_names
  length_names := List.length_map _
  contains_iff _ := Vocabulary.contains_iff
  resolve_iff _ := isSome_resolve_iff

/-- After any steps a name stands for its first registration, counting what was there at the start,
and it will after any later ones. A single registration fails if its name is taken, whatever for,
and then changes nothing; registering what comes with the library stops at the first of its names
that is taken, after the ones before it were added. -/
theorem first_registration_lasts (start : Vocabulary ω) (steps : List (Step ω)) :
    let known := start.after steps
    (∀ name, known.resolve name = named name (start.entries ++ start.history steps)) ∧
    (∀ name handler, known.resolve name = some handler →
      ∀ later, (known.after later).resolve name = some handler) ∧
    (∀ name handler,
      let registered := known.take (.register (.one name handler))
      if known.contains name then registered = (.error (.alreadyRegistered name), known)
      else registered.1 = .ok () ∧ ∀ other,
        registered.2.resolve other = if other = name then some handler else known.resolve other) ∧
    (let installed := known.take (.register .bundled)
     installed.1 =
       (match ["base64", "json", "cdata"].find? known.contains with
         | none => .ok ()
         | some name => .error (.alreadyRegistered name)) ∧
     ∀ other, installed.2.resolve other = (known.resolve other).or
       (named other (bundled.takeWhile fun e => !known.contains e.1))) ∧
    known.Coherent := by
  intro known
  refine ⟨?_, ?_, ?_, ?_, known.coherent⟩
  · intro name
    rw [named_append]
    exact resolve_after start steps name
  · intro name handler found later
    rw [resolve_after, found, Option.some_or]
  · intro name handler
    exact known.take_one name handler
  · exact addEach_eq known (Registration.distinct .bundled)

/-- A formatter has taken the second of the names that come with the library: the first one is still
added, the last one is not, and the formatter stays. -/
theorem first_registration_lasts_halfway :
    let own : Handler Unit := .formatter Gallery.Formatters.silent
    let known := withRaw.after [.register (.one "json" own), .register .bundled, .copy]
    let later : List (Step Unit) :=
      [.register (.one "json" (.encoder Gallery.Encoders.drop)), .register .bundled]
    known.names = ["RAW", "base64", "json"] ∧ known.resolve "json" = some own ∧
      (known.after later).resolve "json" = some own ∧
      (known.take (.register .bundled)).1 = .error (.alreadyRegistered "base64") := by
  intro own known later
  have names : known.names = ["RAW", "base64", "json"] := by decide +kernel
  obtain ⟨first, lasts, -, ⟨installed, -⟩, coherent⟩ := first_registration_lasts withRaw
    [.register (.one "json" own), .register .bundled, .copy]
  have found : known.resolve "json" = some own := first "json"
  refine ⟨names, found, lasts "json" own found later, installed.trans ?_⟩
  have taken : known.contains "base64" = true := by
    rw [coherent.contains_iff, names]
    decide
  change (match ["base64", "json", "cdata"].find? known.contains with
    | none => Except.ok ()
    | some name => .error (Failure.alreadyRegistered name)) = _
  rw [List.find?_cons, taken]

end LayeredTemplate.Vocabulary
