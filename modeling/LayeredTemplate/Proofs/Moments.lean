import LayeredTemplate.Proofs.Failures

/-! The moments of a run at which more of its template is asked for. By then everything that was
read is run and written, and nothing else is, so that a source that fails loses nothing of what came
before. -/
namespace LayeredTemplate

/-! ## What was read -/

namespace Template

/-- What is joined alike behind any text is joined alike behind more segments. -/
theorem joined_congr {x y : List Segment} (same : ∀ text, joined text x = joined text y)
    (front : List Segment) (text : Bytes) :
    joined text (front ++ x) = joined text (front ++ y) := by
  induction front generalizing text with
  | nil => exact same text
  | cons segment front ih =>
      cases segment with
      | text b => exact ih (text ++ b)
      | directive d =>
          simp only [List.cons_append, joined]
          rw [ih]
      | unclosed => rfl
      | broken e => rfl

/-- Joining texts changes no directive. -/
theorem directives_joined {x y : List Segment} (complete : ∀ segment ∈ x, segment.IsComplete)
    (last : ∀ text, (joined text y).filterMap Segment.directive? = []) (text : Bytes) :
    (joined text (x ++ y)).filterMap Segment.directive? = x.filterMap Segment.directive? := by
  induction x generalizing text with
  | nil => exact last text
  | cons segment x ih =>
      obtain ⟨first, rest⟩ := List.forall_mem_cons.1 complete
      cases segment with
      | text b => exact ih rest (text ++ b)
      | directive d => exact congrArg (d :: ·) (ih rest [])
      | unclosed => exact first.elim
      | broken e => exact first.elim

namespace Position

/-- The segments that are still to come if the rest of the template is `y`. -/
def onward (position : Position) (y : Bytes) : List Segment :=
  match position.stand with
  | .literal pending => Template.segments (Scan.held pending ++ y)
  | .body collected pending =>
      let swept := Scan.sweep .kept Bytes.semicolon pending y
      swept.rest.elim [.unclosed] fun rest =>
        .directive (Directive.parse (collected.reverse ++ swept.output)) :: Template.segments rest

/-- With nothing more to come, no directive comes and nothing is to be written. -/
theorem onward_nil (position : Position) :
    position.onward [] = [.text []] ∨ position.onward [] = [.unclosed] := by
  obtain ⟨stand, source⟩ := position
  cases stand with
  | literal pending =>
      left
      simp only [onward]
      rw [segments_held]
      cases pending <;> rfl
  | body collected pending =>
      right
      cases pending <;> rfl

theorem onward_literal (pending : Bool) (source : Source) (y : Bytes) :
    (Position.mk (.literal pending) source).onward y =
      let swept := Scan.sweep .resolved Bytes.percent pending y
      .text swept.output :: swept.rest.elim [] bodySegments := segments_held pending y

theorem onward_body (source : Source) (y : Bytes) :
    (Position.mk (.body [] false) source).onward y = bodySegments y := by
  rw [bodySegments, Escape.splitFirst_eq_sweep]
  simp only [onward]
  cases (Scan.sweep .kept Bytes.semicolon false y).rest <;> rfl

/-- A read takes some of the bytes `x` to come. What it makes complete and what is still to come
make up what was to come before. -/
def Advances (position : Position) (x : Bytes) (tail : List Source.Event) : Prop :=
  ∃ next u y, position.read.2 = some next ∧ x = u ++ y ∧ next.source.Begins y tail ∧
    (∀ segment ∈ position.read.1, segment.IsComplete) ∧
    ∀ z text, joined text (position.onward (u ++ z)) =
      joined text (position.read.1.toList ++ next.onward z)

variable {source : Source} {x : Bytes} {tail : List Source.Event}

theorem advances_literal (h : source.Begins x tail) (more : x ≠ []) (pending : Bool) :
    (Position.mk (.literal pending) source).Advances x tail := by
  obtain ⟨u, y, later, -, bytes, begins, first⟩ :=
    Scan.chunk_of_ne_nil .resolved Bytes.percent pending h more
  cases found : (Scan.sweep .resolved Bytes.percent pending u).rest with
  | none =>
      have reads : (Position.mk (.literal pending) source).read =
          (some (.text (Scan.sweep .resolved Bytes.percent pending u).output),
            some ⟨.literal (Scan.sweep .resolved Bytes.percent pending u).pending,
              ⟨[], later⟩⟩) := by
        simp only [read, first, found]
        rfl
      rw [Advances, reads]
      refine ⟨_, u, y, rfl, bytes, begins [], ?_, ?_⟩
      · rintro segment ⟨⟩
        trivial
      · -- The text of this chunk and what the next ones add to it are joined into one.
        intro z text
        rw [onward_literal, onward_literal, Scan.sweep_append_of_none found]
        simp only [Option.toList_some, List.singleton_append, joined, List.append_assoc]
  | some rest =>
      have reads : (Position.mk (.literal pending) source).read =
          (some (.text (Scan.sweep .resolved Bytes.percent pending u).output),
            some ⟨.body [] false, ⟨rest, later⟩⟩) := by
        simp only [read, first, found]
        rfl
      -- Only the part `v` of the chunk up to the `%` is taken; the source keeps the rest.
      obtain ⟨v, -, rfl, swept⟩ := Scan.exists_swept found
      rw [Advances, reads]
      refine ⟨_, v, rest ++ y, rfl, bytes.trans (List.append_assoc ..), begins rest, ?_, ?_⟩
      · rintro segment ⟨⟩
        trivial
      · intro z text
        rw [onward_literal, onward_body, swept]
        rfl

theorem advances_body (h : source.Begins x tail) (more : x ≠ []) (collected : Bytes)
    (pending : Bool) : (Position.mk (.body collected pending) source).Advances x tail := by
  obtain ⟨u, y, later, -, bytes, begins, first⟩ :=
    Scan.chunk_of_ne_nil .kept Bytes.semicolon pending h more
  cases found : (Scan.sweep .kept Bytes.semicolon pending u).rest with
  | none =>
      have reads : (Position.mk (.body collected pending) source).read =
          (none, some ⟨.body
            ((Scan.sweep .kept Bytes.semicolon pending u).output.reverse ++ collected)
            (Scan.sweep .kept Bytes.semicolon pending u).pending, ⟨[], later⟩⟩) := by
        simp only [read, first, found]
        rfl
      rw [Advances, reads]
      refine ⟨_, u, y, rfl, bytes, begins [], ?_, ?_⟩
      · rintro segment ⟨⟩
      · intro z text
        simp only [onward, Scan.sweep_append_of_none found, List.reverse_append,
          List.reverse_reverse, List.append_assoc]
        rfl
  | some rest =>
      have reads : (Position.mk (.body collected pending) source).read =
          (some (.directive (Directive.parse (collected.reverse ++
            (Scan.sweep .kept Bytes.semicolon pending u).output))),
            some ⟨.literal false, ⟨rest, later⟩⟩) := by
        simp only [read, first, found, List.reverse_append, List.reverse_reverse]
        rfl
      obtain ⟨v, -, rfl, swept⟩ := Scan.exists_swept found
      rw [Advances, reads]
      refine ⟨_, v, rest ++ y, rfl, bytes.trans (List.append_assoc ..), begins rest, ?_, ?_⟩
      · rintro segment ⟨⟩
        trivial
      · intro z text
        simp only [onward]
        rw [swept]
        rfl

variable {position next : Position} {done : List Segment}

theorem advances (h : position.source.Begins x tail) (more : x ≠ []) :
    position.Advances x tail := by
  obtain ⟨stand, source⟩ := position
  cases stand with
  | literal pending => exact advances_literal h more pending
  | body collected pending => exact advances_body h more collected pending

/-- Once nothing is to come, nor anything behind it but the end or a failure, reading does not go
on. -/
theorem read_at_end {stop : Option IoError} (h : position.source.Begins [] tail)
    (ends : Source.Event.Ends tail stop) : position.read.2 = none := by
  obtain ⟨stand, source⟩ := position
  cases stand with
  | literal pending =>
      have ended := (Scan.chunk_at_end .resolved Bytes.percent pending ends).1
      rw [← Scan.chunk_of_nil _ _ _ h] at ended
      simp only [read, ended]
      cases stop <;> rfl
  | body collected pending =>
      have ended := (Scan.chunk_at_end .kept Bytes.semicolon pending ends).1
      rw [← Scan.chunk_of_nil _ _ _ h] at ended
      simp only [read, ended]
      cases stop <;> rfl

/-- The position is the one behind `x`, which makes these segments complete. -/
structure Behind (position : Position) (x : Bytes) (done : List Segment) : Prop where
  complete : ∀ segment ∈ done, segment.IsComplete
  onward : ∀ y, joined [] (Template.segments (x ++ y)) = joined [] (done ++ position.onward y)

theorem behind_start (source : Source) : (start source).Behind [] [] :=
  ⟨List.forall_mem_nil _, fun _ => rfl⟩

/-- What was read is then a template whose directives are those that are complete. -/
theorem Behind.directives (h : position.Behind x done) :
    directives x = done.filterMap Segment.directive? := by
  have whole := h.onward []
  rw [List.append_nil, joined_segments] at whole
  rw [Template.directives, whole]
  apply directives_joined h.complete
  intro text
  rcases position.onward_nil with nothing | nothing <;> rw [nothing] <;> rfl

/-- One read comes from behind some bytes to behind some more. -/
theorem Behind.read (h : position.Behind x done) {rest : Bytes} {stop : Option IoError}
    (begins : position.source.Begins rest tail) (ends : Source.Event.Ends tail stop)
    (goes : position.read.2 = some next) :
    ∃ u y, rest = u ++ y ∧ next.source.Begins y tail ∧
      next.Behind (x ++ u) (done ++ position.read.1.toList) := by
  have more : rest ≠ [] := by
    rintro rfl
    rw [read_at_end begins ends] at goes
    cases goes
  obtain ⟨next', u, y, reads, bytes, later, complete, onward⟩ := advances begins more
  obtain rfl : next' = next := Option.some.inj (reads.symm.trans goes)
  refine ⟨u, y, bytes, later, ?_, ?_⟩
  · rw [List.forall_mem_append]
    refine ⟨h.complete, ?_⟩
    intro segment listed
    exact complete segment (Option.mem_toList.1 listed)
  · intro z
    rw [List.append_assoc, h.onward, List.append_assoc]
    exact joined_congr (onward z) done []

/-- Reading goes on behind a directive that it makes complete. -/
theorem exists_next_of_directive {d : Directive} (made : position.read.1 = some (.directive d)) :
    ∃ next, position.read.2 = some next := by
  obtain ⟨stand, source⟩ := position
  cases stand with
  | literal pending =>
      simp only [Position.read] at made
      split at made <;> cases made
  | body collected pending =>
      simp only [Position.read] at made ⊢
      split at made <;> cases made
      exact ⟨_, rfl⟩

/-- A directive is made complete by the read that comes to its end, and not before. -/
theorem Behind.read_directive (h : position.Behind x done) {rest : Bytes} {stop : Option IoError}
    (begins : position.source.Begins rest tail) (ends : Source.Event.Ends tail stop)
    {d : Directive} (made : position.read.1 = some (.directive d)) :
    ∃ next u y, position.read.2 = some next ∧ rest = u ++ y ∧ next.source.Begins y tail ∧
      Template.directives (x ++ u) = Template.directives x ++ [d] := by
  obtain ⟨next, reads⟩ := exists_next_of_directive made
  obtain ⟨u, y, bytes, later, onward⟩ := h.read begins ends reads
  refine ⟨next, u, y, reads, bytes, later, ?_⟩
  rw [onward.directives, made, h.directives, List.filterMap_append]
  rfl

end Position
end Template

/-! ## Moments -/

namespace Expander

open Template (Position Segment)

variable {ω : Type}

/-- A run that asks for more of its template: where it stands, how far it has come, what the sink
was asked for, and the segments that it has run. -/
structure Moment (ω : Type) where
  position : Position
  progress : Progress ω
  record : Sink.Record
  done : List Segment

namespace Moment

/-- The moment at which a template is first asked for. -/
def start (template : Source) (args : List (Value ω)) : Moment ω :=
  ⟨.start template, .start args, .empty, []⟩

/-- The next moment, unless the run ends before. -/
def next? (expander : Expander ω) (sink : Sink) (m : Moment ω) : Option (Moment ω) :=
  match m.position.read with
  | (_, none) => none
  | (segment, some position) =>
      match (advance expander.vocabulary segment m.progress).run sink m.record with
      | ((.ok _, progress), record) =>
          some ⟨position, progress, record, m.done ++ segment.toList⟩
      | ((.error _, _), _) => none

/-- The moments of a run in order. -/
inductive Reached (expander : Expander ω) (sink : Sink) (first : Moment ω) : Moment ω → Prop
  | first : Reached expander sink first first
  | next {m next : Moment ω} : Reached expander sink first m →
      m.next? expander sink = some next → Reached expander sink first next

variable {expander : Expander ω} {sink : Sink} {m next : Moment ω}

/-- To the next moment a run gets by a read and by running what this makes complete. -/
theorem next?_eq_some (h : m.next? expander sink = some next) :
    m.position.read.2 = some next.position ∧
      (advance expander.vocabulary m.position.read.1 m.progress).run sink m.record =
        ((.ok (), next.progress), next.record) ∧
      next.done = m.done ++ m.position.read.1.toList := by
  unfold next? at h
  split at h
  · cases h
  · rename_i segment position reads
    split at h
    · rename_i ran
      cases h
      rw [reads]
      exact ⟨rfl, ran, rfl⟩
    · cases h

/-- From each of its moments a run goes on to its end. -/
theorem Reached.run_eq {s : Source} {args : List (Value ω)}
    (h : Reached expander sink (.start s args) m) :
    (expander.expandFrom m.position m.progress).run sink m.record =
      (expander.expand s args).run sink .empty := by
  induction h with
  | first => rfl
  | @next m next _ step ih =>
      obtain ⟨reads, ran, -⟩ := next?_eq_some step
      rw [← ih, expandFrom_eq expander m.position, Writing.run_bind, ran, reads]
      rfl

/-- At each moment a run stands behind some of what its source gives. -/
theorem Reached.exists_behind {s : Source} {args : List (Value ω)}
    (h : Reached expander sink (.start s args) m) {p : Bytes} {tail : List Source.Event}
    {stop : Option IoError} (begins : s.Begins p tail) (ends : Source.Event.Ends tail stop) :
    ∃ x y, p = x ++ y ∧ m.position.source.Begins y tail ∧ m.position.Behind x m.done := by
  induction h with
  | first => exact ⟨[], p, rfl, begins, Position.behind_start s⟩
  | next _ step ih =>
      obtain ⟨x, y, bytes, left, behind⟩ := ih
      obtain ⟨reads, -, done⟩ := next?_eq_some step
      obtain ⟨u, z, more, later, onward⟩ := behind.read left ends reads
      refine ⟨x ++ u, z, ?_, later, ?_⟩
      · rw [bytes, more, List.append_assoc]
      · rw [done]
        exact onward

/-- What a sink that takes everything holds at a moment is the output of the segments run so far. -/
theorem Reached.walk_done {s : Source} {args : List (Value ω)}
    (h : Reached expander .accepting (.start s args) m) :
    walk expander.vocabulary m.done args = ⟨m.record.held, .ok m.progress.waiting⟩ := by
  induction h with
  | first => rfl
  | @next m next _ step ih =>
      -- Walking the segments run before, and then the one that this read made complete.
      obtain ⟨-, ran, done⟩ := next?_eq_some step
      obtain ⟨outcome, held⟩ :=
        Writing.run_accepting (advance expander.vocabulary m.position.read.1 m.progress) m.record
      have walked := delivery_advance expander.vocabulary m.position.read.1 m.progress
      simp only [ran] at outcome held
      simp only [← outcome, Except.map] at walked
      rw [done, walk_append, ih, Course.next_of_ok rfl, walked, held]

/-- At each moment a sink that takes everything holds what it would if the template ended there. -/
theorem Reached.held_eq {s : Source} {args : List (Value ω)}
    (h : Reached expander .accepting (.start s args) m) {x : Bytes}
    (behind : m.position.Behind x m.done) :
    m.record.held = ((expander.expand (.ofBytes x) args).run .accepting .empty).2.held := by
  have whole := behind.onward []
  rw [List.append_nil, Template.joined_segments] at whole
  have read := (Template.joined_read (Source.delivers_ofBytes x)).trans whole
  have silent (waiting : List (Value ω)) :
      (walk expander.vocabulary (m.position.onward []) waiting).output = [] := by
    rcases m.position.onward_nil with nothing | nothing <;> rw [nothing] <;> rfl
  rw [(run_expand_walk expander read args .empty).1, walk_append, h.walk_done,
    Course.next_of_ok rfl, silent]
  exact (List.append_nil _).symm

end Moment

/-! ## Sources that fail -/

/-- The result of a run whose source fails, from the result of the run that comes to an end there.
The failure of the source takes the place of a success, and of what is found at the end. -/
def cutShort (e : IoError) (atEnd : Failure → Bool) : Except Failure Unit → Except Failure Unit
  | .ok _ => .error (.io e)
  | .error f => if atEnd f then .error (.io e) else .error f

/-- The failure of a source is told from the run that comes to an end where the source fails, by a
test that the failure of a directive does not pass, and what is found at the end does. -/
theorem result_of_failsAfter (expander : Expander ω) {s t : Source} {p : Bytes} {e : IoError}
    (fails : s.FailsAfter p e) (complete : t.Delivers p) (args : List (Value ω))
    {atEnd : Failure → Bool}
    (before : ∀ f, firstFailure? expander.vocabulary (Template.directives p) args = some f →
      atEnd f = false)
    (found : firstFailure? expander.vocabulary (Template.directives p) args = none →
      ∀ f, f.endsTemplate → atEnd f = true) :
    ((expander.expand s args).run .accepting .empty).1.result =
      cutShort e atEnd ((expander.expand t args).run .accepting .empty).1.result := by
  have results := (run_expand_of_failsAfter expander fails complete args).2
  cases failed : firstFailure? expander.vocabulary (Template.directives p) args with
  | some f =>
      rw [failed] at results
      rw [results.1, results.2, cutShort, before f failed]
      rfl
  | none =>
      rw [failed] at results
      have told := found failed
      obtain ⟨result, ended | ended | ⟨unused, ended⟩⟩ := results
      · rw [result, ended, cutShort]
      · rw [result, ended, cutShort, if_pos (told _ rfl)]
      · rw [result, ended, cutShort, if_pos (told _ rfl)]

/-- From a source that fails after `p` an expansion delivers just what the whole template `p` would
have it deliver. It fails with the error of the source if the run over `p` succeeds, or if it is the
end of `p` that this run fails at and none of its directives, and else with the failure of that run.
Which of the two it is the failure tells by itself as long as no handler fails with what is found at
the end of a template. So it goes from moment to moment: whenever more of the template is asked for,
the bytes that were read are run as a template that ends there, and a directive is run when its end
was read. -/
theorem run_expand_failsAfter (expander : Expander ω) {s t : Source} {p : Bytes} {e : IoError}
    (fails : s.FailsAfter p e) (complete : t.Delivers p) (args : List (Value ω)) :
    let (outcome, record) := (expander.expand s args).run .accepting .empty
    let (whole, all) := (expander.expand t args).run .accepting .empty
    let failed := firstFailure? expander.vocabulary (Template.directives p) args
    record.held = all.held ∧
      outcome.result = cutShort e (fun f => f.endsTemplate && failed.isNone) whole.result ∧
      (expander.vocabulary.FailsWithin (¬ ·.endsTemplate) →
        outcome.result = cutShort e Failure.endsTemplate whole.result) ∧
      ∀ m, Moment.Reached expander .accepting (.start s args) m →
        (expander.expandFrom m.position m.progress).run .accepting m.record = (outcome, record) ∧
        ∃ x y, p = x ++ y ∧ m.position.source.FailsAfter y e ∧
          m.record.held = ((expander.expand (.ofBytes x) args).run .accepting .empty).2.held ∧
          m.done.filterMap Segment.directive? = Template.directives x ∧
          ∀ d, m.position.read.1 = some (.directive d) → ∃ next u z,
            m.position.read.2 = some next ∧ y = u ++ z ∧ next.source.FailsAfter z e ∧
              Template.directives (x ++ u) = Template.directives x ++ [d] := by
  refine ⟨(run_expand_of_failsAfter expander fails complete args).1, ?_, ?_, ?_⟩
  · apply result_of_failsAfter expander fails complete args
    · intro f failed
      simp [failed]
    · intro failed f atEnd
      simp [failed, atEnd]
  · intro honest
    apply result_of_failsAfter expander fails complete args
    · intro f failed
      have other := within_firstFailure? (fun _ h => h.not_endsTemplate) honest failed
      simpa using other
    · exact fun _ _ atEnd => atEnd
  · intro m reached
    obtain ⟨lasting, later, begins⟩ := fails
    have ends : Source.Event.Ends (.failed e :: later) (some e) := ⟨later, rfl⟩
    obtain ⟨x, y, bytes, left, behind⟩ := reached.exists_behind begins ends
    refine ⟨reached.run_eq, x, y, bytes, ⟨lasting, later, left⟩, reached.held_eq behind,
      behind.directives.symm, ?_⟩
    intro d made
    obtain ⟨next, u, z, reads, more, behind, complete⟩ := behind.read_directive left ends made
    exact ⟨next, u, z, reads, more, ⟨lasting, later, behind⟩, complete⟩

/-- The failure comes behind a backslash without its target, and an argument is left over. The
source has been asked for more in the middle of the directive. -/
theorem run_expand_failsAfter_dangling :
    let expander : Expander Unit := ⟨.withDefaults, true⟩
    let p := Bytes.ofText "x%base64;y\\"
    let gone : IoError := ⟨.brokenPipe, "gone"⟩
    let s := Source.ofEvents [.chunk (Bytes.ofText "x%bas"), .interrupted,
      .chunk (Bytes.ofText "e64;y\\"), .interrupted, .failed gone, .chunk (Bytes.ofText "z")]
    let args : List (Value Unit) := [.text "a", .text "b"]
    s.FailsAfter p gone ∧ (Source.ofBytes p).Delivers p ∧
      expander.vocabulary.FailsWithin (¬ ·.endsTemplate) ∧
      (let (outcome, record) := (expander.expand s args).run .accepting .empty
       let (whole, all) := (expander.expand (.ofBytes p) args).run .accepting .empty
       record.held = Bytes.ofText "xYQ==y" ∧ all.held = Bytes.ofText "xYQ==y" ∧
         outcome.result = .error (.io gone) ∧ whole.result = .error (.unusedArguments 1)) ∧
      ∃ m x y, Moment.Reached expander .accepting (.start s args) m ∧ p = x ++ y ∧
        m.position.source.FailsAfter y gone ∧ m.record.held = Bytes.ofText "x" ∧
          Template.directives x = [] := by
  intro expander p gone s args
  have fails : s.FailsAfter p gone := by
    refine ⟨by decide, [.chunk (Bytes.ofText "z")], ?_⟩
    refine ⟨[.chunk (Bytes.ofText "x%bas"), .interrupted, .chunk (Bytes.ofText "e64;y\\"),
      .interrupted], rfl, ?_, ?_⟩
    · decide +kernel
    · decide +kernel
  have complete := Source.delivers_ofBytes p
  have honest : expander.vocabulary.FailsWithin (¬ ·.endsTemplate) :=
    Vocabulary.isBundled_withDefaults.failsWithin.mono fun _ h => h.not_endsTemplate
  have all : ((expander.expand (.ofBytes p) args).run .accepting .empty).2.held =
      Bytes.ofText "xYQ==y" := by decide +kernel
  have whole : ((expander.expand (.ofBytes p) args).run .accepting .empty).1.result =
      .error (.unusedArguments 1) := by decide +kernel
  obtain ⟨held, -, result, moments⟩ := run_expand_failsAfter expander fails complete args
  have cut : cutShort gone Failure.endsTemplate (.error (.unusedArguments 1)) =
      .error (.io gone) := rfl
  refine ⟨fails, complete, honest, ⟨held.trans all, all, ?_, whole⟩, ?_⟩
  · rw [result honest, whole, cut]
  · have second : (((Moment.start s args).next? expander .accepting).bind
        (·.next? expander .accepting)).map
          (fun m => (m.record.held, m.done.filterMap Segment.directive?)) =
        some (Bytes.ofText "x", []) := by decide +kernel
    obtain ⟨m, found, seen⟩ := Option.map_eq_some_iff.1 second
    obtain ⟨before, first, next⟩ := Option.bind_eq_some_iff.1 found
    have reached : Moment.Reached expander .accepting (.start s args) m :=
      .next (.next .first first) next
    obtain ⟨held, none_run⟩ := Prod.mk.inj seen
    obtain ⟨-, x, y, bytes, left, -, ran, -⟩ := moments m reached
    exact ⟨m, x, y, reached, bytes, left, held, ran.symm.trans none_run⟩

/-- A handler that expands a template of its own may fail for what it finds at the end of that one.
Then the failure of the source stays unseen, though the run over what it gave ends as if in the
middle of a directive. -/
theorem run_expand_failsAfter_nested :
    let nested : Formatter Unit := fun _ args =>
      ((bare : Expander Unit).expand (.ofBytes (args.getD [])) []).map Outcome.result
    let expander : Expander Unit :=
      ⟨(Vocabulary.withRaw.addEach [("nested", .formatter nested)]).2, false⟩
    let p := Bytes.ofText "a%nested:%RAW;b"
    let gone : IoError := ⟨.brokenPipe, "gone"⟩
    let s := Source.ofEvents [.chunk p, .failed gone]
    s.FailsAfter p gone ∧ (Source.ofBytes p).Delivers p ∧
      ((expander.expand (.ofBytes p) []).run .accepting .empty).1.result =
        .error .incompleteDirective ∧
      ((expander.expand s []).run .accepting .empty).1.result ≠ .error (.io gone) := by
  intro nested expander p gone s
  have fails : s.FailsAfter p gone := by
    refine ⟨by decide, [], [.chunk p], rfl, ?_, ?_⟩
    · decide +kernel
    · decide +kernel
  have whole : ((expander.expand (.ofBytes p) []).run .accepting .empty).1.result =
      .error .incompleteDirective := by decide +kernel
  have hidden : ((expander.expand s []).run .accepting .empty).1.result =
      .error .incompleteDirective := by decide +kernel
  refine ⟨fails, Source.delivers_ofBytes p, whole, ?_⟩
  rw [hidden]
  simp

end Expander
end LayeredTemplate
