import LayeredTemplate.Proofs.Scanning
import LayeredTemplate.Template

/-! Reading a template from a source gives the segments of its bytes, however they are cut into
chunks and whatever interrupts them. Only the texts come in more pieces. -/
namespace LayeredTemplate.Template

open Escape (splitFirst resolve)

/-- Segments after `text`, with texts in a row made one: the form that `segmentsOf` has. -/
def joined : (text : Bytes) → List Segment → List Segment
  | text, [] => [.text text]
  | text, .text b :: rest => joined (text ++ b) rest
  | text, .directive d :: rest => .text text :: .directive d :: joined [] rest
  | text, .unclosed :: _ => [.text text, .unclosed]
  | text, .broken e :: _ => [.text text, .broken e]

/-- The segments that are left of a template if its source fails at the end. -/
def broken (e : IoError) : List Segment → List Segment
  | [] | .unclosed :: _ => [.broken e]
  | segment :: rest => segment :: broken e rest

def stopped (stop : Option IoError) (segments : List Segment) : List Segment :=
  stop.elim segments fun e => broken e segments

/-- The segments of what follows a `%`. -/
def bodySegments (rest : Bytes) : List Segment :=
  match splitFirst Bytes.semicolon rest with
  | (_, none) => [.unclosed]
  | (body, some rest) => .directive (Directive.parse body) :: segments rest

theorem segments_eq (t : Bytes) :
    segments t = .text (resolve (splitFirst Bytes.percent t).1) ::
      (splitFirst Bytes.percent t).2.elim [] bodySegments := by
  rw [segments]
  split
  · rename_i text eq
    rw [eq]
    rfl
  · rename_i text rest eq
    rw [eq]
    simp only [Option.elim, bodySegments]
    split <;> rename_i inner <;> rw [inner]

theorem segments_plain {t text : Bytes} (outer : splitFirst Bytes.percent t = (text, none)) :
    segments t = [.text (resolve text)] := by
  rw [segments_eq, outer]
  rfl

theorem segments_unclosed {t text rest body : Bytes}
    (outer : splitFirst Bytes.percent t = (text, some rest))
    (inner : splitFirst Bytes.semicolon rest = (body, none)) :
    segments t = [.text (resolve text), .unclosed] := by
  rw [segments_eq, outer, Option.elim_some, bodySegments, inner]

theorem segments_directive {t text rest body next : Bytes}
    (outer : splitFirst Bytes.percent t = (text, some rest))
    (inner : splitFirst Bytes.semicolon rest = (body, some next)) :
    segments t = .text (resolve text) :: .directive (Directive.parse body) :: segments next := by
  rw [segments_eq, outer, Option.elim_some, bodySegments, inner]

/-- A template is plain text, or its first directive is unclosed, or else a template comes after
it. -/
theorem templateInduction {motive : Bytes → Prop}
    (plain : ∀ t text, splitFirst Bytes.percent t = (text, none) → motive t)
    (unclosed : ∀ t text rest body, splitFirst Bytes.percent t = (text, some rest) →
      splitFirst Bytes.semicolon rest = (body, none) → motive t)
    (directive : ∀ t text rest body next, splitFirst Bytes.percent t = (text, some rest) →
      splitFirst Bytes.semicolon rest = (body, some next) → motive next → motive t)
    (t : Bytes) : motive t := by
  induction size : t.length using Nat.strongRecOn generalizing t with
  | ind n ih =>
      cases outer : splitFirst Bytes.percent t with
      | mk text after =>
          cases after with
          | none => exact plain t text outer
          | some rest =>
              cases inner : splitFirst Bytes.semicolon rest with
              | mk body after =>
                  cases after with
                  | none => exact unclosed t text rest body outer inner
                  | some next =>
                      have shorter : next.length < n := by
                        rw [← size]
                        exact Nat.lt_trans (Escape.splitFirst_rest_lt inner)
                          (Escape.splitFirst_rest_lt outer)
                      exact directive t text rest body next outer inner (ih _ shorter next rfl)

/-- The segments of a template by a sweep, after a backslash if one is pending. -/
theorem segments_held (pending : Bool) (x : Bytes) :
    segments (Scan.held pending ++ x) =
      .text (Scan.sweep .resolved Bytes.percent pending x).output ::
        (Scan.sweep .resolved Bytes.percent pending x).rest.elim [] bodySegments := by
  rw [segments_eq, Scan.sweep_held, Scan.sweep_resolved, Scan.sweep_rest]

/-- What reading goes on with after a `%` and some of what follows it. -/
def readBody (collected : Bytes) (pending : Bool) (source : Source) : List Segment :=
  let body := Scan.scan .kept Bytes.semicolon pending source
  match body.result with
  | .error e => [.broken e]
  | .ok .delimited =>
      .directive (Directive.parse (collected ++ body.output)) :: readFrom false body.source
  | .ok _ => [.unclosed]

theorem readFrom_eq (pending : Bool) (source : Source) :
    readFrom pending source =
      let text := Scan.chunk .resolved Bytes.percent pending source
      match text.result with
      | .error e => [.broken e]
      | .ok .exhausted => [.text text.output]
      | .ok .unfinished => .text text.output :: readFrom text.pending text.source
      | .ok .delimited => .text text.output :: readBody [] false text.source := by
  rw [readFrom]
  split <;> rename_i eq <;> simp only [eq]
  rfl

/-- While bytes are to come, reading sweeps over a chunk of them and then goes on. -/
theorem readFrom_of_ne_nil {s : Source} {x : Bytes} {tail : List Source.Event} (h : s.Begins x tail)
    (more : x ≠ []) (pending : Bool) :
    ∃ u y later, u ≠ [] ∧ x = u ++ y ∧ (∀ v, (⟨v, later⟩ : Source).Begins (v ++ y) tail) ∧
      readFrom pending s =
        let swept := Scan.sweep .resolved Bytes.percent pending u
        .text swept.output ::
          swept.rest.elim (readFrom swept.pending ⟨[], later⟩)
            fun rest => readBody [] false ⟨rest, later⟩ := by
  obtain ⟨u, y, later, nonempty, bytes, begins, first⟩ :=
    Scan.chunk_of_ne_nil .resolved Bytes.percent pending h more
  refine ⟨u, y, later, nonempty, bytes, begins, ?_⟩
  rw [readFrom_eq, first]
  cases found : (Scan.sweep .resolved Bytes.percent pending u).rest <;> simp [found]

theorem joined_readFrom_of_nil {s : Source} {tail : List Source.Event} {stop : Option IoError}
    (h : s.Begins [] tail) (ends : Source.Event.Ends tail stop) (text : Bytes) (pending : Bool) :
    joined text (readFrom pending s) =
      joined text (stopped stop (segments (Scan.held pending ++ []))) := by
  obtain ⟨result, output⟩ := Scan.chunk_at_end .resolved Bytes.percent pending ends
  have swept : Scan.sweep .resolved Bytes.percent pending [] = ⟨[], pending, none⟩ := by
    cases pending <;> rfl
  rw [readFrom_eq, Scan.chunk_of_nil _ _ _ h, segments_held, swept]
  cases stop with
  | none => simp [result, output, stopped]
  | some e => simp [result, stopped, broken, joined]

/-- The body of a directive is complete, or else the template ends in it. -/
theorem readBody_of_begins {s : Source} {x : Bytes} {tail : List Source.Event}
    {stop : Option IoError} (h : s.Begins x tail) (ends : Source.Event.Ends tail stop) :
    match splitFirst Bytes.semicolon x with
    | (body, some rest) => ∃ t : Source, t.Begins rest tail ∧
        readBody [] false s = .directive (Directive.parse body) :: readFrom false t
    | (_, none) => readBody [] false s = stopped stop [.unclosed] := by
  have scanned := Scan.scan_of_begins .kept Bytes.semicolon false h
  simp only [Scan.sweep_rest, Scan.sweep_kept] at scanned
  cases split : splitFirst Bytes.semicolon x with
  | mk body after =>
      rw [split] at scanned
      cases after with
      | some rest =>
          obtain ⟨t, begins, scanned⟩ := scanned
          exact ⟨t, begins, by simp only [readBody, scanned, List.nil_append]⟩
      | none =>
          simp only at scanned
          simp only [readBody, scanned, Scan.scan_at_end _ _ _ ends]
          cases stop <;> rfl

theorem joined_stopped_text (stop : Option IoError) (text b : Bytes) (rest : List Segment) :
    joined text (stopped stop (.text b :: rest)) = joined (text ++ b) (stopped stop rest) := by
  cases stop <;> rfl

theorem stopped_directive (stop : Option IoError) (d : Directive) (rest : List Segment) :
    stopped stop (.directive d :: rest) = .directive d :: stopped stop rest := by
  cases stop <;> rfl

/-- Reading gives the segments of the bytes to come, up to a failure if the source has one. -/
theorem joined_readFrom {s : Source} {x : Bytes} {tail : List Source.Event} {stop : Option IoError}
    (h : s.Begins x tail) (ends : Source.Event.Ends tail stop) (text : Bytes) (pending : Bool) :
    joined text (readFrom pending s) =
      joined text (stopped stop (segments (Scan.held pending ++ x))) := by
  induction size : x.length using Nat.strongRecOn generalizing s x text pending with
  | ind n ih =>
      by_cases more : x = []
      · subst more
        exact joined_readFrom_of_nil h ends text pending
      · obtain ⟨u, y, later, nonempty, bytes, begins, read⟩ := readFrom_of_ne_nil h more pending
        have shorter : y.length < n := by
          have := List.length_pos_iff.2 nonempty
          rw [← size, bytes, List.length_append]; omega
        rw [read, segments_held, bytes]
        cases found : (Scan.sweep .resolved Bytes.percent pending u).rest with
        | none =>
            have rest := ih _ shorter (begins [])
              (text ++ (Scan.sweep .resolved Bytes.percent pending u).output)
              (Scan.sweep .resolved Bytes.percent pending u).pending rfl
            rw [List.nil_append, segments_held, joined_stopped_text] at rest
            simp only [Scan.sweep_append_of_none found, found, Option.elim_none, joined]
            rw [rest, joined_stopped_text, List.append_assoc]
        | some rest =>
            have fewer : (rest ++ y).length < n := by
              have := Scan.sweep_rest_lt found
              rw [← size, bytes, List.length_append, List.length_append]; omega
            have body := readBody_of_begins (begins rest) ends
            simp only [Scan.sweep_append_of_some found, found, Option.elim_some]
            rw [joined, joined_stopped_text, bodySegments]
            cases split : splitFirst Bytes.semicolon (rest ++ y) with
            | mk raw after =>
                rw [split] at body
                cases after with
                | none => rw [body]
                | some left =>
                    obtain ⟨t, begins, read⟩ := body
                    have shorter := Nat.lt_trans (Escape.splitFirst_rest_lt split) fewer
                    have rest := ih _ shorter begins [] false rfl
                    rw [read, stopped_directive, joined, joined, rest]
                    rfl

/-- The segments of a byte string have their texts joined already. -/
theorem joined_segments (t : Bytes) : joined [] (segments t) = segments t := by
  induction t using templateInduction with
  | plain t text outer => rw [segments_plain outer]; rfl
  | unclosed t text rest body outer inner => rw [segments_unclosed outer inner]; rfl
  | directive t text rest body next outer inner ih =>
      rw [segments_directive outer inner, joined, joined, ih, List.nil_append]

/-- A source that gives all of a template reads as the template at hand. -/
theorem joined_read {s : Source} {t : Bytes} (h : s.Delivers t) :
    joined [] (read s) = segments t := by
  have ends : Source.Event.Ends [] none := rfl
  rw [read, joined_readFrom (Source.begins_iff_delivers.2 h) ends]
  exact joined_segments t

/-- A source that fails reads as what it gave before, up to the failure. -/
theorem joined_read_of_failsAfter {s : Source} {t : Bytes} {e : IoError} (h : s.FailsAfter t e) :
    joined [] (read s) = joined [] (broken e (segments t)) := by
  obtain ⟨-, later, begins⟩ := h
  have ends : Source.Event.Ends (.failed e :: later) (some e) := ⟨later, rfl⟩
  rw [read, joined_readFrom begins ends]
  rfl

end LayeredTemplate.Template
