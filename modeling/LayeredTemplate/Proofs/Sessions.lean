import LayeredTemplate.Proofs.Scanning

/-! Reading up to a delimiter comes to the same as searching all the bytes for it: a read appends
what stands before it, with its escapes or without them, and leaves what stands behind it. So reads
in a row give the segments of a byte string one by one. -/
namespace LayeredTemplate.Scan

open Escape (find splitFirst split resolve)

variable {escapes : Escapes} {delim : UInt8} {pending : Bool} {s : Source}

/-- What is made of a text that is read. -/
def Escapes.apply : Escapes → Bytes → Bytes
  | .kept, x => x
  | .resolved, x => resolve x

theorem output_sweep (escapes : Escapes) (delim : UInt8) (x : Bytes) :
    (sweep escapes delim false x).output = escapes.apply (splitFirst delim x).1 := by
  cases escapes with
  | kept => exact sweep_kept delim x
  | resolved => exact sweep_resolved delim x

/-- Only reads by chunks stop in between. -/
theorem scan_ne_unfinished (escapes : Escapes) (delim : UInt8) (pending : Bool) (s : Source) :
    (scan escapes delim pending s).result ≠ .ok .unfinished := by
  fun_induction scan escapes delim pending s with
  | case1 pending s first eq more ih => exact ih
  | case2 pending s first other =>
      intro stopped
      exact other stopped

/-- A delimiter is taken from the source, whatever stands before it. -/
theorem weight_scan_lt (found : (scan escapes delim pending s).result = .ok .delimited) :
    (scan escapes delim pending s).source.weight < s.weight := by
  revert found
  fun_induction scan escapes delim pending s with
  | case1 pending s first eq more ih =>
      intro found
      exact Nat.lt_trans (ih found) (weight_chunk_lt (.inr eq))
  | case2 pending s first other =>
      intro found
      exact weight_chunk_lt (.inl found)

namespace Session

variable {s : Session} {x : Bytes}

/-- One read takes the first segment, if all of the bytes are still to come. -/
theorem read_of_delivers (escapes : Escapes) (delim : UInt8) (h : s.source.Delivers x) :
    match splitFirst delim x with
    | (segment, some rest) => ∃ source : Source, source.Delivers rest ∧
        s.read escapes delim =
          (.ok .delimited, { s with buffer := s.buffer ++ escapes.apply segment, source })
    | (segment, none) => s.read escapes delim =
        (.ok .exhausted,
          { s with buffer := s.buffer ++ escapes.apply segment, source := .ofEvents [] }) := by
  have scanned := scan_of_begins escapes delim false (Source.begins_iff_delivers.2 h)
  simp only [sweep_rest, output_sweep] at scanned
  cases apart : splitFirst delim x with
  | mk segment after =>
      rw [apart] at scanned
      cases after with
      | some rest =>
          obtain ⟨source, begins, scanned⟩ := scanned
          refine ⟨source, Source.begins_iff_delivers.1 begins, ?_⟩
          simp only [read, scanned]
      | none =>
          have ended (pending : Bool) : scan escapes delim pending ⟨[], []⟩ =
              ⟨.ok .exhausted, [], pending, ⟨[], []⟩⟩ := by
            rw [scan_eq]
            rfl
          simp only [ended, List.append_nil] at scanned
          simp only [read, scanned]
          rfl

/-- One read finds what searching the bytes finds. -/
theorem read_of_find (escapes : Escapes) (delim : UInt8) (h : s.source.Delivers x) :
    let (answer, t) := s.read escapes delim
    match find delim x with
    | some i => answer = .ok .delimited ∧ t.source.Delivers (x.drop (i + 1)) ∧
        t.buffer = s.buffer ++ escapes.apply (x.take i)
    | none => answer = .ok .exhausted ∧ t.source.Delivers [] ∧
        t.buffer = s.buffer ++ escapes.apply x := by
  have reads := read_of_delivers escapes delim h
  unfold splitFirst at reads
  cases found : find delim x with
  | some i =>
      rw [found] at reads
      obtain ⟨source, delivers, reads⟩ := reads
      rw [reads]
      exact ⟨rfl, delivers, rfl⟩
  | none =>
      rw [found] at reads
      simp only at reads
      rw [reads]
      exact ⟨rfl, Source.delivers_ofBytes [], rfl⟩

/-- The answers and outputs of reads in a row that keep escapes, up to the first that does not end
at a delimiter. The buffer is emptied before each. -/
def readEach (delim : UInt8) (s : Session) : List (Except IoError Ending × Bytes) :=
  let first := read .kept delim { s with buffer := [] }
  match _eq : first.1 with
  | .ok .delimited => (first.1, first.2.buffer) :: readEach delim first.2
  | _ => [(first.1, first.2.buffer)]
termination_by s.source.weight
decreasing_by exact weight_scan_lt _eq

theorem readEach_of_delimited {t : Session}
    (first : read .kept delim { s with buffer := [] } = (.ok .delimited, t)) :
    s.readEach delim = (.ok .delimited, t.buffer) :: t.readEach delim := by
  rw [readEach]
  split
  · simp only [first]
  · rename_i other
    exact absurd (congrArg Prod.fst first) other

theorem readEach_of_exhausted {t : Session}
    (first : read .kept delim { s with buffer := [] } = (.ok .exhausted, t)) :
    s.readEach delim = [(.ok .exhausted, t.buffer)] := by
  rw [readEach]
  split
  · rename_i delimited
    cases delimited.symm.trans (congrArg Prod.fst first)
  · simp only [first]

/-- Each read takes one segment, and the last one comes to the end. -/
theorem readEach_of_delivers (delim : UInt8) (h : s.source.Delivers x) :
    ∃ segments last, split delim x = segments ++ [last] ∧
      s.readEach delim =
        segments.map (fun segment => (.ok .delimited, segment)) ++ [(.ok .exhausted, last)] := by
  fun_induction split delim x generalizing s with
  | case1 x segment rest apart ih =>
      have first := read_of_delivers (s := { s with buffer := [] }) .kept delim h
      rw [apart] at first
      obtain ⟨source, delivers, first⟩ := first
      obtain ⟨segments, last, more, later⟩ :=
        ih (s := { s with buffer := segment, source }) delivers
      refine ⟨segment :: segments, last, by rw [more, List.cons_append], ?_⟩
      rw [readEach_of_delimited first, List.map_cons, List.cons_append, ← later]
      rfl
  | case2 x segment apart =>
      have first := read_of_delivers (s := { s with buffer := [] }) .kept delim h
      rw [apart] at first
      exact ⟨[], segment, rfl, readEach_of_exhausted first⟩

/-- However a source is cut and interrupted, reading up to a delimiter finds what searching its
bytes finds. What the buffer held stays before what is read, and no read stops in between. Reads in
a row that keep escapes give the segments between the delimiters, each by one read. -/
theorem read_agrees_with_find (delim : UInt8) (h : s.source.Delivers x) :
    (∀ escapes : Escapes,
      let (answer, t) := s.read escapes delim
      match find delim x with
      | some i => answer = .ok .delimited ∧ t.source.Delivers (x.drop (i + 1)) ∧
          t.buffer = s.buffer ++ escapes.apply (x.take i)
      | none => answer = .ok .exhausted ∧ t.source.Delivers [] ∧
          t.buffer = s.buffer ++ escapes.apply x) ∧
    (∀ (escapes : Escapes) (t : Session), (t.read escapes delim).1 ≠ .ok .unfinished) ∧
    ∃ segments last, split delim x = segments ++ [last] ∧
      s.readEach delim =
        segments.map (fun segment => (.ok .delimited, segment)) ++ [(.ok .exhausted, last)] := by
  refine ⟨?_, ?_, readEach_of_delivers delim h⟩
  · intro escapes
    exact read_of_find escapes delim h
  · intro escapes t
    exact scan_ne_unfinished escapes delim false t.source

/-- A delimiter that is escaped from another chunk, one that is not, and a backslash at the end. -/
theorem read_agrees_with_find_cut_apart :
    let source := Source.ofEvents [.chunk (Bytes.ofText "a\\"), .interrupted,
      .chunk (Bytes.ofText "|b|"), .chunk (Bytes.ofText "c\\")]
    let s : Session := ⟨Bytes.ofText "!", true, source⟩
    source.Delivers (Bytes.ofText "a\\|b|c\\") ∧
      (s.read .resolved Bytes.bar).2.buffer = Bytes.ofText "!a|b" ∧
      (s.read .kept Bytes.bar).2.source.remaining = Bytes.ofText "c\\" ∧
      (s.read .resolved Bytes.backslash).1 = .ok .exhausted ∧
      (s.read .resolved Bytes.backslash).2.buffer = Bytes.ofText "!a|b|c" ∧
      s.readEach Bytes.bar =
        [(.ok .delimited, Bytes.ofText "a\\|b"), (.ok .exhausted, Bytes.ofText "c\\")] := by
  intro source s
  have delivers : source.Delivers (Bytes.ofText "a\\|b|c\\") := by decide +kernel
  have found : find Bytes.bar (Bytes.ofText "a\\|b|c\\") = some 4 := by decide +kernel
  have absent : find Bytes.backslash (Bytes.ofText "a\\|b|c\\") = none := by decide +kernel
  have apart : split Bytes.bar (Bytes.ofText "a\\|b|c\\") =
      [Bytes.ofText "a\\|b"] ++ [Bytes.ofText "c\\"] := by decide +kernel
  obtain ⟨reads, -, segments, last, same, each⟩ :=
    read_agrees_with_find (s := s) Bytes.bar delivers
  obtain ⟨exhausts, -⟩ := read_agrees_with_find (s := s) Bytes.backslash delivers
  have resolved := reads .resolved
  have kept := reads .kept
  have all := exhausts .resolved
  simp only [found] at resolved kept
  simp only [absent] at all
  obtain ⟨rfl, last_eq⟩ := List.append_inj' (apart.symm.trans same) rfl
  cases last_eq
  exact ⟨delivers, resolved.2.2, kept.2.1.1, all.1, all.2.2, each⟩

end Session
end LayeredTemplate.Scan
