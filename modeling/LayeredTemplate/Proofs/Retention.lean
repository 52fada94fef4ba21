import LayeredTemplate.Proofs.Requests

/-! What base64 holds back while what is beneath it may fail at any time. Each byte is encoded once
at most, in order: those of a text that is not taken are gone, and so is what was still to come of
the same write. -/
namespace LayeredTemplate

/-! ## Writings with any answers -/

namespace Writing

universe u

variable {α : Type u}

/-- A byte string that was written as a whole, and the answer to that. -/
structure Sending where
  bytes : Bytes
  answer : Except IoError Unit

/-- A course that a writing can take if all that it sends may be answered in any way: what it sends,
and what it comes to. -/
inductive Course : Writing α → List Sending → α → Prop
  | done (a : α) : Course (.done a) [] a
  | writeAll {b : Bytes} {next : Except IoError Unit → Writing α} {sent : List Sending} {a : α}
      (answer : Except IoError Unit) : Course (next answer) sent a →
      Course (.writeAll b next) (⟨b, answer⟩ :: sent) a

/-- Running such a writing against a sink is one of its courses. -/
theorem Sends.exists_course {w : Writing α} (h : w.Sends) (sink : Sink) (r : Sink.Record) :
    ∃ sent, w.Course sent (w.run sink r).1 := by
  induction w generalizing r with
  | done a => exact ⟨[], .done a⟩
  | writeAll b next ih =>
      obtain ⟨sent, course⟩ := ih (sink.writeAll b r).1 (h _) (sink.writeAll b r).2
      exact ⟨_, .writeAll _ course⟩
  | write b next ih => exact h.elim
  | flush next ih => exact h.elim

theorem Course.of_sendEach {stop : IoError → α} {next : Writing α} {text : Bytes}
    {sent : List Sending} {a : α} (course : (sendEach stop next [text]).Course sent a) :
    (∃ e, sent = [⟨text, .error e⟩] ∧ a = stop e) ∨
      ∃ later, sent = ⟨text, .ok ()⟩ :: later ∧ next.Course later a := by
  cases course with
  | writeAll answer course =>
      cases answer with
      | ok => exact .inr ⟨_, rfl, course⟩
      | error e =>
          cases course
          exact .inl ⟨e, rfl, rfl⟩

end Writing

open Writing (Sending)

/-! ## Histories of layers -/

def Request.bytes : Request → Bytes
  | .write b => b
  | .finalize => []

/-- A request that a layer has attended to: what it sent meanwhile, and how it answered. -/
structure Service where
  request : Request
  sent : List Sending
  answer : Except IoError Unit

namespace Layer

variable {l : Layer}

/-- What a layer may have been through when it returns in some state. It may be asked for anything
again after a failure. -/
inductive History (l : Layer) : List Service → l.State → Prop
  | start : History l [] l.start
  | attend {past : List Service} {s t : l.State} {request : Request} {sent : List Sending}
      {answer : Except IoError Unit} : History l past s →
      (l.attend request s).Course sent (answer, t) →
      History l (past ++ [⟨request, sent, answer⟩]) t

/-- Attending to some requests next to a sink continues a history. -/
theorem History.exists_attendEach (sends : ∀ request s, (l.attend request s).Sends)
    {past : List Service} {s : l.State} (history : l.History past s) (requests : List Request)
    (sink : Sink) (r : Sink.Record) :
    let ran := ((l.attendEach requests s).run sink r).1
    ∃ services, l.History (past ++ services) ran.2 ∧
      services.map Service.request = requests ∧ services.map Service.answer = ran.1 := by
  induction requests generalizing past s r with
  | nil =>
      refine ⟨[], ?_, rfl, rfl⟩
      rwa [List.append_nil]
  | cons request rest ih =>
      obtain ⟨sent, course⟩ := (sends request s).exists_course sink r
      simp only [attendEach, Writing.run_bind, Writing.run_map]
      generalize (l.attend request s).run sink r = attended at course
      obtain ⟨⟨answer, t⟩, r⟩ := attended
      obtain ⟨services, later, requested, answered⟩ := ih (history.attend course) r
      refine ⟨⟨request, sent, answer⟩ :: services, ?_, ?_, ?_⟩
      · rwa [List.append_cons]
      · rw [List.map_cons, requested]
      · rw [List.map_cons, answered]

end Layer

/-! ## Bytes spent on texts -/

namespace Base64

variable {v : Variant} {x y held held' given more : Bytes} {sent later : List Sending}
  {spent spent' : List Bytes} {answer : Except IoError Unit}

/-- Of the bytes `given` some are spent on the texts sent, in order, and others are still held. None
is lost unless a text is not taken. -/
structure Spends (v : Variant) (given : Bytes) (sent : List Sending) (spent : List Bytes)
    (held : Bytes) : Prop where
  texts : sent.map Sending.bytes = spent.map (encode v)
  in_order : (spent.flatten ++ held).Sublist given
  lossless : (∀ sending ∈ sent, sending.answer = .ok ()) → spent.flatten ++ held = given

theorem spends_nothing (v : Variant) (given : Bytes) : Spends v given [] [] given :=
  ⟨rfl, List.Sublist.refl _, fun _ => rfl⟩

theorem spends_text (v : Variant) (x : Bytes) (answer : Except IoError Unit) :
    Spends v x [⟨encode v x, answer⟩] [x] [] where
  texts := rfl
  in_order := by simp
  lossless _ := by simp

/-- After a failure nothing is kept of what is left. -/
theorem spends_failed (v : Variant) (x rest : Bytes) (e : IoError) :
    Spends v (x ++ rest) [⟨encode v x, .error e⟩] [x] [] where
  texts := rfl
  in_order := by simp
  lossless taken := by
    have failed := taken _ (List.mem_singleton_self _)
    cases failed

theorem Spends.append (first : Spends v given sent spent held)
    (second : Spends v (held ++ more) later spent' held') :
    Spends v (given ++ more) (sent ++ later) (spent ++ spent') held' where
  texts := by rw [List.map_append, first.texts, second.texts, List.map_append]
  in_order := by
    rw [List.flatten_append, List.append_assoc]
    have front : (spent.flatten ++ (held ++ more)).Sublist (given ++ more) := by
      rw [← List.append_assoc]
      exact first.in_order.append_right more
    exact (second.in_order.append_left _).trans front
  lossless taken := by
    obtain ⟨taken, taken_later⟩ := List.forall_mem_append.1 taken
    rw [List.flatten_append, List.append_assoc, second.lossless taken_later, ← List.append_assoc,
      first.lossless taken]

/-- Whole blocks, and at least one. -/
def Blocks (x : Bytes) : Prop := x ≠ [] ∧ 3 ∣ x.length

/-- Only what ends in the middle of a block is padded. -/
theorem pad_not_mem_encode (v : Variant) (whole : 3 ∣ x.length) : 0x3d ∉ encode v x := by
  fun_induction encode v x with
  | case1 => exact List.not_mem_nil
  | case2 a => simp at whole
  | case3 a b => simp at whole
  | case4 a b c rest ih =>
      have ha := a.toNat_lt
      have hb := b.toNat_lt
      have hc := c.toNat_lt
      have still : 3 ∣ rest.length := by
        simp only [List.length_cons] at whole
        omega
      have letter (p : Nat) (small : p < 64) : 0x3d ≠ v.letter p := (letter_ne v small).symm
      simp only [List.mem_cons, not_or]
      exact ⟨letter _ (by omega), letter _ (by omega), letter _ (by omega), letter _ (by omega),
        ih still⟩

/-! ## The layer -/

theorem length_blocks_eq (x : Bytes) : (blocks x).length = x.length - x.length % 3 := by
  rw [blocks, List.length_take]
  omega

theorem writeBlocks_eq (v : Variant) (x : Bytes) : writeBlocks v x =
    if blocks x = [] then .done (.ok (), remainder x)
    else .sendEach (fun e => (.error e, [])) (.done (.ok (), remainder x))
      [encode v (blocks x)] := by
  have size := length_blocks_eq x
  unfold writeBlocks
  by_cases nothing : blocks x = []
  · rw [nothing] at size
    have whole : x.length - x.length % 3 = 0 := size.symm
    rw [if_pos whole, if_pos nothing, remainder, whole, List.drop_zero]
  · have whole : x.length - x.length % 3 ≠ 0 := by
      rw [← size]
      exact fun empty => nothing (List.eq_nil_of_length_eq_zero empty)
    rw [if_neg whole, if_neg nothing]
    rfl

theorem spends_writeBlocks (course : (writeBlocks v x).Course sent (answer, held)) :
    held.length ≤ 2 ∧ ∃ spent, Spends v x sent spent held ∧ ∀ y ∈ spent, Blocks y := by
  have short : (remainder x).length ≤ 2 := Nat.le_of_lt_succ (length_remainder x)
  have split := blocks_remainder x
  rw [writeBlocks_eq] at course
  split at course
  · rename_i nothing
    cases course
    rw [nothing, List.nil_append] at split
    refine ⟨short, [], ?_, List.forall_mem_nil _⟩
    rw [split]
    exact spends_nothing v x
  · rename_i some_whole
    have whole : Blocks (blocks x) := ⟨some_whole, by rw [length_blocks_eq]; omega⟩
    rcases course.of_sendEach with ⟨e, rfl, stopped⟩ | ⟨later, rfl, rest⟩
    · cases stopped
      refine ⟨Nat.zero_le _, [blocks x], ?_, List.forall_mem_singleton.2 whole⟩
      have failed := spends_failed v (blocks x) (remainder x) e
      rwa [split] at failed
    · cases rest
      refine ⟨short, [blocks x], ?_, List.forall_mem_singleton.2 whole⟩
      have kept : Spends v (blocks x ++ remainder x) _ _ _ :=
        (spends_text v (blocks x) (.ok ())).append (spends_nothing v (remainder x))
      rwa [split] at kept

/-- A write spends the blocks that it completes, if need be in two texts. -/
theorem spends_write (short : held.length ≤ 2)
    (course : (write v x held).Course sent (answer, held')) :
    held'.length ≤ 2 ∧ ∃ spent, Spends v (held ++ x) sent spent held' ∧ ∀ y ∈ spent, Blocks y := by
  unfold write at course
  split at course
  · rename_i nothing
    rw [nothing]
    exact spends_writeBlocks course
  rename_i something
  have size : (held ++ x.take (3 - held.length)).length =
      held.length + min (3 - held.length) x.length := by
    rw [List.length_append, List.length_take]
  have split : held ++ x.take (3 - held.length) ++ x.drop (3 - held.length) = held ++ x := by
    rw [List.append_assoc, List.take_append_drop]
  simp only at course
  split at course
  · rename_i partly
    have all : x.take (3 - held.length) = x := List.take_of_length_le (by omega)
    rw [all] at partly course
    cases course
    exact ⟨by omega, [], spends_nothing v _, List.forall_mem_nil _⟩
  · rename_i full
    generalize held ++ x.take (3 - held.length) = block at size split full course
    have whole : Blocks block := by
      have three : block.length = 3 := by omega
      refine ⟨?_, three ▸ Nat.dvd_refl 3⟩
      rintro rfl
      cases three
    rcases course.of_sendEach with ⟨e, rfl, stopped⟩ | ⟨later, rfl, rest⟩
    · cases stopped
      refine ⟨Nat.zero_le _, [block], ?_, List.forall_mem_singleton.2 whole⟩
      rw [← split]
      exact spends_failed v block _ e
    · obtain ⟨short, spent, spends, wholes⟩ := spends_writeBlocks rest
      refine ⟨short, block :: spent, ?_, List.forall_mem_cons.2 ⟨whole, wholes⟩⟩
      rw [← split]
      exact (spends_text v block (.ok ())).append spends

/-- Whether or not the last text is taken, nothing is held afterwards. -/
theorem spends_finalize (course : (finalize v held).Course sent (answer, held')) :
    held' = [] ∧ ∃ spent, Spends v held sent spent [] := by
  unfold finalize at course
  split at course
  · rename_i nothing
    cases course
    rw [nothing]
    exact ⟨rfl, [], spends_nothing v []⟩
  · rcases course.of_sendEach with ⟨e, rfl, stopped⟩ | ⟨later, rfl, rest⟩
    · cases stopped
      exact ⟨rfl, [held], spends_text v held (.error e)⟩
    · cases rest
      exact ⟨rfl, [held], spends_text v held (.ok ())⟩

/-- What holds of a layer whatever it has been through. -/
structure Sound (v : Variant) (past : List Service) (held : Bytes) : Prop where
  short : held.length ≤ 2
  blocks : ∀ service ∈ past, service.request ≠ .finalize → ∀ sending ∈ service.sent,
    ∃ x, sending.bytes = encode v x ∧ Blocks x
  spends : ∃ spent, Spends v (past.flatMap (·.request.bytes)) (past.flatMap (·.sent)) spent held

theorem Sound.attend {past : List Service} {request : Request} (sound : Sound v past held)
    (course : ((layer v).attend request held).Course sent (answer, held')) :
    Sound v (past ++ [⟨request, sent, answer⟩]) held' := by
  obtain ⟨short, earlier, spent, spends⟩ := sound
  have step : held'.length ≤ 2 ∧ ∃ now, Spends v (held ++ request.bytes) sent now held' ∧
      (request ≠ .finalize → ∀ y ∈ now, Blocks y) := by
    cases request with
    | write x =>
        obtain ⟨short', now, spends, whole⟩ := spends_write short course
        exact ⟨short', now, spends, fun _ => whole⟩
    | finalize =>
        obtain ⟨rfl, now, spends⟩ := spends_finalize course
        rw [Request.bytes, List.append_nil]
        exact ⟨Nat.zero_le _, now, spends, fun other => absurd rfl other⟩
  obtain ⟨short', now, spends', whole⟩ := step
  refine ⟨short', ?_, spent ++ now, ?_⟩
  · refine List.forall_mem_append.2 ⟨earlier, List.forall_mem_singleton.2 ?_⟩
    intro written sending mem
    have text : sending.bytes ∈ now.map (encode v) := by
      rw [← spends'.texts]
      exact List.mem_map_of_mem mem
    obtain ⟨y, mem, same⟩ := List.mem_map.1 text
    exact ⟨y, same.symm, whole written y mem⟩
  · rw [List.flatMap_append, List.flatMap_append, List.flatMap_singleton, List.flatMap_singleton]
    exact spends.append spends'

theorem sound_of_history {past : List Service} {held : (layer v).State}
    (history : (layer v).History past held) : Sound v past held := by
  induction history with
  | start => exact ⟨Nat.zero_le _, List.forall_mem_nil _, [], spends_nothing v []⟩
  | attend history course ih => exact ih.attend course

/-- Whatever fails in between, less than a block is held whenever the layer returns, a write sends
texts of whole blocks only, and no byte is encoded twice. -/
theorem encodes_at_most_once (v : Variant) :
    (∀ (past : List Service) (held : Bytes), (layer v).History past held →
      let written := past.flatMap (·.request.bytes)
      let sent := past.flatMap (·.sent)
      held.length ≤ 2 ∧
        (∀ service ∈ past, service.request ≠ .finalize → ∀ sending ∈ service.sent,
          0x3d ∉ sending.bytes ∧
            ∃ x, sending.bytes = encode v x ∧ 0 < x.length ∧ 3 ∣ x.length) ∧
        ∃ spent : List Bytes, sent.map Sending.bytes = spent.map (encode v) ∧
          (spent.flatten ++ held).Sublist written ∧
          ((∀ sending ∈ sent, sending.answer = .ok ()) → spent.flatten ++ held = written)) ∧
    ∀ requests sink r,
      let ran := (((layer v).attendEach requests (layer v).start).run sink r).1
      ∃ past, (layer v).History past ran.2 ∧ past.map Service.request = requests ∧
        past.map Service.answer = ran.1 := by
  constructor
  · intro past held history written sent
    obtain ⟨short, blocks, spent, spends⟩ := sound_of_history history
    refine ⟨short, ?_, spent, spends.texts, spends.in_order, spends.lossless⟩
    intro service mem written sending sending_mem
    obtain ⟨x, text, something, whole⟩ := blocks service mem written sending sending_mem
    refine ⟨?_, x, text, List.length_pos_iff.2 something, whole⟩
    rw [text]
    exact pad_not_mem_encode v whole
  · intro requests sink r
    obtain ⟨past, history, requested, answered⟩ :=
      (@Layer.History.start (layer v)).exists_attendEach (sends_attend v) requests sink r
    rw [List.nil_append] at history
    exact ⟨past, history, requested, answered⟩

/-- A block that is not taken, with bytes of its write still to come, and a last text that is not
taken either. -/
theorem encodes_at_most_once_after_failures :
    let v : Variant := ⟨false, true⟩
    let broken : Except IoError Unit := .error ⟨.brokenPipe, "broken pipe"⟩
    let past : List Service :=
      [⟨.write [1, 2], [], .ok ()⟩,
        ⟨.write [3, 4, 5, 6, 7, 8], [⟨encode v [1, 2, 3], broken⟩], broken⟩,
        ⟨.write [9], [], .ok ()⟩, ⟨.finalize, [⟨encode v [9], broken⟩], broken⟩,
        ⟨.write [10, 11, 12, 13], [⟨encode v [10, 11, 12], .ok ()⟩], .ok ()⟩]
    (layer v).History past ([13] : Bytes) ∧ 0x3d ∉ encode v [1, 2, 3] ∧
      ∃ spent : List Bytes,
        [encode v [1, 2, 3], encode v [9], encode v [10, 11, 12]] = spent.map (encode v) ∧
          (spent.flatten ++ [13]).Sublist [1, 2, 3, 4, 5, 6, 7, 8, 9, 10, 11, 12, 13] := by
  intro v broken past
  have history : (layer v).History past ([13] : Bytes) := by
    have begun : (write v [1, 2] []).Course [] (.ok (), [1, 2]) := .done _
    have refused : (write v [3, 4, 5, 6, 7, 8] [1, 2]).Course [⟨encode v [1, 2, 3], broken⟩]
        (broken, []) := .writeAll broken (.done _)
    have again : (write v [9] []).Course [] (.ok (), [9]) := .done _
    have closed : (finalize v [9]).Course [⟨encode v [9], broken⟩] (broken, []) :=
      .writeAll broken (.done _)
    have later : (write v [10, 11, 12, 13] []).Course [⟨encode v [10, 11, 12], .ok ()⟩]
        (.ok (), [13]) := .writeAll (.ok ()) (.done _)
    have attends {past : List Service} {held : Bytes} (request : Request) {sent : List Sending}
        {answer : Except IoError Unit} (held' : Bytes) (before : (layer v).History past held)
        (course : ((layer v).attend request held).Course sent (answer, held')) :
        (layer v).History (past ++ [⟨request, sent, answer⟩]) held' := before.attend course
    have first := attends (.write [1, 2]) [1, 2] .start begun
    have second := attends (.write [3, 4, 5, 6, 7, 8]) [] first refused
    have third := attends (.write [9]) [9] second again
    have fourth := attends .finalize [] third closed
    exact attends (.write [10, 11, 12, 13]) [13] fourth later
  obtain ⟨-, blocks, spent, texts, in_order, -⟩ := (encodes_at_most_once v).1 past [13] history
  have unpadded := (blocks _ (List.mem_cons_of_mem _ List.mem_cons_self) (by decide) _
    List.mem_cons_self).1
  exact ⟨history, unpadded, spent, texts, in_order⟩

end Base64
end LayeredTemplate
