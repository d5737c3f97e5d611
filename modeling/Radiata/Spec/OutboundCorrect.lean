import Radiata.Native.Outbound
import Radiata.Spec.PacketCorrect
import Radiata.Spec.SessionQueueCorrect

/-!
# What saturation does to an admitted stream

The pump sends with `send`, which refuses a frame at once when the queue is saturated, and
it ends the stream on every refusal. So an admitted stream survives exactly as long as its
reservations find room. In a run in which they do, the stream is interrupted only by a
closed queue, and when it is delivered every chunk of the body and the end were enqueued in
their order.

## Key results

- `QueueSystem.Step.ownCall`: what a step of the queue does to a call of the pump
- `Pump.Streams.step`: the invariant of a run with room
- `stream_survives_with_room`: such a run ends a stream only with its body or its queue
- `saturated_stream_interrupted`: a saturated open queue ends an admitted stream
-/

namespace Radiata

open SessionQueue SendCallState

/-- The frames of the chunks of a body, the first one with the given number. -/
def chunkFrames (trace : TraceId) : Nat → List Bytes → List SessionFrame
  | _, [] => []
  | n, bytes :: rest =>
    ⟨.chunk, ChunkFrame.body ⟨trace, UInt64.ofNat (min n maxU64), bytes⟩⟩ ::
      chunkFrames trace (n + 1) rest

/-- The last frame of a stream. -/
def endFrame (trace : TraceId) : SessionFrame := ⟨.end, EndFrame.body ⟨trace⟩⟩

theorem chunkFrames_append_singleton (trace : TraceId) (n : Nat) (chunks : List Bytes) (bytes : Bytes) :
    chunkFrames trace n (chunks ++ [bytes]) = chunkFrames trace n chunks ++
      [⟨.chunk, ChunkFrame.body ⟨trace, UInt64.ofNat (min (n + chunks.length) maxU64), bytes⟩⟩] := by
  induction chunks generalizing n with
  | nil => rfl
  | cons first chunks ih =>
    simp only [List.cons_append, chunkFrames, ih, List.length_cons]
    rw [show n + 1 + chunks.length = n + (chunks.length + 1) by omega]

/-! ## A call of the pump -/

/-- The states of a `send` in a run with room: it is refused only by a closed queue. -/
inductive OwnCall (frame : SessionFrame) (closed : Bool) : SendCallState → Prop where
  | start : OwnCall frame closed (.start .once frame)
  | reserved : OwnCall frame closed (.reserved .once frame)
  | releasing : closed = true → OwnCall frame closed (.releasing frame)
  | enqueued : OwnCall frame closed (.finished frame .enqueued)
  | refused (outcome : SendOutcome) :
      closed = true → OwnCall frame closed (.finished frame outcome)

theorem OwnCall.of_closed {frame : SessionFrame} {closed closed' : Bool} {call : SendCallState}
    (h : OwnCall frame closed call) (hclosed : closed = true → closed' = true) :
    OwnCall frame closed' call := by
  cases h with
  | start => exact .start
  | reserved => exact .reserved
  | releasing h => exact .releasing (hclosed h)
  | enqueued => exact .enqueued
  | refused outcome h => exact .refused outcome (hclosed h)

namespace QueueSystem

variable {limits : QueueLimits} {s t : QueueSystem}

/-- A queue stays closed, and what was pushed stays pushed. -/
theorem Step.queue_grows (h : Step limits s t) :
    (s.queue.closed = true → t.queue.closed = true) ∧ s.queue.pushed <+: t.queue.pushed := by
  cases h with
  | reserve i mode frame queue _ hreserve =>
    obtain ⟨-, rfl⟩ := reserve_eq_some.mp hreserve
    exact ⟨id, List.prefix_rfl⟩
  | push i mode frame _ _ _ => exact ⟨id, List.prefix_append _ _⟩
  | dropReceiver _ => exact ⟨fun _ => rfl, List.prefix_rfl⟩
  | _ => exact ⟨id, List.prefix_rfl⟩

variable {call : SendCallState}

/-- What another call does leaves a call where it is. -/
theorem getElem?_setCall {i j : Nat} {new : SendCallState} (h : s.calls[i]? = some call) :
    (s.setCall j new).calls[i]? = some (if j = i then new else call) := by
  have hlt : i < s.calls.length := (List.getElem?_eq_some_iff.mp h).1
  by_cases heq : j = i
  · subst heq
    simp [setCall, List.getElem?_set_self hlt]
  · simp [setCall, List.getElem?_set_ne heq, heq, h]

/-- A call of the pump after a step that replaces call `j`: only its own step counts. -/
private theorem ownCall_of_set {i j : Nat} {frame : SessionFrame} {old new : SendCallState}
    (hcall : s.calls[i]? = some call) (hown : OwnCall frame s.queue.closed call)
    (hget : s.calls[j]? = some old) (hcalls : t.calls = (s.setCall j new).calls)
    (hclosed : s.queue.closed = true → t.queue.closed = true)
    (hself : OwnCall frame s.queue.closed old → i = j → OwnCall frame t.queue.closed new ∧
      (new = .finished frame .enqueued → t.queue.pushed = s.queue.pushed ++ [frame])) :
    ∃ next, t.calls[i]? = some next ∧ OwnCall frame t.queue.closed next ∧
      (next = .finished frame .enqueued → call = .finished frame .enqueued ∨
        t.queue.pushed = s.queue.pushed ++ [frame]) := by
  rw [hcalls, getElem?_setCall hcall]
  by_cases heq : j = i
  · subst heq
    obtain rfl : call = old := Option.some.inj (hcall.symm.trans hget)
    obtain ⟨hnew, hpushed⟩ := hself hown rfl
    exact ⟨new, by simp, hnew, fun h => Or.inr (hpushed h)⟩
  · exact ⟨call, by simp [heq], hown.of_closed hclosed, fun h => Or.inl h⟩

/-- A step of the queue moves a call of the pump on, or leaves it alone. -/
theorem Step.ownCall {i : Nat} {frame : SessionFrame} (haccounted : Accounted limits s)
    (hcall : s.calls[i]? = some call) (hown : OwnCall frame s.queue.closed call)
    (hstep : Step limits s t) (hroom : call = .start .once frame → t.calls[i]? ≠ s.calls[i]? →
      s.queue.HasRoom limits frame.size ∨ s.queue.closed = true)
    (hkept : ∀ other, t.calls[i]? ≠ some (.finished other .cancelled)) :
    ∃ next, t.calls[i]? = some next ∧ OwnCall frame t.queue.closed next ∧
      (next = .finished frame .enqueued → call = .finished frame .enqueued ∨
        t.queue.pushed = s.queue.pushed ++ [frame]) := by
  have hgrows := hstep.queue_grows.1
  cases hstep with
  | call mode other =>
    refine ⟨call, ?_, hown, fun h => Or.inl h⟩
    have hlt : i < s.calls.length := (List.getElem?_eq_some_iff.mp hcall).1
    rw [List.getElem?_append_left hlt, hcall]
  | reserve j mode other queue hget hreserve =>
    refine ownCall_of_set hcall hown hget rfl hgrows ?_
    intro hold _
    cases hold
    exact ⟨.reserved, fun h => by cases h⟩
  | refuse j mode other hget hreserve hmode =>
    refine ownCall_of_set hcall hown hget rfl hgrows ?_
    intro hold hij
    subst hij
    cases hold
    -- without room the refusal finds the queue closed
    have hstart : call = .start .once frame := Option.some.inj (hcall.symm.trans hget)
    have hmoved : (s.setCall i (.finished frame .saturated)).calls[i]? ≠ s.calls[i]? := by
      rw [getElem?_setCall hcall, if_pos rfl, hget]
      simp
    rcases hroom hstart hmoved with hfits | hclosed
    · rw [SessionQueue.reserve, if_pos hfits] at hreserve
      cases hreserve
    · exact ⟨.refused _ hclosed, fun h => by cases h⟩
  | refuseWaiting j other hget _ | checkClosed j other hget _ | checkOpen j other hget _
  | wake j other hget | pushFull j other hget _ =>
    -- a call that waits for room is not the pump's
    refine ownCall_of_set hcall hown hget rfl hgrows ?_
    intro hold _
    cases hold
  | push j mode other hget _ _ =>
    rcases hget with hget | hget
    · refine ownCall_of_set hcall hown hget rfl hgrows ?_
      intro hold _
      cases hold
      exact ⟨.enqueued, fun _ => rfl⟩
    · exact absurd (List.mem_of_getElem? hget) (haccounted.unblocked mode other)
  | pushClosed j mode other hget hclosed =>
    rcases hget with hget | hget
    · refine ownCall_of_set hcall hown hget rfl hgrows ?_
      intro hold _
      cases hold
      exact ⟨.releasing hclosed, fun h => by cases h⟩
    · exact absurd (List.mem_of_getElem? hget) (haccounted.unblocked mode other)
  | block j mode other hget _ _ hfull =>
    have hplace := haccounted.channel_lt (List.mem_of_getElem? hget) (show _ = some other from rfl)
    omega
  | release j other hget =>
    refine ownCall_of_set hcall hown hget rfl hgrows ?_
    intro hold _
    cases hold with
    | releasing hclosed => exact ⟨.refused _ hclosed, fun h => by cases h⟩
  | cancel j other other' hget hsuspended =>
    refine ownCall_of_set hcall hown hget rfl hgrows ?_
    intro _ hij
    -- the call that is dropped is not the pump's
    subst hij
    have hlt : i < s.calls.length := (List.getElem?_eq_some_iff.mp hget).1
    exact absurd (List.getElem?_set_self hlt) (hkept other')
  | pop other rest _ _ _ => exact ⟨call, hcall, hown, fun h => Or.inl h⟩
  | account other _ => exact ⟨call, hcall, hown, fun h => Or.inl h⟩
  | dropReceiver _ => exact ⟨call, hcall, hown.of_closed hgrows, fun h => Or.inl h⟩

end QueueSystem

namespace Pump

variable {limits : QueueLimits} {trace : TraceId} {s t : Pump}

/-! ## A run with room -/

/-- The pump has sent `frame` with call `i`; once pushed, the frame is behind all earlier
    frames of the stream. -/
def Sends (s : Pump) (i : Nat) (frame : SessionFrame) : Prop :=
  ∃ call, s.system.calls[i]? = some call ∧ OwnCall frame s.system.queue.closed call ∧
    (call = .finished frame .enqueued → (s.enqueued ++ [frame]).Sublist s.system.queue.pushed)

/-- The body has yielded `chunks`, and the frames of the first `sent` of them are enqueued. -/
structure Progress (trace : TraceId) (s : Pump) (chunks sent : List Bytes) (tail : List BodyItem) :
    Prop where
  yielded : s.yielded = chunks.map .chunk ++ tail
  sequence : s.sequence = min chunks.length maxU64
  enqueued : s.enqueued = chunkFrames trace 0 sent

/-- What a pump has done when it is in a state, in a run with room. -/
inductive StreamState (trace : TraceId) (s : Pump) : Prop where
  | pulling (chunks : List Bytes) :
      s.state = .pulling → s.Progress trace chunks chunks [] → StreamState trace s
  | sendingChunk (call forwarded : Nat) (chunks : List Bytes) (bytes : Bytes) (frame : SessionFrame) :
      s.state = .sendingChunk call forwarded → s.Progress trace (chunks ++ [bytes]) chunks [] →
      chunkFrames trace 0 (chunks ++ [bytes]) = chunkFrames trace 0 chunks ++ [frame] →
      s.Sends call frame → StreamState trace s
  | sendingEnd (call : Nat) (chunks : List Bytes) :
      s.state = .sendingEnd call → s.Progress trace chunks chunks [.done] →
      s.Sends call (endFrame trace) → StreamState trace s
  | delivered (chunks : List Bytes) :
      s.state = .finished .delivered → s.yielded = chunks.map .chunk ++ [.done] →
      s.enqueued = chunkFrames trace 0 chunks ++ [endFrame trace] → StreamState trace s
  | interrupted :
      s.state = .finished (.failed .streamInterrupted) → s.system.queue.closed = true →
      StreamState trace s
  | failed (kind : ErrorKind) :
      s.state = .finished (.failed kind) →
      kind ≠ .streamInterrupted ∨ s.yielded.getLast? = some (.failed kind) → StreamState trace s

/-- The invariant of a run with room. -/
structure Streams (limits : QueueLimits) (trace : TraceId) (s : Pump) : Prop where
  system : (QueueSystem.runs limits).Reachable s.system
  ordered : s.enqueued.Sublist s.system.queue.pushed
  state : s.StreamState trace

variable {frame : SessionFrame}

variable {i : Nat} {system : QueueSystem}

theorem Sends.step (hsystem : (QueueSystem.runs limits).Reachable s.system)
    (hordered : s.enqueued.Sublist s.system.queue.pushed) (h : s.Sends i frame)
    (hstate : s.state.call = some i) (hstep : QueueSystem.Step limits s.system system)
    (hkept : ∀ call other, s.state.call = some call →
      system.calls[call]? ≠ some (.finished other .cancelled))
    (hroom : RoomToSend limits s { s with system := system }) :
    Sends { s with system := system } i frame := by
  obtain ⟨call, hcall, hown, hpushed⟩ := h
  have haccounted := QueueSystem.accounted_of_reachable hsystem
  have hfits : call = .start .once frame → system.calls[i]? ≠ s.system.calls[i]? →
      s.system.queue.HasRoom limits frame.size ∨ s.system.queue.closed = true := by
    rintro rfl hmoved
    exact hroom i frame hstate hcall hmoved
  obtain ⟨next, hnext, hnextOwn, henqueued⟩ :=
    hstep.ownCall haccounted hcall hown hfits fun other => hkept i other hstate
  refine ⟨next, hnext, hnextOwn, fun hfinished => ?_⟩
  rcases henqueued hfinished with hbefore | hnow
  · exact (hpushed hbefore).trans hstep.queue_grows.2.sublist
  · show (s.enqueued ++ [frame]).Sublist system.queue.pushed
    rw [hnow]
    exact hordered.append_right _

/-- A step of the queue. -/
theorem Streams.queue (h : Streams limits trace s)
    (hstep : QueueSystem.Step limits s.system system)
    (hkept : ∀ call other, s.state.call = some call →
      system.calls[call]? ≠ some (.finished other .cancelled))
    (hroom : RoomToSend limits s { s with system := system }) :
    Streams limits trace { s with system := system } := by
  obtain ⟨hclosed, hpushed⟩ := hstep.queue_grows
  refine ⟨h.system.step hstep, h.ordered.trans hpushed.sublist, ?_⟩
  cases h.state with
  | pulling chunks hstate hprogress =>
    exact .pulling chunks hstate ⟨hprogress.yielded, hprogress.sequence, hprogress.enqueued⟩
  | sendingChunk call forwarded chunks bytes frame hstate hprogress hframes hsends =>
    refine .sendingChunk call forwarded chunks bytes frame hstate
      ⟨hprogress.yielded, hprogress.sequence, hprogress.enqueued⟩ hframes ?_
    exact hsends.step h.system h.ordered (by rw [hstate]; rfl) hstep hkept hroom
  | sendingEnd call chunks hstate hprogress hsends =>
    refine .sendingEnd call chunks hstate
      ⟨hprogress.yielded, hprogress.sequence, hprogress.enqueued⟩ ?_
    exact hsends.step h.system h.ordered (by rw [hstate]; rfl) hstep hkept hroom
  | delivered chunks hstate hyielded henqueued =>
    exact .delivered chunks hstate hyielded henqueued
  | interrupted hstate hqueue => exact .interrupted hstate (hclosed hqueue)
  | failed kind hstate hkind => exact .failed kind hstate hkind

/-- A chunk within the quantum is sent. -/
theorem pull_chunk (trace : TraceId) (s : Pump) {bytes : Bytes} (h : bytes.length ≤ maxChunkBytes) :
    s.pull trace (.chunk bytes) =
      { s with
        yielded := s.yielded ++ [.chunk bytes]
        sequence := min (s.sequence + 1) maxU64 : Pump }.send
        ⟨.chunk, ChunkFrame.body ⟨trace, UInt64.ofNat s.sequence, bytes⟩⟩
        (.sendingChunk s.system.calls.length bytes.length) := by
  have hencode := encodeChunk_eq ⟨trace, UInt64.ofNat s.sequence, bytes⟩ h
  have hsmall : ¬ bytes.length > maxChunkBytes := Nat.not_lt.mpr h
  simp only [Pump.pull, if_neg hsmall, hencode]

/-- The end of the body is sent. -/
theorem pull_done (trace : TraceId) (s : Pump) :
    s.pull trace .done = { s with yielded := s.yielded ++ [.done] : Pump }.send (endFrame trace)
      (.sendingEnd s.system.calls.length) := by
  simp only [Pump.pull, encodeEnd_eq]
  rfl

/-- A call the pump makes is its own. -/
private theorem sends_new (s : Pump) (frame : SessionFrame) (state : PumpState) :
    (s.send frame state).Sends s.system.calls.length frame :=
  ⟨.start .once frame, by simp [send], .start, fun h => by cases h⟩

/-- An answer of the body. -/
theorem Streams.pull {item : BodyItem} (h : Streams limits trace s) (hpulling : s.state = .pulling) :
    Streams limits trace (s.pull trace item) := by
  obtain ⟨chunks, hprogress⟩ : ∃ chunks, s.Progress trace chunks chunks [] := by
    cases h.state with
    | pulling chunks _ hprogress => exact ⟨chunks, hprogress⟩
    | sendingChunk call forwarded chunks bytes frame hstate | sendingEnd call chunks hstate
    | delivered chunks hstate | interrupted hstate | failed kind hstate =>
      rw [hpulling] at hstate; cases hstate
  have hyielded := hprogress.yielded
  have hsequence := hprogress.sequence
  rw [List.append_nil] at hyielded
  cases item with
  | chunk bytes =>
    by_cases hlarge : bytes.length > maxChunkBytes
    · simp only [Pump.pull, if_pos hlarge]
      exact ⟨h.system, h.ordered, .failed .invalidInput rfl (Or.inl (by decide))⟩
    · rw [pull_chunk trace s (Nat.not_lt.mp hlarge)]
      refine ⟨h.system.step (.call .once _), h.ordered, ?_⟩
      refine .sendingChunk _ _ chunks bytes _ rfl ?_ ?_ (sends_new _ _ _)
      · refine ⟨?_, ?_, hprogress.enqueued⟩
        · simp [send, hyielded]
        · show min (s.sequence + 1) maxU64 = _
          rw [hsequence, List.length_append, List.length_singleton]
          omega
      · rw [chunkFrames_append_singleton, hsequence, Nat.zero_add]
  | done =>
    rw [pull_done]
    refine ⟨h.system.step (.call .once _), h.ordered, ?_⟩
    refine .sendingEnd _ chunks rfl ⟨?_, hsequence, hprogress.enqueued⟩ (sends_new _ _ _)
    simp [send, hyielded]
  | failed kind =>
    refine ⟨h.system, h.ordered, .failed kind rfl (Or.inr ?_)⟩
    simp [Pump.pull]

variable {outcome : SendOutcome}

/-- A send of the pump that has ended was enqueued, or its queue is closed. -/
theorem Sends.finished {frame' : SessionFrame} (h : s.Sends i frame')
    (hfinished : s.system.calls[i]? = some (.finished frame outcome)) :
    frame = frame' ∧ (outcome ≠ .enqueued → s.system.queue.closed = true) ∧
      (outcome = .enqueued → (s.enqueued ++ [frame]).Sublist s.system.queue.pushed) := by
  obtain ⟨call, hcall, hown, hpushed⟩ := h
  obtain rfl : call = .finished frame outcome := Option.some.inj (hcall.symm.trans hfinished)
  cases hown with
  | enqueued => exact ⟨rfl, fun hne => absurd rfl hne, fun _ => hpushed rfl⟩
  | refused _ hclosed => exact ⟨rfl, fun _ => hclosed, fun henqueued => hpushed (by rw [henqueued])⟩

/-- A refused send of a pump with room. -/
private theorem Streams.resume_refused (h : Streams limits trace s) (hne : outcome ≠ .enqueued)
    (hclosed : s.system.queue.closed = true) :
    Streams limits trace (s.resume frame outcome) := by
  cases outcome with
  | enqueued => exact absurd rfl hne
  | saturated | shutDown | cancelled => exact ⟨h.system, h.ordered, .interrupted rfl hclosed⟩

/-- The end of a send. -/
theorem Streams.resume {call : Nat} (h : Streams limits trace s)
    (hcall : s.state.call = some call)
    (hfinished : s.system.calls[call]? = some (.finished frame outcome)) :
    Streams limits trace (s.resume frame outcome) := by
  cases h.state with
  | sendingChunk call' forwarded chunks bytes frame' hstate hprogress hframes hsends =>
    rw [hstate] at hcall
    obtain rfl : call' = call := Option.some.inj hcall
    obtain ⟨rfl, hrefused, hpushed⟩ := hsends.finished hfinished
    by_cases henqueued : outcome = .enqueued
    · subst henqueued
      simp only [Pump.resume, hstate]
      refine ⟨h.system, hpushed rfl, .pulling (chunks ++ [bytes]) rfl ?_⟩
      refine ⟨hprogress.yielded, hprogress.sequence, ?_⟩
      rw [hframes, ← hprogress.enqueued]
    · exact h.resume_refused henqueued (hrefused henqueued)
  | sendingEnd call' chunks hstate hprogress hsends =>
    rw [hstate] at hcall
    obtain rfl : call' = call := Option.some.inj hcall
    obtain ⟨rfl, hrefused, hpushed⟩ := hsends.finished hfinished
    by_cases henqueued : outcome = .enqueued
    · subst henqueued
      simp only [Pump.resume, hstate]
      refine ⟨h.system, hpushed rfl, .delivered chunks rfl hprogress.yielded ?_⟩
      rw [hprogress.enqueued]
    · exact h.resume_refused henqueued (hrefused henqueued)
  | pulling chunks hstate | delivered chunks hstate | interrupted hstate | failed kind hstate =>
    rw [hstate] at hcall; cases hcall

/-- The runs of a pump whose reservations find room. -/
def roomyRuns (limits : QueueLimits) (trace : TraceId) : TransitionSystem Pump :=
  (runs limits trace).restrict (RoomToSend limits)

theorem streams_of_reachable (h : (roomyRuns limits trace).Reachable s) :
    Streams limits trace s := by
  refine h.invariant ?_ ?_
  · rintro s ⟨system, hsystem, rfl⟩
    exact ⟨hsystem, List.nil_sublist _, .pulling [] rfl ⟨rfl, rfl, rfl⟩⟩
  · rintro s t - hs ⟨hstep, hroom⟩
    cases hstep with
    | queue system hstep hkept => exact hs.queue hstep hkept hroom
    | pull item hstate => exact hs.pull hstate
    | resume call frame outcome hcall hfinished => exact hs.resume hcall hfinished

/-! ## The pump goes on -/

/-- What the pump does after an enqueued frame. -/
theorem resume_enqueued (s : Pump) (frame : SessionFrame) :
    (s.resume frame .enqueued).system = s.system ∧
      (s.resume frame .enqueued).enqueued = s.enqueued ++ [frame] ∧
      (s.resume frame .enqueued).state.call = none := by
  cases hstate : s.state with
  | _ => simp [Pump.resume, hstate, PumpState.call]

/-- Steps of its own take the pump from `s` to the end of its send. -/
def Enqueues (limits : QueueLimits) (trace : TraceId) (s : Pump) (frame : SessionFrame) : Prop :=
  ∃ t, (roomyRuns limits trace).Path s t ∧ t.state.call = none ∧ t.enqueued = s.enqueued ++ [frame]

/-- A step of the queue in front of the others. -/
private theorem Enqueues.queue (hstep : QueueSystem.Step limits s.system system)
    (hkept : ∀ call other, s.state.call = some call →
      system.calls[call]? ≠ some (.finished other .cancelled))
    (hroom : RoomToSend limits s { s with system := system })
    (h : Enqueues limits trace { s with system := system } frame) :
    Enqueues limits trace s frame := by
  obtain ⟨t, hpath, hstate, henqueued⟩ := h
  exact ⟨t, .head ⟨.queue system hstep hkept, hroom⟩ hpath, hstate, henqueued⟩

/-- The pump's call goes on, so it is not dropped. -/
private theorem kept_of_set {old new : SendCallState} (hcall : s.state.call = some i)
    (hget : s.system.calls[i]? = some old) (hnew : ∀ other, new ≠ .finished other .cancelled) :
    ∀ call other, s.state.call = some call →
      (s.system.setCall i new).calls[call]? ≠ some (.finished other .cancelled) := by
  intro call other hcall' hcancelled
  obtain rfl : i = call := Option.some.inj (hcall.symm.trans hcall')
  rw [QueueSystem.getElem?_setCall hget, if_pos rfl] at hcancelled
  exact hnew other (Option.some.inj hcancelled)

/-- An enqueued frame is taken note of. -/
private theorem enqueues_of_finished (hcall : s.state.call = some i)
    (hfinished : s.system.calls[i]? = some (.finished frame .enqueued)) :
    Enqueues limits trace s frame := by
  obtain ⟨hsystem, henqueued, hstate⟩ := s.resume_enqueued frame
  refine ⟨_, .single ⟨.resume i frame .enqueued hcall hfinished, ?_⟩, hstate, henqueued⟩
  intro call frame' _ _ hmoved
  rw [hsystem] at hmoved
  exact absurd rfl hmoved

/-- A reserved frame is pushed, since the channel has a place for it. -/
private theorem enqueues_of_reserved (hsystem : (QueueSystem.runs limits).Reachable s.system)
    (hcall : s.state.call = some i) (hopen : s.system.queue.closed = false)
    (hreserved : s.system.calls[i]? = some (.reserved .once frame)) :
    Enqueues limits trace s frame := by
  have haccounted := QueueSystem.accounted_of_reachable hsystem
  have hplace := haccounted.channel_lt (List.mem_of_getElem? hreserved)
    (show _ = some frame from rfl)
  refine .queue (.push i .once frame (Or.inl hreserved) hopen hplace)
    (kept_of_set hcall hreserved (by simp)) ?_ ?_
  · intro call frame' hcall' hstart _
    rw [hcall, Option.some.injEq] at hcall'
    rw [← hcall', hreserved] at hstart
    cases hstart
  · refine enqueues_of_finished hcall ?_
    have hmoved : (s.system.setCall i (.finished frame .enqueued)).calls[i]? = _ :=
      QueueSystem.getElem?_setCall hreserved
    rwa [if_pos rfl] at hmoved

/-- While its queue is open, a send of the pump that has a place gets its frame enqueued by
    steps of its own. -/
theorem enqueues_of_sends (hsystem : (QueueSystem.runs limits).Reachable s.system)
    (hsends : s.Sends i frame) (hcall : s.state.call = some i)
    (hopen : s.system.queue.closed = false)
    (hroom : s.system.calls[i]? = some (.start .once frame) →
      s.system.queue.HasRoom limits frame.size) : Enqueues limits trace s frame := by
  obtain ⟨call, hget, hown, -⟩ := hsends
  cases hown with
  | enqueued => exact enqueues_of_finished hcall hget
  | reserved => exact enqueues_of_reserved hsystem hcall hopen hget
  | start =>
    have hreserve := reserve_eq_some.mpr ⟨hroom hget, rfl⟩
    have hstep := QueueSystem.Step.reserve i .once frame _ hget hreserve
    refine .queue hstep (kept_of_set hcall hget (by simp)) ?_ ?_
    · intro call frame' hcall' hstart _
      rw [hcall, Option.some.injEq] at hcall'
      rw [← hcall', hget] at hstart
      cases hstart
      exact Or.inl (hroom hget)
    · refine enqueues_of_reserved (hsystem.step hstep) hcall hopen ?_
      have hmoved : (s.system.setCall i (.reserved .once frame)).calls[i]? = _ :=
        QueueSystem.getElem?_setCall hget
      rwa [if_pos rfl] at hmoved
  | releasing hclosed => rw [hopen] at hclosed; cases hclosed
  | refused outcome hclosed => rw [hopen] at hclosed; cases hclosed

/-- The frame the pump sends. -/
theorem StreamState.exists_sends (h : s.StreamState trace) (hcall : s.state.call = some i) :
    ∃ frame, s.Sends i frame := by
  cases h with
  | sendingChunk call forwarded chunks bytes frame hstate _ _ hsends =>
    rw [hstate] at hcall
    obtain rfl : call = i := Option.some.inj hcall
    exact ⟨frame, hsends⟩
  | sendingEnd call chunks hstate _ hsends =>
    rw [hstate] at hcall
    obtain rfl : call = i := Option.some.inj hcall
    exact ⟨_, hsends⟩
  | pulling chunks hstate | delivered chunks hstate | interrupted hstate | failed kind hstate =>
    rw [hstate] at hcall; cases hcall

end Pump

/-- In every run of the pump whose reservations find room in the queue or find it closed: the
    stream ends as interrupted only if the queue is closed or the body itself failed so; when
    it ends as delivered, every chunk of the body and the end were enqueued in their order,
    between the frames of other tasks; and while the queue is open and has room for the frame
    in hand, the pump gets it enqueued and goes on. -/
theorem stream_survives_with_room (limits : QueueLimits) (trace : TraceId) (s : Pump)
    (h : ((Pump.runs limits trace).restrict (Pump.RoomToSend limits)).Reachable s) :
    (s.state = .finished (.failed .streamInterrupted) → s.system.queue.closed = true ∨
      s.yielded.getLast? = some (.failed .streamInterrupted)) ∧
    (s.state = .finished .delivered → ∃ chunks, s.yielded = chunks.map .chunk ++ [.done] ∧
      s.enqueued = chunkFrames trace 0 chunks ++ [endFrame trace] ∧
      s.enqueued.Sublist s.system.queue.pushed) ∧
    (∀ call, s.state.call = some call → s.system.queue.closed = false →
      (∀ frame, s.system.calls[call]? = some (.start .once frame) →
        s.system.queue.HasRoom limits frame.size) →
      ∃ frame, Pump.Enqueues limits trace s frame) := by
  have hstreams := Pump.streams_of_reachable h
  refine ⟨?_, ?_, ?_⟩
  · intro hinterrupted
    cases hstreams.state with
    | interrupted _ hclosed => exact Or.inl hclosed
    | failed kind hstate hkind =>
      rw [hinterrupted] at hstate
      cases hstate
      exact hkind.elim (fun hne => absurd rfl hne) Or.inr
    | pulling chunks hstate | sendingChunk call forwarded chunks bytes frame hstate
    | sendingEnd call chunks hstate | delivered chunks hstate =>
      rw [hinterrupted] at hstate; cases hstate
  · intro hdelivered
    cases hstreams.state with
    | delivered chunks _ hyielded henqueued =>
      exact ⟨chunks, hyielded, henqueued, hstreams.ordered⟩
    | pulling chunks hstate | sendingChunk call forwarded chunks bytes frame hstate
    | sendingEnd call chunks hstate | interrupted hstate | failed kind hstate =>
      rw [hdelivered] at hstate; cases hstate
  · intro call hcall hopen hroom
    obtain ⟨frame, hsends⟩ := hstreams.state.exists_sends hcall
    exact ⟨frame, Pump.enqueues_of_sends hstreams.system hsends hcall hopen (hroom frame)⟩

def sampleTrace : TraceId := ⟨Bytes.utf8 "trace_000000000000000000000", by decide⟩

/-- A queue of one frame that takes the largest frame there is. -/
def singleFrame : QueueLimits := ⟨1, frameOverhead + 65536⟩

/-- The empty queue before a stream. -/
def idlePump : Pump := ⟨⟨.empty, []⟩, .pulling, 0, 0, [], []⟩

theorem idlePump_reachable (ok : Pump → Pump → Prop) :
    ((Pump.runs singleFrame sampleTrace).restrict ok).Reachable idlePump :=
  .init ⟨⟨.empty, []⟩, .init rfl, rfl⟩

/-- The frame of the only chunk of a body. -/
def sampleChunk : SessionFrame :=
  ⟨.chunk, ChunkFrame.body ⟨sampleTrace, UInt64.ofNat 0, [1, 2, 3]⟩⟩

/-- The pump's own call is not in a dropped state. -/
private theorem kept_of_get {s : Pump} {system : QueueSystem} {i : Nat}
    (hcall : s.state.call = some i)
    (hkept : system.calls[i]?.any SendCallState.isCancelled = false) :
    ∀ call other, s.state.call = some call →
      system.calls[call]? ≠ some (.finished other .cancelled) := by
  intro call other hcall' hcancelled
  obtain rfl : i = call := Option.some.inj (hcall.symm.trans hcall')
  rw [hcancelled] at hkept
  cases hkept

/-- A body of one chunk goes through a queue of one frame, since the writer has taken the chunk
    before the end is sent. -/
theorem sampleStream_reachable {ok : Pump → Pump → Prop}
    (hok : ∀ s t, (∀ item ∈ t.yielded, item ∈ [.chunk [1, 2, 3], .done]) →
      Pump.RoomToSend singleFrame s t → ok s t) :
    ∃ s, ((Pump.runs singleFrame sampleTrace).restrict ok).Reachable s ∧
      s.state = .finished .delivered ∧ s.system.queue.closed = false ∧
      s.yielded = [.chunk [1, 2, 3], .done] ∧ s.enqueued = [sampleChunk, endFrame sampleTrace] ∧
      s.system.queue.received = [sampleChunk] := by
  have hroom : SessionQueue.empty.HasRoom singleFrame sampleChunk.size := by decide
  have hsecond : SessionQueue.HasRoom singleFrame
      ⟨0, 0, [], false, none, [sampleChunk], [sampleChunk], []⟩ (endFrame sampleTrace).size := by
    decide
  -- the chunk
  have hpulled := (idlePump_reachable ok).step ⟨.pull (.chunk [1, 2, 3]) rfl,
    hok _ _ (by rw [Pump.pull_chunk _ _ (by decide)]; simp [Pump.send, idlePump])
      fun call frame hcall => by cases hcall⟩
  rw [Pump.pull_chunk _ _ (by decide)] at hpulled
  have hreserved := hpulled.step ⟨.queue _ (.reserve 0 .once _ _ rfl (if_pos hroom))
      (kept_of_get rfl rfl), hok _ _ (by simp [Pump.send, idlePump])
    fun call frame hcall hget _ => by cases hcall; cases hget; exact Or.inl hroom⟩
  have hpushed := hreserved.step ⟨.queue _ (.push 0 .once _ (Or.inl rfl) rfl (by decide))
      (kept_of_get rfl rfl), hok _ _ (by simp [Pump.send, idlePump])
    fun call frame hcall hget _ => by cases hcall; cases hget⟩
  have hresumed := hpushed.step ⟨.resume 0 _ .enqueued rfl rfl,
    hok _ _ (by simp [Pump.resume, Pump.send, idlePump])
      fun call frame hcall hget _ => by cases hcall; cases hget⟩
  -- the writer takes it
  have hpopped := hresumed.step ⟨.queue _ (.pop sampleChunk [] rfl rfl rfl)
      (fun call other hcall => by cases hcall),
    hok _ _ (by simp [Pump.resume, Pump.send, idlePump]) fun call frame hcall => by cases hcall⟩
  have hdrained := hpopped.step ⟨.queue _ (.account sampleChunk rfl)
      (fun call other hcall => by cases hcall),
    hok _ _ (by simp [Pump.resume, Pump.send, idlePump]) fun call frame hcall => by cases hcall⟩
  -- the end
  have hended := hdrained.step ⟨.pull .done rfl,
    hok _ _ (by rw [Pump.pull_done]; simp [Pump.resume, Pump.send, idlePump])
      fun call frame hcall => by cases hcall⟩
  rw [Pump.pull_done] at hended
  have hreserved' := hended.step ⟨.queue _ (.reserve 1 .once _ _ rfl (if_pos hsecond))
      (kept_of_get rfl rfl), hok _ _ (by simp [Pump.resume, Pump.send, idlePump])
    fun call frame hcall hget _ => by cases hcall; cases hget; exact Or.inl hsecond⟩
  have hpushed' := hreserved'.step ⟨.queue _ (.push 1 .once _ (Or.inl rfl) rfl (by decide))
      (kept_of_get rfl rfl), hok _ _ (by simp [Pump.resume, Pump.send, idlePump])
    fun call frame hcall hget _ => by cases hcall; cases hget⟩
  have hdone := hpushed'.step ⟨.resume 1 _ .enqueued rfl rfl,
    hok _ _ (by simp [Pump.resume, Pump.send, idlePump])
      fun call frame hcall hget _ => by cases hcall; cases hget⟩
  exact ⟨_, hdone, rfl, rfl, rfl, rfl, rfl⟩

/-- The stream of that run is delivered: both frames are enqueued in their order. -/
theorem drained_body_delivered :
    ∃ s, ((Pump.runs singleFrame sampleTrace).restrict (Pump.RoomToSend singleFrame)).Reachable s ∧
      s.state = .finished .delivered ∧ s.system.queue.received = [sampleChunk] ∧
      [sampleChunk, endFrame sampleTrace].Sublist s.system.queue.pushed := by
  obtain ⟨s, hs, hstate, -, -, henqueued, hreceived⟩ :=
    sampleStream_reachable fun _ _ _ hroom => hroom
  obtain ⟨-, hdelivered, -⟩ := stream_survives_with_room singleFrame sampleTrace s hs
  obtain ⟨chunks, -, -, hpushed⟩ := hdelivered hstate
  exact ⟨s, hs, hstate, hreceived, henqueued ▸ hpushed⟩

/-- A body of one chunk and a writer that has not drained it yet: the end finds the queue full,
    and the admitted stream is interrupted although its queue is open. -/
theorem saturated_stream_interrupted :
    ∃ s, (Pump.runs singleFrame sampleTrace).Reachable s ∧ s.yielded = [.chunk [1, 2, 3], .done] ∧
      s.state = .finished (.failed .streamInterrupted) ∧ s.system.queue.closed = false ∧
      endFrame sampleTrace ∉ s.system.queue.pushed := by
  have hpulled := (idlePump_reachable fun _ _ => True).of_restrict.step (.pull (.chunk [1, 2, 3]) rfl)
  rw [Pump.pull_chunk _ _ (by decide)] at hpulled
  have hroom : SessionQueue.empty.HasRoom singleFrame
      (SessionFrame.size ⟨.chunk, ChunkFrame.body ⟨sampleTrace, UInt64.ofNat 0, [1, 2, 3]⟩⟩) := by decide
  have hreserved := hpulled.step (.queue _ (.reserve 0 .once _ _ rfl (if_pos hroom))
    (kept_of_get rfl rfl))
  have hpushed := hreserved.step (.queue _ (.push 0 .once _ (Or.inl rfl) rfl (by decide))
    (kept_of_get rfl rfl))
  have hresumed := hpushed.step (.resume 0 _ .enqueued rfl rfl)
  have hended := hresumed.step (.pull .done rfl)
  rw [Pump.pull_done] at hended
  have hrefused := hended.step (.queue _ (.refuse 1 .once _ rfl (if_neg (by decide)) (by decide))
    (kept_of_get rfl rfl))
  have hfailed := hrefused.step (.resume 1 _ .saturated rfl rfl)
  exact ⟨_, hfailed, rfl, rfl, rfl, by decide⟩

end Radiata
