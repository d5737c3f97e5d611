import Radiata.Native.Incoming
import Radiata.Spec.OutboundCorrect

/-!
# The end of an admitted stream

The pump returns without an end frame on every failure of the body and on every refused send.
So the peer is told about the end exactly by a body that stays within the quantum and ends
orderly, whose frames all find room. In such a run the frames of the stream take it out of the
table of the peer.

## Key results

- `Incoming.receiveAll_stream`: what the frames of a stream do to the table of the peer
- `admitted_stream_ended`: a run with legal answers and room ends the stream at the peer
- `failing_body_not_ended`: a body that fails leaves the stream with the peer
-/

namespace Radiata

theorem length_chunkFrames (trace : TraceId) (n : Nat) (chunks : List Bytes) :
    (chunkFrames trace n chunks).length = chunks.length := by
  induction chunks generalizing n with
  | nil => rfl
  | cons bytes rest ih => simp [chunkFrames, ih]

/-! ## The table of the peer -/

namespace Incoming

theorem saturatingSucc_ofNat (n : Nat) :
    saturatingSucc (UInt64.ofNat (min n maxU64)) = UInt64.ofNat (min (n + 1) maxU64) := by
  unfold saturatingSucc maxU64
  by_cases hmax : n < 2 ^ 64 - 1
  · have hmin : min n (2 ^ 64 - 1) = n := by omega
    have hnext : min (n + 1) (2 ^ 64 - 1) = n + 1 := by omega
    rw [hmin, hnext, UInt64.toNat_ofNat', Nat.mod_eq_of_lt (by omega), if_neg (by omega)]
    exact (UInt64.ofNat_add n 1).symm
  · have hmin : min n (2 ^ 64 - 1) = 2 ^ 64 - 1 := by omega
    have hnext : min (n + 1) (2 ^ 64 - 1) = 2 ^ 64 - 1 := by omega
    rw [hmin, hnext]
    rfl

/-- A stream that is not in the table is not touched by the frames of its trace. -/
theorem receiveAll_absent {trace : TraceId} {chunks : List Bytes} {n : Nat}
    (hsmall : ∀ bytes ∈ chunks, bytes.length ≤ maxChunkBytes) {incoming : Incoming}
    (habsent : incoming.streams.get trace = none) (gone : List Bool)
    (hgone : gone.length = chunks.length + 1) :
    incoming.receiveAll ((chunkFrames trace n chunks ++ [endFrame trace]).zip gone) =
      some incoming := by
  induction chunks generalizing n gone with
  | nil =>
    obtain ⟨flag, rfl⟩ := List.length_eq_one_iff.mp hgone
    have hdecode : decodeEnd (endFrame trace).body controlCborLimits = .ok ⟨trace⟩ :=
      decodeEnd_encode ⟨trace⟩
    simp [chunkFrames, receiveAll, receive, endFrame, endStream, habsent,
      show decodeEnd (EndFrame.body ⟨trace⟩) controlCborLimits = .ok ⟨trace⟩ from hdecode]
  | cons bytes rest ih =>
    obtain ⟨flag, flags, rfl⟩ := List.exists_cons_of_length_pos (l := gone) (by omega)
    have hdecode := decodeChunk_encode ⟨trace, UInt64.ofNat (min n maxU64), bytes⟩
      (hsmall bytes (List.mem_cons_self ..))
    have hstep : incoming.receive ⟨.chunk, ChunkFrame.body
        ⟨trace, UInt64.ofNat (min n maxU64), bytes⟩⟩ flag = some incoming := by
      simp [receive, hdecode, forwardChunk, habsent]
    simp only [chunkFrames, List.cons_append, List.zip_cons_cons, receiveAll, hstep]
    exact ih (fun b hb => hsmall b (List.mem_cons_of_mem _ hb)) flags (by simpa using hgone)

/-- A stream leaves the table with its end frame, or before that with its consumer. -/
theorem receiveAll_stream {trace : TraceId} {chunks : List Bytes} {n : Nat} {before : List StreamItem}
    (hsmall : ∀ bytes ∈ chunks, bytes.length ≤ maxChunkBytes) {incoming : Incoming}
    (hstream : incoming.streams.get trace = some ⟨UInt64.ofNat (min n maxU64), before⟩)
    (gone : List Bool) (hgone : gone.length = chunks.length + 1) :
    ∃ after, incoming.receiveAll ((chunkFrames trace n chunks ++ [endFrame trace]).zip gone) =
        some after ∧ after.streams = incoming.streams.erase trace ∧
      ((∀ flag ∈ gone, flag = false) → after.closed = incoming.closed ++
        [(trace, before ++ chunks.map .chunk ++ [.end])]) := by
  induction chunks generalizing n gone incoming before with
  | nil =>
    obtain ⟨flag, rfl⟩ := List.length_eq_one_iff.mp hgone
    have hdecode : decodeEnd (EndFrame.body ⟨trace⟩) controlCborLimits = .ok ⟨trace⟩ :=
      decodeEnd_encode ⟨trace⟩
    refine ⟨incoming.endStream ⟨trace⟩ flag, ?_, ?_, fun hflags => ?_⟩
    · simp [chunkFrames, receiveAll, receive, endFrame, hdecode]
    · simp [endStream, hstream, close]
    · rw [hflags flag (List.mem_singleton_self _)]
      simp [endStream, hstream, close]
  | cons bytes rest ih =>
    obtain ⟨flag, flags, rfl⟩ := List.exists_cons_of_length_pos (l := gone) (by omega)
    have hrest : ∀ b ∈ rest, b.length ≤ maxChunkBytes := fun b hb =>
      hsmall b (List.mem_cons_of_mem _ hb)
    have hlength : flags.length = rest.length + 1 := by simpa using hgone
    have hdecode := decodeChunk_encode ⟨trace, UInt64.ofNat (min n maxU64), bytes⟩
      (hsmall bytes (List.mem_cons_self ..))
    simp only [chunkFrames, List.cons_append, List.zip_cons_cons, receiveAll, receive, hdecode,
      forwardChunk, hstream, ne_eq, not_true_eq_false, if_false]
    cases flag with
    | true =>
      -- The consumer has gone, and the frames that follow find no stream.
      have habsent : (incoming.close trace before).streams.get trace = none := by
        simp [close, SortedMap.get_erase]
      refine ⟨incoming.close trace before, ?_, rfl, fun hflags => ?_⟩
      · exact receiveAll_absent hrest habsent flags hlength
      · exact absurd (hflags true (List.mem_cons_self ..)) Bool.false_ne_true.symm
    | false =>
      let moved : AdmittedStream :=
        ⟨saturatingSucc (UInt64.ofNat (min n maxU64)), before ++ [.chunk bytes]⟩
      let next : Incoming := { incoming with streams := incoming.streams.insert trace moved }
      have hnext : next.streams.get trace =
          some ⟨UInt64.ofNat (min (n + 1) maxU64), before ++ [.chunk bytes]⟩ := by
        rw [← saturatingSucc_ofNat]
        exact SortedMap.get_insert_self ..
      obtain ⟨after, hafter, hstreams, hclosed⟩ := ih hrest hnext flags hlength
      refine ⟨after, hafter, ?_, fun hflags => ?_⟩
      · rw [hstreams]
        exact SortedMap.erase_insert ..
      · rw [hclosed fun other hother => hflags other (List.mem_cons_of_mem _ hother)]
        simp [next]

end Incoming

/-! ## The pump -/

/-- An answer of a body that stays within the quantum and does not fail. -/
def BodyItem.Legal : BodyItem → Prop
  | .chunk bytes => bytes.length ≤ maxChunkBytes
  | .done => True
  | .failed _ => False

/-- A step after which the body has given legal answers only, and whose reservation, if the pump
    makes one, finds room or finds the queue closed. -/
def Pump.LegalAndRoomy (limits : QueueLimits) (s t : Pump) : Prop :=
  (∀ item ∈ t.yielded, item.Legal) ∧ s.RoomToSend limits t

variable {limits : QueueLimits} {trace : TraceId} {s t : Pump}

/-- A legal answer is sent. -/
theorem Pump.pull_legal {item : BodyItem} (h : item.Legal) (state : RouteState) :
    (s.pull trace item).state ≠ .finished state := by
  cases item with
  | chunk bytes =>
    rw [Pump.pull_chunk trace s h]
    exact nofun
  | done =>
    rw [Pump.pull_done]
    exact nofun
  | failed kind => exact h.elim

theorem Pump.yielded_pull (s : Pump) (trace : TraceId) (item : BodyItem) :
    (s.pull trace item).yielded = s.yielded ++ [item] := by
  cases item with
  | chunk bytes =>
    unfold Pump.pull
    by_cases hsize : bytes.length > maxChunkBytes
    · simp only [if_pos hsize]
    · simp only [if_neg hsize]
      split <;> rfl
  | done =>
    rw [Pump.pull_done]
    rfl
  | failed kind => rfl

/-- A send that fails interrupts the stream. -/
theorem Pump.resume_failed {frame : SessionFrame} {outcome : SendOutcome} {kind : ErrorKind}
    (h : (s.resume frame outcome).state = .finished (.failed kind)) : kind = .streamInterrupted := by
  cases outcome with
  | enqueued =>
    unfold Pump.resume at h
    cases hstate : s.state <;> simp [hstate] at h
  | _ =>
    cases h
    rfl

/-- With legal answers nothing but a refused send fails the stream. -/
theorem failed_of_reachable
    (h : ((Pump.runs limits trace).restrict (Pump.LegalAndRoomy limits)).Reachable s) :
    (∀ item ∈ s.yielded, item.Legal) ∧
      ∀ kind, s.state = .finished (.failed kind) → kind = .streamInterrupted := by
  refine h.invariant (P := fun s => (∀ item ∈ s.yielded, item.Legal) ∧
    ∀ kind, s.state = .finished (.failed kind) → kind = .streamInterrupted) ?_ ?_
  · rintro s ⟨system, -, rfl⟩
    exact ⟨nofun, nofun⟩
  · intro s t _ hs hstep
    obtain ⟨hstep, hlegal, -⟩ := hstep
    refine ⟨hlegal, ?_⟩
    cases hstep with
    | queue system hqueue _ => exact hs.2
    | pull item hstate =>
      intro kind hfailed
      have hitem : item.Legal := hlegal item (by rw [Pump.yielded_pull]; simp)
      exact absurd hfailed (Pump.pull_legal hitem _)
    | resume call frame outcome hcall hfinished =>
      intro kind hfailed
      exact Pump.resume_failed hfailed

/-- In every run whose body stays within the quantum and ends orderly and whose sends find room: a
    pump that has returned on an open session has enqueued the end frame, and the frames of the
    stream leave the table of the peer as it was before the stream, with the end in the channel of
    a consumer that has not gone away. -/
theorem admitted_stream_ended (limits : QueueLimits) (trace : TraceId) (s : Pump) (state : RouteState)
    (h : ((Pump.runs limits trace).restrict (Pump.LegalAndRoomy limits)).Reachable s)
    (hfinished : s.state = .finished state) (hopen : s.system.queue.closed = false) :
    endFrame trace ∈ s.system.queue.pushed ∧
      ∀ (incoming : Incoming) (gone : List Bool), incoming.streams.get trace = none →
        gone.length = s.enqueued.length →
        ∃ after, (incoming.admitOpen trace).receiveAll (s.enqueued.zip gone) = some after ∧
          after.streams = incoming.streams ∧
          ((∀ flag ∈ gone, flag = false) → ∃ items, after.closed = incoming.closed ++ [(trace, items)] ∧
            items.getLast? = some .end) := by
  have hstreams := Pump.streams_of_reachable (h.restrict_mono fun s t hstep => hstep.2)
  obtain ⟨hlegal, hfailed⟩ := failed_of_reachable h
  cases hstreams.state with
  | pulling chunks hstate | sendingChunk call forwarded chunks bytes frame hstate
  | sendingEnd call chunks hstate => rw [hfinished] at hstate; cases hstate
  | interrupted hstate hclosed => rw [hopen] at hclosed; cases hclosed
  | failed kind hstate hkind =>
    -- the body did not fail, so the failure would be an interruption
    rcases hkind with hne | hlast
    · exact absurd (hfailed kind hstate) hne
    · exact (hlegal _ (List.mem_of_getLast? hlast)).elim
  | delivered chunks hstate hyielded henqueued =>
    refine ⟨hstreams.ordered.subset (by simp [henqueued]), fun incoming gone habsent hlength => ?_⟩
    have hsmall : ∀ bytes ∈ chunks, bytes.length ≤ maxChunkBytes := by
      intro bytes hbytes
      exact hlegal (.chunk bytes) (by rw [hyielded]; simp [hbytes])
    have hcount : gone.length = chunks.length + 1 := by
      rw [hlength, henqueued, List.length_append, length_chunkFrames]
      rfl
    have hadmitted : (incoming.admitOpen trace).streams.get trace =
        some ⟨UInt64.ofNat (min 0 maxU64), []⟩ := SortedMap.get_insert_self ..
    obtain ⟨after, hafter, htable, hclosed⟩ :=
      Incoming.receiveAll_stream hsmall hadmitted gone hcount
    refine ⟨after, by rw [henqueued]; exact hafter, ?_, fun hflags => ?_⟩
    · rw [htable]
      show (incoming.streams.insert trace _).erase trace = _
      rw [SortedMap.erase_insert, SortedMap.erase_of_get_none _ habsent]
    · exact ⟨_, hclosed hflags, by simp⟩

/-- A body of one chunk goes through a queue of one frame, and the peer has its table back. -/
theorem drained_stream_ended :
    ∃ s, ((Pump.runs singleFrame sampleTrace).restrict
        (Pump.LegalAndRoomy singleFrame)).Reachable s ∧ s.state = .finished .delivered ∧
      s.enqueued = [sampleChunk, endFrame sampleTrace] ∧
      endFrame sampleTrace ∈ s.system.queue.pushed ∧
      ∃ after, ((⟨.empty, []⟩ : Incoming).admitOpen sampleTrace).receiveAll
          (s.enqueued.zip [false, false]) = some after ∧ after.streams = .empty := by
  obtain ⟨s, hs, hstate, hopen, -, henqueued, -⟩ :
      ∃ s, ((Pump.runs singleFrame sampleTrace).restrict
        (Pump.LegalAndRoomy singleFrame)).Reachable s ∧ s.state = .finished .delivered ∧
      s.system.queue.closed = false ∧ s.yielded = [.chunk [1, 2, 3], .done] ∧
      s.enqueued = [sampleChunk, endFrame sampleTrace] ∧
      s.system.queue.received = [sampleChunk] := by
    refine sampleStream_reachable fun _ t hyielded hroom => ⟨fun item hitem => ?_, hroom⟩
    have hmem := hyielded item hitem
    simp only [List.mem_cons, List.not_mem_nil, or_false] at hmem
    rcases hmem with rfl | rfl
    · exact (by decide : [1, 2, 3].length ≤ maxChunkBytes)
    · trivial
  obtain ⟨hend, hpeer⟩ :=
    admitted_stream_ended singleFrame sampleTrace s .delivered hs hstate hopen
  obtain ⟨after, hafter, hstreams, -⟩ := hpeer ⟨.empty, []⟩ [false, false] rfl
    (by rw [henqueued]; rfl)
  exact ⟨s, hs, hstate, henqueued, hend, after, hafter, hstreams⟩

/-- A body that fails: the pump returns without an end, and the stream stays in the table of the
    peer. -/
theorem failing_body_not_ended :
    ∃ s, (Pump.runs singleFrame sampleTrace).Reachable s ∧ s.yielded = [.failed .internal] ∧
      s.state = .finished (.failed .internal) ∧ s.system.queue.closed = false ∧
      s.system.queue.pushed = [] ∧
      ∃ after, ((⟨.empty, []⟩ : Incoming).admitOpen sampleTrace).receiveAll (s.enqueued.zip []) =
        some after ∧ after.streams ≠ .empty := by
  have hfailed := (idlePump_reachable fun _ _ => True).of_restrict.step
    (.pull (.failed .internal) rfl)
  refine ⟨_, hfailed, rfl, rfl, rfl, rfl, _, rfl, fun heq => ?_⟩
  have hget := congrArg (fun table => table.get sampleTrace) heq
  simp [Incoming.admitOpen] at hget

end Radiata
