import Mathlib.Data.List.Induction
import Mathlib.Data.List.Infix
import Radiata.Native.ReadLoop

/-!
# The bodies of received packets

An admission makes one channel and spawns one consumer. From then on every chunk of the trace
either has the next sequence number or ends the session, so the channel holds all chunks that
came in since, until the end frame or the loss of the consumer closes it.

This needs that the frames of an admitted trace reach the table of the session. They do not while
the forwarding table has a hop for the same trace, which another session may register, or this
one by a second open of the trace for another node: a chunk is relayed then, an end ends the hop,
and the next end frame completes a body that misses the chunk.

## Key results

- `ReadLoopInv`: what the frames since an admission say about the channel
- `received_bodies_exact`: exact bodies in every undisturbed run
- `diverted_chunk_lost`: a second open that is relayed, and a complete body without its chunk
-/

namespace Radiata

open ReadContext

/-- An element of a modified list is the one at its place, modified at place `i`. -/
theorem exists_of_getElem?_modify {α : Type} {l : List α} {f : α → α} {i j : Nat} {b : α}
    (h : (l.modify i f)[j]? = some b) :
    ∃ a, l[j]? = some a ∧ (i = j ∧ b = f a ∨ i ≠ j ∧ b = a) := by
  rw [List.getElem?_modify] at h
  cases hget : l[j]? with
  | none => simp [hget] at h
  | some a =>
    refine ⟨a, rfl, ?_⟩
    by_cases hij : i = j
    · exact Or.inl ⟨hij, by simpa [hget, hij] using h.symm⟩
    · exact Or.inr ⟨hij, by simpa [hget, hij] using h.symm⟩

/-! ## Chunks and bodies -/

/-- The sequence numbers count from zero. -/
def Numbered (chunks : List ChunkFrame) : Prop :=
  ∀ k (h : k < chunks.length), chunks[k].sequence.toNat = k

theorem Numbered.concat {chunks : List ChunkFrame} (h : Numbered chunks) {frame : ChunkFrame}
    (hnext : frame.sequence.toNat = chunks.length) : Numbered (chunks ++ [frame]) := by
  intro k hk
  rw [List.length_append, List.length_singleton] at hk
  by_cases hlast : k < chunks.length
  · rw [List.getElem_append_left hlast]
    exact h k hlast
  · have hk : k = chunks.length := by omega
    subst hk
    rw [List.getElem_concat_length rfl]
    exact hnext

theorem Numbered.take {chunks : List ChunkFrame} (h : Numbered chunks) (n : Nat) :
    Numbered (chunks.take n) := by
  intro k hk
  rw [List.length_take] at hk
  rw [List.getElem_take]
  exact h k (by omega)

/-- The items of chunks. -/
def chunkItems (chunks : List ChunkFrame) : List StreamItem :=
  chunks.map fun frame => .chunk frame.bytes

def StreamItem.chunkBytes : StreamItem → Option Bytes
  | chunk bytes => some bytes
  | «end» => none

/-- The bytes of the chunks that a consumer took. -/
def bodyChunks (items : List StreamItem) : List Bytes := items.filterMap StreamItem.chunkBytes

theorem bodyChunks_chunkItems (chunks : List ChunkFrame) :
    bodyChunks (chunkItems chunks) = chunks.map (·.bytes) := by
  induction chunks with
  | nil => rfl
  | cons frame rest ih => exact congrArg (frame.bytes :: ·) ih

theorem end_not_mem_chunkItems (chunks : List ChunkFrame) (k : Nat) :
    (chunkItems chunks)[k]? ≠ some .end := by
  unfold chunkItems
  rw [List.getElem?_map]
  cases chunks[k]? <;> simp

/-- A body ends orderly only where the end item is. -/
theorem getElem?_of_channelAnswer {items : List StreamItem} {closed : Bool} {taken : Nat}
    (h : channelAnswer items closed taken = some (.ok none)) : items[taken]? = some .end := by
  unfold channelAnswer at h
  split at h
  · simp at h
  · assumption
  · split at h <;> simp at h

section Chunks

variable [DnsName]

/-- The chunk of a trace that an event brings. -/
def ReadEvent.chunkOf (trace : TraceId) : ReadEvent → Option ChunkFrame
  | .chunk frame _ _ => if frame.traceId = trace then some frame else none
  | _ => none

/-- The chunks of a trace that arrive. -/
def chunksOf (trace : TraceId) (events : List ReadEvent) : List ChunkFrame :=
  events.filterMap (ReadEvent.chunkOf trace)

theorem chunksOf_append (trace : TraceId) (events later : List ReadEvent) :
    chunksOf trace (events ++ later) = chunksOf trace events ++ chunksOf trace later :=
  List.filterMap_append

/-- What the events since an admission say about a body: each chunk it yields is the next one
    that arrived, and it ends orderly only at an end frame, after all chunks before it. -/
structure ReceivesExactly (later : List ReadEvent) (consumer : PacketConsumer) : Prop where
  inOrder : ∀ taken, ∃ n,
    bodyChunks (consumer.items.take taken) =
      ((chunksOf consumer.trace later).take n).map (·.bytes) ∧
    Numbered ((chunksOf consumer.trace later).take n)
  atEnd : ∀ taken, channelAnswer consumer.items consumer.closed taken = some (.ok none) →
    ∃ before frame gone after, later = before ++ .end frame gone :: after ∧
      frame.traceId = consumer.trace ∧
      bodyChunks (consumer.items.take taken) = (chunksOf consumer.trace before).map (·.bytes)

/-- The items are the chunks that arrived up to some event, with or without an end frame after
    them. -/
def ExactItems (trace : TraceId) (later : List ReadEvent) (items : List StreamItem) : Prop :=
  ∃ before after, later = before ++ after ∧ Numbered (chunksOf trace before) ∧
    (items = chunkItems (chunksOf trace before) ∨
      ∃ frame gone rest, after = .end frame gone :: rest ∧ frame.traceId = trace ∧
        items = chunkItems (chunksOf trace before) ++ [.end])

theorem ExactItems.append {trace : TraceId} {later : List ReadEvent} {items : List StreamItem}
    (h : ExactItems trace later items) (events : List ReadEvent) :
    ExactItems trace (later ++ events) items := by
  obtain ⟨before, after, rfl, hnumbered, hitems⟩ := h
  refine ⟨before, after ++ events, List.append_assoc .., hnumbered, ?_⟩
  rcases hitems with hitems | ⟨frame, gone, rest, rfl, htrace, hitems⟩
  · exact Or.inl hitems
  · exact Or.inr ⟨frame, gone, rest ++ events, rfl, htrace, hitems⟩

theorem ExactItems.receives {later : List ReadEvent} {consumer : PacketConsumer}
    (h : ExactItems consumer.trace later consumer.items) : ReceivesExactly later consumer := by
  obtain ⟨before, after, rfl, hnumbered, hitems⟩ := h
  -- However many items are taken, they are the first chunks, and maybe the end after all of them.
  have htake : ∀ taken, bodyChunks (consumer.items.take taken) =
      ((chunksOf consumer.trace before).take taken).map (·.bytes) := by
    intro taken
    have hchunks : bodyChunks ((chunkItems (chunksOf consumer.trace before)).take taken) =
        ((chunksOf consumer.trace before).take taken).map (·.bytes) := by
      rw [chunkItems, ← List.map_take]
      exact bodyChunks_chunkItems _
    rcases hitems with hitems | ⟨frame, gone, rest, -, -, hitems⟩
    · rw [hitems, hchunks]
    · have hend : ∀ n, bodyChunks (([.end] : List StreamItem).take n) = [] := by
        intro n
        cases n <;> simp [bodyChunks, StreamItem.chunkBytes]
      rw [hitems, List.take_append, bodyChunks, List.filterMap_append, ← bodyChunks, ← bodyChunks,
        hend, List.append_nil, hchunks]
  constructor
  · intro taken
    refine ⟨min taken (chunksOf consumer.trace before).length, ?_, ?_⟩
    · rw [htake, chunksOf_append, List.take_append_of_le_length (by omega),
        ← List.take_eq_take_min]
    · rw [chunksOf_append, List.take_append_of_le_length (by omega)]
      exact hnumbered.take _
  · intro taken hanswer
    have hat := getElem?_of_channelAnswer hanswer
    rcases hitems with hitems | ⟨frame, gone, rest, rfl, htrace, hitems⟩
    · rw [hitems] at hat
      exact absurd hat (end_not_mem_chunkItems _ taken)
    · refine ⟨before, frame, gone, rest, rfl, htrace, ?_⟩
      have hlength : (chunkItems (chunksOf consumer.trace before)).length =
          (chunksOf consumer.trace before).length := List.length_map _
      have hlate : (chunksOf consumer.trace before).length ≤ taken := by
        by_contra hlt
        rw [hitems, List.getElem?_append_left (by omega)] at hat
        exact end_not_mem_chunkItems _ taken hat
      rw [htake, List.take_of_length_le hlate]

end Chunks

/-! ## The invariant -/

section Invariant

variable [DnsName] {context : ReadContext} {hops : SortedMap TraceId Unit}

/-- A stream in the table: its channel has all chunks that arrived since its admission. -/
structure Receiving (later : List ReadEvent) (consumer : PacketConsumer) (entry : AdmittedEntry) :
    Prop where
  numbered : Numbered (chunksOf consumer.trace later)
  items : consumer.items = chunkItems (chunksOf consumer.trace later)
  next : entry.nextSequence.toNat = min (chunksOf consumer.trace later).length (2 ^ 64 - 1)

/-- The consumer at place `i` receives, or its body is exact for good. -/
def BodyState (incoming : SortedMap TraceId AdmittedEntry) (i : Nat) (later : List ReadEvent)
    (consumer : PacketConsumer) : Prop :=
  (∃ entry, incoming.get consumer.trace = some entry ∧ entry.channel = i ∧
      Receiving later consumer entry) ∨
    ((∀ entry, incoming.get consumer.trace = some entry → entry.channel ≠ i) ∧
      ExactItems consumer.trace later consumer.items)

namespace BodyState

variable {incoming incoming' : SortedMap TraceId AdmittedEntry} {i : Nat} {later : List ReadEvent}
  {consumer : PacketConsumer}

theorem exact (h : BodyState incoming i later consumer) :
    ExactItems consumer.trace later consumer.items := by
  rcases h with ⟨entry, _, _, hreceiving⟩ | ⟨_, hexact⟩
  · exact ⟨later, [], (List.append_nil _).symm, hreceiving.numbered, Or.inl hreceiving.items⟩
  · exact hexact

/-- A stream that is not in the table any more stays as it is. -/
theorem closed (h : BodyState incoming i later consumer) (events : List ReadEvent)
    (hclosed : ∀ entry, incoming'.get consumer.trace = some entry → entry.channel ≠ i) :
    BodyState incoming' i (later ++ events) consumer :=
  Or.inr ⟨hclosed, h.exact.append events⟩

/-- Events without a chunk for the table leave a body as it is. -/
theorem pass (h : BodyState incoming i later consumer) {events : List ReadEvent}
    (hpass : incoming.get consumer.trace ≠ none → chunksOf consumer.trace events = [])
    (hsame : incoming'.get consumer.trace = incoming.get consumer.trace) :
    BodyState incoming' i (later ++ events) consumer := by
  rcases h with ⟨entry, hentry, hchannel, hreceiving⟩ | ⟨hclosed, hexact⟩
  · have hnone : chunksOf consumer.trace (later ++ events) = chunksOf consumer.trace later := by
      rw [chunksOf_append, hpass (by simp [hentry]), List.append_nil]
    refine Or.inl ⟨entry, hsame.trans hentry, hchannel, ?_⟩
    constructor
    · rw [hnone]
      exact hreceiving.numbered
    · rw [hnone]
      exact hreceiving.items
    · rw [hnone]
      exact hreceiving.next
  · exact Or.inr ⟨fun entry hentry => hclosed entry (hsame ▸ hentry), hexact.append events⟩

end BodyState

/-- The open frame that admitted the consumer at place `i`. -/
structure AdmittedBy (context : ReadContext) (hops : SortedMap TraceId Unit)
    (before : List ReadEvent) (event : ReadEvent) (i : Nat) (consumer : PacketConsumer) : Prop where
  place : (context.run hops before).consumers.length = i
  running : (context.run hops before).running = true
  frame : ∃ frame now ackedAt relayed queued, event = .open frame now ackedAt relayed queued ∧
    context.routed frame = false ∧
    context.admission (context.run hops before) frame = .admitted ∧
    consumer.trace = frame.traceId ∧ consumer.opening = frame.opening

/-- What the events say about the table and the channels. -/
structure ReadLoopInv (context : ReadContext) (hops : SortedMap TraceId Unit)
    (events : List ReadEvent) (state : ReadState) : Prop where
  spawned : state.spawned = List.range state.consumers.length
  bounded : state.incoming.toList.length ≤ context.queueMessages
  stopped : state.running = false → state.incoming = .empty
  entries : ∀ trace entry, state.incoming.get trace = some entry →
    ∃ consumer, state.consumers[entry.channel]? = some consumer ∧ consumer.trace = trace
  bodies : ∀ i consumer, state.consumers[i]? = some consumer →
    ∃ before event later, events = before ++ event :: later ∧
      AdmittedBy context hops before event i consumer ∧ BodyState state.incoming i later consumer

namespace ReadLoopInv

variable {events : List ReadEvent} {state state' : ReadState}

variable {extra : List ReadEvent}

/-- A step that keeps the consumers, up to items and closing, carries the bodies along. -/
theorem carry (h : ReadLoopInv context hops events state)
    (hspawned : state'.spawned = state.spawned)
    (hlength : state'.consumers.length = state.consumers.length)
    (hbounded : state'.incoming.toList.length ≤ context.queueMessages)
    (hstopped : state'.running = false → state'.incoming = .empty)
    (hentries : ∀ trace entry, state'.incoming.get trace = some entry →
      ∃ old, state.incoming.get trace = some old ∧ entry.channel = old.channel)
    (hbodies : ∀ i consumer', state'.consumers[i]? = some consumer' →
      ∃ consumer, state.consumers[i]? = some consumer ∧ consumer'.trace = consumer.trace ∧
        consumer'.opening = consumer.opening ∧ ∀ later, BodyState state.incoming i later consumer →
          BodyState state'.incoming i (later ++ extra) consumer') :
    ReadLoopInv context hops (events ++ extra) state' where
  spawned := by rw [hspawned, hlength, h.spawned]
  bounded := hbounded
  stopped := hstopped
  entries := by
    intro trace entry hentry
    obtain ⟨old, hold, hchannel⟩ := hentries trace entry hentry
    obtain ⟨consumer, hconsumer, htrace⟩ := h.entries trace old hold
    have hlt := (List.getElem?_eq_some_iff.mp hconsumer).1
    have hget : state'.consumers[entry.channel]? = some state'.consumers[entry.channel] :=
      List.getElem?_eq_getElem (by omega)
    obtain ⟨consumer₀, hconsumer₀, htrace₀, _⟩ := hbodies _ _ hget
    rw [hchannel, hconsumer] at hconsumer₀
    cases hconsumer₀
    exact ⟨_, hget, htrace₀.trans htrace⟩
  bodies := by
    intro i consumer' hconsumer'
    obtain ⟨consumer, hconsumer, htrace, hopening, hstate⟩ := hbodies i consumer' hconsumer'
    obtain ⟨before, event, later, rfl, hadmitted, hbody⟩ := h.bodies i consumer hconsumer
    refine ⟨before, event, later ++ extra, by simp, ?_, hstate later hbody⟩
    obtain ⟨frame, now, ackedAt, relayed, queued, hframe⟩ := hadmitted.frame
    exact ⟨hadmitted.place, hadmitted.running, frame, now, ackedAt, relayed, queued,
      by rw [htrace, hopening]; exact hframe⟩

/-- Events that change neither the table nor the consumers. -/
theorem same (h : ReadLoopInv context hops events state)
    (hspawned : state'.spawned = state.spawned) (hconsumers : state'.consumers = state.consumers)
    (hincoming : state'.incoming = state.incoming) (hrunning : state'.running = state.running)
    (hpass : ∀ trace, state.incoming.get trace ≠ none → chunksOf trace extra = []) :
    ReadLoopInv context hops (events ++ extra) state' := by
  apply h.carry hspawned
  · rw [hconsumers]
  · rw [hincoming]
    exact h.bounded
  · rw [hincoming, hrunning]
    exact h.stopped
  · intro trace entry hentry
    rw [hincoming] at hentry
    exact ⟨entry, hentry, rfl⟩
  · intro i consumer hconsumer
    rw [hconsumers] at hconsumer
    exact ⟨consumer, hconsumer, rfl, rfl, fun later hbody => hbody.pass (hpass _) (by rw [hincoming])⟩

/-- The end of the loop, whatever it has read last. -/
theorem stop (h : ReadLoopInv context hops events state) (extra : List ReadEvent) :
    ReadLoopInv context hops (events ++ extra) state.stop := by
  apply h.carry
  · rfl
  · exact List.length_map _
  · exact Nat.zero_le _
  · exact fun _ => rfl
  · intro trace entry hentry
    exact nomatch hentry
  · intro i consumer' hconsumer'
    rw [ReadState.stop, List.getElem?_map, Option.map_eq_some_iff] at hconsumer'
    obtain ⟨consumer, hconsumer, rfl⟩ := hconsumer'
    refine ⟨consumer, hconsumer, rfl, rfl, fun later hbody => ?_⟩
    exact Or.inr ⟨(fun entry hentry => nomatch hentry), hbody.exact.append extra⟩

/-- A stream leaves the table, with the end item if an end frame is what was read. -/
theorem close (h : ReadLoopInv context hops events state) {trace : TraceId}
    {entry : AdmittedEntry} (hentry : state.incoming.get trace = some entry)
    {last : List StreamItem} (hothers : ∀ other, other ≠ trace → chunksOf other extra = [])
    (hlast : last = [] ∨ ∃ frame gone, extra = [.end frame gone] ∧ frame.traceId = trace ∧
      last = [.end]) :
    ReadLoopInv context hops (events ++ extra) (state.close trace entry.channel last) := by
  apply h.carry
  · rfl
  · exact List.length_modify ..
  · have hperm := state.incoming.perm_of_get hentry
    have hlength := hperm.length_eq
    rw [List.length_cons] at hlength
    have := h.bounded
    show (state.incoming.erase trace).toList.length ≤ _
    omega
  · intro hstopped
    have hempty := h.stopped hstopped
    rw [hempty] at hentry
    exact nomatch hentry
  · intro other old hold
    replace hold : (state.incoming.erase trace).get other = some old := hold
    rw [SortedMap.get_erase] at hold
    split at hold
    · exact nomatch hold
    · exact ⟨old, hold, rfl⟩
  · intro i consumer' hconsumer'
    obtain ⟨owner, howner, hownerTrace⟩ := h.entries trace entry hentry
    obtain ⟨consumer, hconsumer, ⟨rfl, rfl⟩ | ⟨hi, rfl⟩⟩ := exists_of_getElem?_modify hconsumer'
    · -- The consumer of the stream.
      rw [howner] at hconsumer
      cases hconsumer
      refine ⟨owner, howner, rfl, rfl, fun later hbody => Or.inr ⟨?_, ?_⟩⟩
      · intro old hold
        replace hold : (state.incoming.erase trace).get owner.trace = some old := hold
        rw [hownerTrace, SortedMap.get_erase, if_pos rfl] at hold
        exact nomatch hold
      · rcases hbody with ⟨_, _, _, hreceiving⟩ | ⟨hclosed, _⟩
        · refine ⟨later, extra, rfl, hreceiving.numbered, ?_⟩
          rcases hlast with rfl | ⟨frame, gone, rfl, hframe, rfl⟩
          · exact Or.inl (by simp [hreceiving.items])
          · exact Or.inr ⟨frame, gone, [], rfl, hframe.trans hownerTrace.symm,
              by simp [hreceiving.items]⟩
        · exact absurd rfl (hclosed entry (hownerTrace ▸ hentry))
    · refine ⟨consumer', hconsumer, rfl, rfl, fun later hbody => ?_⟩
      by_cases htrace : consumer'.trace = trace
      · -- An earlier admission of the same trace.
        apply hbody.closed
        intro old hold
        replace hold : (state.incoming.erase trace).get consumer'.trace = some old := hold
        rw [htrace, SortedMap.get_erase, if_pos rfl] at hold
        exact nomatch hold
      · exact hbody.pass (fun _ => hothers _ htrace) (SortedMap.get_erase_ne _ htrace)

/-- The next chunk of a stream. -/
theorem push (h : ReadLoopInv context hops events state) {entry : AdmittedEntry}
    {frame : ChunkFrame} (gone broken : Bool)
    (hentry : state.incoming.get frame.traceId = some entry)
    (hnext : entry.nextSequence = frame.sequence)
    (hfew : ∀ consumer, state.consumers[entry.channel]? = some consumer →
      consumer.items.length < 2 ^ 64) :
    ReadLoopInv context hops (events ++ [.chunk frame gone broken])
      { state with
        incoming := state.incoming.insert frame.traceId
          { entry with nextSequence := saturatingSucc entry.nextSequence }
        consumers := state.consumers.modify entry.channel fun consumer =>
          { consumer with items := consumer.items ++ [.chunk frame.bytes] } } := by
  apply h.carry
  · rfl
  · exact List.length_modify ..
  · have hperm := (state.incoming.insert_perm frame.traceId
      { entry with nextSequence := saturatingSucc entry.nextSequence }).length_eq
    have hold := (state.incoming.perm_of_get hentry).length_eq
    have := h.bounded
    simp only [List.length_cons] at hperm hold ⊢
    omega
  · intro hstopped
    have hempty := h.stopped hstopped
    rw [hempty] at hentry
    exact nomatch hentry
  · intro other old hold
    dsimp only at hold
    rw [SortedMap.get_insert] at hold
    split at hold
    · rename_i hother
      cases hold
      exact ⟨entry, hother ▸ hentry, rfl⟩
    · exact ⟨old, hold, rfl⟩
  · intro i consumer' hconsumer'
    obtain ⟨owner, howner, hownerTrace⟩ := h.entries _ entry hentry
    obtain ⟨consumer, hconsumer, ⟨rfl, rfl⟩ | ⟨hi, rfl⟩⟩ := exists_of_getElem?_modify hconsumer'
    · rw [howner] at hconsumer
      cases hconsumer
      refine ⟨owner, howner, rfl, rfl, fun later hbody => ?_⟩
      rcases hbody with ⟨old, hold, _, hreceiving⟩ | ⟨hclosed, _⟩
      · rw [hownerTrace, hentry] at hold
        cases hold
        have hchunks : chunksOf owner.trace (later ++ [.chunk frame gone broken]) =
            chunksOf owner.trace later ++ [frame] := by
          rw [chunksOf_append]
          simp [chunksOf, ReadEvent.chunkOf, hownerTrace]
        have hcount := hfew owner howner
        rw [hreceiving.items, chunkItems, List.length_map] at hcount
        have hsequence : frame.sequence.toNat = (chunksOf owner.trace later).length := by
          rw [← hnext, hreceiving.next]
          omega
        refine Or.inl ⟨{ entry with nextSequence := saturatingSucc entry.nextSequence }, ?_, rfl, ?_⟩
        · rw [hownerTrace]
          exact SortedMap.get_insert_self ..
        · constructor
          · rw [hchunks]
            exact hreceiving.numbered.concat hsequence
          · rw [hchunks, hreceiving.items]
            simp [chunkItems]
          · rw [hchunks, toNat_saturatingSucc, hreceiving.next, List.length_append,
              List.length_singleton]
            omega
      · exact absurd rfl (hclosed entry (hownerTrace ▸ hentry))
    · refine ⟨consumer', hconsumer, rfl, rfl, fun later hbody => ?_⟩
      by_cases htrace : consumer'.trace = frame.traceId
      · apply hbody.closed
        intro old hold
        dsimp only at hold
        rw [htrace, SortedMap.get_insert_self] at hold
        cases hold
        exact hi
      · apply hbody.pass
        · intro _
          simp [chunksOf, ReadEvent.chunkOf, Ne.symm htrace]
        · exact SortedMap.get_insert_ne _ _ htrace

variable {frame : OpenFrame OpenContent}

/-- What the checks of an admission have found. -/
theorem admission_admitted (h : context.admission state frame = .admitted) :
    frame.destination = context.localId ∧ state.incoming.get frame.traceId = none ∧
      state.incoming.toList.length < context.queueMessages := by
  unfold admission at h
  split at h
  · cases h
  · split at h
    · cases h
    · rename_i hdestination
      cases hget : state.incoming.get frame.traceId with
      | some entry =>
        simp only [hget] at h
        split at h <;> cases h
      | none =>
        simp only [hget] at h
        split at h
        · split at h
          · split at h
            · cases h
            · rename_i hroom
              exact ⟨not_not.mp hdestination, rfl, by omega⟩
          · cases h
        · cases h

/-- A new stream. -/
theorem enroll (h : ReadLoopInv context hops events (context.run hops events))
    (now ackedAt : UInt64) (relayed queued : Bool)
    (hrunning : (context.run hops events).running = true) (hrouted : context.routed frame = false)
    (hadmission : context.admission (context.run hops events) frame = .admitted) :
    ReadLoopInv context hops (events ++ [.open frame now ackedAt relayed queued])
      (ReadContext.enroll (context.run hops events) frame now) := by
  obtain ⟨_, hnone, hroom⟩ := admission_admitted hadmission
  generalize hstate : context.run hops events = state at *
  have hnochunk : ∀ trace, chunksOf trace [.open frame now ackedAt relayed queued] = [] :=
    fun _ => rfl
  constructor
  · rw [ReadContext.enroll, h.spawned, List.length_append, List.length_singleton,
      List.range_succ]
  · have hperm := (state.incoming.insert_perm frame.traceId
      ⟨state.consumers.length, 0, frame.opening.digest, now⟩).length_eq
    rw [SortedMap.erase_of_get_none _ hnone, List.length_cons] at hperm
    show (state.incoming.insert _ _).toList.length ≤ _
    omega
  · intro hstopped
    exact absurd hrunning (by rw [show state.running = false from hstopped]; decide)
  · intro trace entry hentry
    replace hentry : (state.incoming.insert frame.traceId
      ⟨state.consumers.length, 0, frame.opening.digest, now⟩).get trace = some entry := hentry
    rw [SortedMap.get_insert] at hentry
    split at hentry
    · rename_i htrace
      cases hentry
      exact ⟨_, List.getElem?_concat_length .., htrace.symm⟩
    · obtain ⟨consumer, hconsumer, htrace⟩ := h.entries trace entry hentry
      have hlt := (List.getElem?_eq_some_iff.mp hconsumer).1
      exact ⟨consumer, by rw [ReadContext.enroll, List.getElem?_append_left hlt]; exact hconsumer,
        htrace⟩
  · intro i consumer hconsumer
    replace hconsumer : (state.consumers ++ [⟨frame.traceId, frame.opening, [], false⟩])[i]? =
      some consumer := hconsumer
    by_cases hold : i < state.consumers.length
    · rw [List.getElem?_append_left hold] at hconsumer
      obtain ⟨before, event, later, rfl, hadmitted, hbody⟩ := h.bodies i consumer hconsumer
      refine ⟨before, event, later ++ [.open frame now ackedAt relayed queued], by simp,
        hadmitted, ?_⟩
      by_cases htrace : consumer.trace = frame.traceId
      · -- An earlier admission of the same trace.
        apply hbody.closed
        intro entry hentry
        replace hentry : (state.incoming.insert frame.traceId
          ⟨state.consumers.length, 0, frame.opening.digest, now⟩).get consumer.trace =
            some entry := hentry
        rw [htrace, SortedMap.get_insert_self] at hentry
        cases hentry
        exact Nat.ne_of_gt hold
      · exact hbody.pass (fun _ => hnochunk _) (SortedMap.get_insert_ne _ _ htrace)
    · obtain ⟨hlt, hget⟩ := List.getElem?_eq_some_iff.mp hconsumer
      rw [List.length_append, List.length_singleton] at hlt
      have hi : i = state.consumers.length := by omega
      subst hi
      rw [List.getElem_concat_length rfl] at hget
      subst hget
      refine ⟨events, .open frame now ackedAt relayed queued, [], rfl, ?_, ?_⟩
      · constructor
        · rw [hstate]
        · rw [hstate]
          exact hrunning
        · exact ⟨frame, now, ackedAt, relayed, queued, rfl, hrouted, by rw [hstate]; exact hadmission,
            rfl, rfl⟩
      · refine Or.inl ⟨⟨state.consumers.length, 0, frame.opening.digest, now⟩,
          SortedMap.get_insert_self .., rfl, ?_⟩
        constructor
        · intro k hk
          exact absurd hk (Nat.not_lt_zero k)
        · rfl
        · rfl

end ReadLoopInv

/-- The frame does not meet the forwarder on an admitted trace: an open of the trace is not relayed,
    a chunk finds no hop, and the numbers of the chunks do not run out. -/
def Undisturbed (context : ReadContext) (state : ReadState) : ReadEvent → Prop
  | .open frame _ _ relayed _ =>
    state.incoming.contains frame.traceId = true → context.routed frame = true → relayed = false
  | .chunk frame _ _ =>
    ∀ entry, state.incoming.get frame.traceId = some entry →
      state.hops.contains frame.traceId = false ∧
        ∀ consumer, state.consumers[entry.channel]? = some consumer →
          consumer.items.length < 2 ^ 64
  | _ => True

namespace ReadLoopInv

variable {events : List ReadEvent} {state : ReadState}

/-- An event without a chunk passes no chunk to any trace. -/
theorem chunksOf_singleton {trace : TraceId} {event : ReadEvent}
    (h : event.chunkOf trace = none) : chunksOf trace [event] = [] := by
  simp [chunksOf, h]

theorem acknowledge (h : ReadLoopInv context hops events state) (ack : AckFrame) (queued : Bool) :
    ReadLoopInv context hops events (ReadContext.acknowledge state ack queued) := by
  rw [← List.append_nil events]
  unfold ReadContext.acknowledge
  split
  · exact h.same rfl rfl rfl rfl (fun _ _ => rfl)
  · exact h.stop []

theorem step (h : ReadLoopInv context hops events (context.run hops events)) (event : ReadEvent)
    (hok : Undisturbed context (context.run hops events) event) :
    ReadLoopInv context hops (events ++ [event])
      (context.step (context.run hops events) event) := by
  unfold ReadContext.step
  by_cases hrunning : (context.run hops events).running = true
  · rw [if_neg (by simp [hrunning])]
    cases event with
    | «open» frame now ackedAt relayed queued =>
      have hpass : ∀ trace, chunksOf trace [.open frame now ackedAt relayed queued] = [] :=
        fun _ => rfl
      by_cases hrouted : context.routed frame = true
      · simp only [hrouted, if_true, forwardOpen]
        split <;> exact h.same rfl rfl rfl rfl (fun trace _ => hpass trace)
      · simp only [hrouted, Bool.false_eq_true, if_false, admitOpen]
        cases hadmission : context.admission (context.run hops events) frame with
        | refused status | again admittedAtMillis =>
          exact (h.same rfl rfl rfl rfl (fun trace _ => hpass trace)).acknowledge _ queued
        | admitted =>
          exact (h.enroll now ackedAt relayed queued hrunning (by simpa using hrouted)
            hadmission).acknowledge _ queued
    | chunk frame gone broken =>
      by_cases hhop : (context.run hops events).hops.contains frame.traceId = true
      · -- The chunk is relayed, and no stream of this session has its trace.
        have hnone : ∀ trace, (context.run hops events).incoming.get trace ≠ none →
            chunksOf trace [.chunk frame gone broken] = [] := by
          intro trace hsome
          apply chunksOf_singleton
          by_cases htrace : frame.traceId = trace
          · obtain ⟨entry, hentry⟩ := Option.ne_none_iff_exists'.mp hsome
            have hfree := (hok entry (htrace ▸ hentry)).1
            rw [hhop] at hfree
            exact nomatch hfree
          · simp [ReadEvent.chunkOf, htrace]
        simp only [hhop, if_true]
        split <;> exact h.same rfl rfl rfl rfl hnone
      · simp only [hhop, Bool.false_eq_true, if_false, ReadState.forwardChunk]
        have hothers : ∀ other, other ≠ frame.traceId →
            chunksOf other [.chunk frame gone broken] = [] := by
          intro other hother
          apply chunksOf_singleton
          simp [ReadEvent.chunkOf, Ne.symm hother]
        cases hentry : (context.run hops events).incoming.get frame.traceId with
        | none =>
          apply h.same rfl rfl rfl rfl
          intro trace hsome
          apply hothers
          rintro rfl
          exact hsome hentry
        | some entry =>
          dsimp only
          split
          · exact h.stop _
          · rename_i hnext
            split
            · exact h.close hentry hothers (Or.inl rfl)
            · exact h.push gone broken hentry (not_not.mp hnext) (hok entry hentry).2
    | «end» frame gone =>
      have hpass : ∀ trace, chunksOf trace [.end frame gone] = [] := fun _ => rfl
      dsimp only
      split
      · exact h.same rfl rfl rfl rfl (fun trace _ => hpass trace)
      · unfold ReadState.endStream
        cases hentry : (context.run hops events).incoming.get frame.traceId with
        | none => exact h.same rfl rfl rfl rfl (fun trace _ => hpass trace)
        | some entry =>
          apply h.close hentry (fun other _ => hpass other)
          by_cases hgone : gone = true
          · exact Or.inl (by simp [hgone])
          · exact Or.inr ⟨frame, gone, rfl, rfl, by simp [hgone]⟩
    | ack frame => exact h.same rfl rfl rfl rfl (fun _ _ => rfl)
    | stop => exact h.stop _
    | hop trace present => exact h.same rfl rfl rfl rfl (fun _ _ => rfl)
  · -- The loop has returned, and no stream is left.
    rw [if_pos (by simp [hrunning])]
    have hempty := h.stopped (by simpa using hrunning)
    apply h.same rfl rfl rfl rfl
    intro trace hsome
    rw [hempty] at hsome
    exact absurd rfl hsome

theorem run_concat (events : List ReadEvent) (event : ReadEvent) :
    context.run hops (events ++ [event]) = context.step (context.run hops events) event := by
  simp [ReadContext.run]

theorem start : ReadLoopInv context hops [] (context.run hops []) := by
  constructor
  · rfl
  · exact Nat.zero_le _
  · exact fun _ => rfl
  · intro trace entry hentry
    exact nomatch hentry
  · intro i consumer hconsumer
    exact nomatch hconsumer

/-- The run lemma. -/
theorem of_run (events : List ReadEvent)
    (hok : ∀ before event after, events = before ++ event :: after →
      Undisturbed context (context.run hops before) event) :
    ReadLoopInv context hops events (context.run hops events) := by
  induction events using List.reverseRecOn with
  | nil => exact start
  | append_singleton events event ih =>
    rw [run_concat]
    apply step
    · exact ih fun before old after heq => hok before old (after ++ [event]) (by simp [heq])
    · exact hok events event [] rfl

end ReadLoopInv

/-! ## The consumers of a run -/

/-- What a consumer was spawned for. -/
def ReadState.packets (state : ReadState) : List (TraceId × OpeningContext) :=
  state.consumers.map fun consumer => (consumer.trace, consumer.opening)

theorem packets_stop (state : ReadState) : state.stop.packets = state.packets := by
  simp [ReadState.packets, ReadState.stop]

/-- Changing a consumer's items does not change what it was spawned for. -/
theorem packets_modify {consumers : List PacketConsumer} {f : PacketConsumer → PacketConsumer}
    (hf : ∀ consumer, (f consumer).trace = consumer.trace ∧
      (f consumer).opening = consumer.opening) (i : Nat) :
    (consumers.modify i f).map (fun consumer => (consumer.trace, consumer.opening)) =
      consumers.map fun consumer => (consumer.trace, consumer.opening) := by
  induction consumers generalizing i with
  | nil => cases i <;> rfl
  | cons consumer rest ih =>
    cases i with
    | zero => simp [hf]
    | succ i => simp [ih]

theorem packets_forwardChunk (state : ReadState) (frame : ChunkFrame) (gone : Bool) :
    (state.forwardChunk frame gone).packets = state.packets := by
  unfold ReadState.forwardChunk
  split
  · rfl
  · split
    · exact packets_stop state
    · split
      · refine packets_modify ?_ _
        exact fun consumer => ⟨rfl, rfl⟩
      · refine packets_modify ?_ _
        exact fun consumer => ⟨rfl, rfl⟩

theorem packets_endStream (state : ReadState) (frame : EndFrame) (gone : Bool) :
    (state.endStream frame gone).packets = state.packets := by
  unfold ReadState.endStream
  split
  · rfl
  · refine packets_modify ?_ _
    exact fun consumer => ⟨rfl, rfl⟩

theorem packets_acknowledge (state : ReadState) (ack : AckFrame) (queued : Bool) :
    (ReadContext.acknowledge state ack queued).packets = state.packets := by
  unfold ReadContext.acknowledge
  split
  · rfl
  · exact packets_stop state

/-- Consumers are only added. -/
theorem packets_step (context : ReadContext) (state : ReadState) (event : ReadEvent) :
    state.packets <+: (context.step state event).packets := by
  unfold ReadContext.step
  split
  · exact List.prefix_refl _
  · cases event with
    | «open» frame now ackedAt relayed queued =>
      dsimp only
      split
      · unfold forwardOpen
        split <;> exact List.prefix_refl _
      · unfold admitOpen
        split
        · rw [packets_acknowledge]
        · rw [packets_acknowledge]
        · rw [packets_acknowledge, ReadContext.enroll, ReadState.packets, ReadState.packets,
            List.map_append]
          exact List.prefix_append _ _
    | chunk frame gone broken =>
      dsimp only
      split
      · split <;> exact List.prefix_refl _
      · rw [packets_forwardChunk]
    | «end» frame gone =>
      dsimp only
      split
      · exact List.prefix_refl _
      · rw [packets_endStream]
    | ack frame => exact List.prefix_refl _
    | stop =>
      dsimp only
      rw [packets_stop]
    | hop trace present => exact List.prefix_refl _

theorem packets_run (before after : List ReadEvent) :
    (context.run hops before).packets <+: (context.run hops (before ++ after)).packets := by
  induction after using List.reverseRecOn with
  | nil =>
    rw [List.append_nil]
  | append_singleton after event ih =>
    rw [← List.append_assoc, ReadLoopInv.run_concat]
    exact ih.trans (packets_step context _ event)

variable {frame : OpenFrame OpenContent}

/-- An admission has a consumer of its own, at the end of the consumers before it. -/
theorem consumer_of_admission {before after : List ReadEvent} {now ackedAt : UInt64}
    {relayed queued : Bool} (hrunning : (context.run hops before).running = true)
    (hrouted : context.routed frame = false)
    (hadmission : context.admission (context.run hops before) frame = .admitted) :
    ∃ consumer, (context.run hops (before ++ .open frame now ackedAt relayed queued ::
        after)).consumers[(context.run hops before).consumers.length]? = some consumer ∧
      consumer.trace = frame.traceId ∧ consumer.opening = frame.opening := by
  have hstep : (context.run hops (before ++ [.open frame now ackedAt relayed queued])).packets =
      (context.run hops before).packets ++ [(frame.traceId, frame.opening)] := by
    rw [ReadLoopInv.run_concat, ReadContext.step, if_neg (by simp [hrunning])]
    simp only [hrouted, Bool.false_eq_true, if_false, admitOpen, hadmission]
    rw [packets_acknowledge, ReadContext.enroll, ReadState.packets, ReadState.packets,
      List.map_append]
    rfl
  have hlater : (context.run hops (before ++ [.open frame now ackedAt relayed queued])).packets <+:
      (context.run hops (before ++ [.open frame now ackedAt relayed queued] ++ after)).packets :=
    packets_run _ after
  rw [hstep, List.append_assoc, List.singleton_append] at hlater
  obtain ⟨rest, hrest⟩ := hlater
  have hlength : (context.run hops before).packets.length =
      (context.run hops before).consumers.length := List.length_map _
  have hget : (context.run hops (before ++ .open frame now ackedAt relayed queued ::
      after)).packets[(context.run hops before).consumers.length]? =
        some (frame.traceId, frame.opening) := by
    rw [← hrest, ← hlength, List.append_assoc, List.getElem?_append_right (le_refl _)]
    simp
  rw [ReadState.packets, List.getElem?_map, Option.map_eq_some_iff] at hget
  obtain ⟨consumer, hconsumer, hpacket⟩ := hget
  exact ⟨consumer, hconsumer, congrArg Prod.fst hpacket, congrArg Prod.snd hpacket⟩

/-! ## Opens of admitted traces -/

/-- An open of an admitted trace that is not relayed changes no stream: unless the queue for the
    acknowledgement is closed, which ends the session, table and channels stay as they are. -/
theorem step_reopen {state : ReadState} {now ackedAt : UInt64} {relayed queued : Bool}
    (hadmitted : state.incoming.contains frame.traceId = true)
    (hkept : context.routed frame = true → relayed = false) :
    let after := context.step state (.open frame now ackedAt relayed queued)
    after.spawned = state.spawned ∧ after.hops = state.hops ∧
      (queued = true → after.incoming = state.incoming ∧ after.consumers = state.consumers) := by
  unfold ReadContext.step
  dsimp only
  split
  · exact ⟨rfl, rfl, fun _ => ⟨rfl, rfl⟩⟩
  · by_cases hrouted : context.routed frame = true
    · simp [hrouted, forwardOpen, hkept hrouted]
    · have hack : ∀ ack, (ReadContext.acknowledge state ack queued).spawned = state.spawned ∧
          (ReadContext.acknowledge state ack queued).hops = state.hops ∧
          (queued = true →
            (ReadContext.acknowledge state ack queued).incoming = state.incoming ∧
            (ReadContext.acknowledge state ack queued).consumers = state.consumers) := by
        intro ack
        unfold ReadContext.acknowledge
        cases queued with
        | true => exact ⟨rfl, rfl, fun _ => ⟨rfl, rfl⟩⟩
        | false => exact ⟨rfl, rfl, by simp⟩
      simp only [hrouted, Bool.false_eq_true, if_false, admitOpen]
      cases hadmission : context.admission state frame with
      | refused status => exact hack _
      | again admittedAtMillis => exact hack _
      | admitted =>
        have hnone := (ReadLoopInv.admission_admitted hadmission).2.1
        rw [SortedMap.contains, hnone] at hadmitted
        cases hadmitted

/-! ## The result -/

/-- What a session does with the packets it reads. -/
structure ReadsExactly (context : ReadContext) (hops : SortedMap TraceId Unit)
    (events : List ReadEvent) : Prop where
  /-- Each channel has had its consumer spawned, once. -/
  spawnedOnce : (context.run hops events).spawned =
    List.range (context.run hops events).consumers.length
  /-- Each admission has made a channel. -/
  admissions : ∀ before frame now ackedAt relayed queued after,
    events = before ++ .open frame now ackedAt relayed queued :: after →
    (context.run hops before).running = true → context.routed frame = false →
    context.admission (context.run hops before) frame = .admitted →
    ∃ consumer, (context.run hops events).consumers[(context.run hops before).consumers.length]? =
        some consumer ∧ consumer.trace = frame.traceId ∧ consumer.opening = frame.opening
  /-- Each channel comes from an admission, and its body is exact. -/
  bodies : ∀ i consumer, (context.run hops events).consumers[i]? = some consumer →
    ∃ before event later, events = before ++ event :: later ∧
      AdmittedBy context hops before event i consumer ∧ ReceivesExactly later consumer
  /-- An identical open of an admitted trace changes no stream and spawns no consumer. -/
  identical : ∀ frame now ackedAt relayed queued entry consumer,
    (context.run hops events).incoming.get frame.traceId = some entry →
    (context.run hops events).consumers[entry.channel]? = some consumer →
    frame.opening = consumer.opening →
    let after := context.step (context.run hops events) (.open frame now ackedAt relayed queued)
    after.spawned = (context.run hops events).spawned ∧
      after.hops = (context.run hops events).hops ∧
      (queued = true → after.incoming = (context.run hops events).incoming ∧
        after.consumers = (context.run hops events).consumers)
  bounded : (context.run hops events).incoming.toList.length ≤ context.queueMessages

/-- Received bodies are exact in every run whose frames do not meet the forwarder on an admitted
    trace, and then a conflicting open of an admitted trace changes nothing either. -/
theorem received_bodies_exact (context : ReadContext) (hops : SortedMap TraceId Unit)
    (events : List ReadEvent)
    (hok : ∀ before event after, events = before ++ event :: after →
      Undisturbed context (context.run hops before) event) :
    ReadsExactly context hops events ∧
      ∀ before frame now ackedAt relayed queued after,
        events = before ++ .open frame now ackedAt relayed queued :: after →
        (context.run hops before).incoming.contains frame.traceId = true →
        let next := context.run hops (before ++ [.open frame now ackedAt relayed queued])
        next.spawned = (context.run hops before).spawned ∧
          next.hops = (context.run hops before).hops ∧
          (queued = true → next.incoming = (context.run hops before).incoming ∧
            next.consumers = (context.run hops before).consumers) := by
  have hinv := ReadLoopInv.of_run events hok
  refine ⟨⟨hinv.spawned, ?_, ?_, ?_, hinv.bounded⟩, ?_⟩
  · intro before frame now ackedAt relayed queued after heq hrunning hrouted hadmission
    rw [heq]
    exact consumer_of_admission hrunning hrouted hadmission
  · intro i consumer hconsumer
    obtain ⟨before, event, later, heq, hadmitted, hbody⟩ := hinv.bodies i consumer hconsumer
    exact ⟨before, event, later, heq, hadmitted, hbody.exact.receives⟩
  · intro frame now ackedAt relayed queued entry consumer hentry hconsumer hopening
    apply step_reopen
    · rw [SortedMap.contains, hentry]
      rfl
    · -- The stream was admitted for this node, and so is the open of the same context.
      intro hrouted
      obtain ⟨before, event, later, _, hadmitted, _⟩ := hinv.bodies _ consumer hconsumer
      obtain ⟨first, _, _, _, _, _, _, hadmission, _, hfirst⟩ := hadmitted.frame
      have hlocal := (ReadLoopInv.admission_admitted hadmission).1
      have hsame : frame.destination = first.destination :=
        congrArg OpeningContext.destination (hopening.trans hfirst)
      simp [routed, hsame, hlocal] at hrouted
  · intro before frame now ackedAt relayed queued after heq hadmitted
    dsimp only
    rw [ReadLoopInv.run_concat]
    exact step_reopen hadmitted (hok before _ after heq hadmitted)

end Invariant

/-! ## A stream that is relayed away -/

section Samples

private theorem echoProtocol_parses :
    ∃ text, @parseTagFields .hostNames text =
      .ok (Bytes.utf8 "example.org/protocols/echo", 11, 21) :=
  ⟨Bytes.utf8 "example.org/protocols/echo", by decide⟩

private theorem echoProtocol_category :
    @QualifiedTag.category .hostNames (@QualifiedTag.mk .hostNames
      (Bytes.utf8 "example.org/protocols/echo") 11 21 echoProtocol_parses) =
        categoryProtocols := by
  decide

def echoProtocol : @ProtocolTag .hostNames :=
  letI := DnsName.hostNames
  ⟨⟨Bytes.utf8 "example.org/protocols/echo", 11, 21, echoProtocol_parses⟩, echoProtocol_category⟩

def echoFeature : @FeatureTag .hostNames :=
  letI := DnsName.hostNames
  ⟨⟨Bytes.utf8 "example.org/features/echo", 11, 20, Bytes.utf8 "example.org/features/echo",
    by decide⟩, by decide⟩

def echoTrace : TraceId := .ofDigits 0 1
def echoServer : NodeId := .ofDigits 0 1
def echoClient : NodeId := ⟨Bytes.utf8 "node_000000000000000000002", by decide⟩
def echoNeighbor : NodeId := ⟨Bytes.utf8 "node_000000000000000000003", by decide⟩

/-- A session of the server with its client. -/
def echoContext : @ReadContext .hostNames :=
  letI := DnsName.hostNames
  ⟨echoServer, echoClient, [echoFeature],
    fun tag => if tag = echoProtocol then some echoFeature else none, 8⟩

/-- A direct open of the client. -/
def echoOpen : OpenFrame (@OpenContent .hostNames) :=
  letI := DnsName.hostNames
  ⟨echoTrace, echoClient, echoServer, (echoProtocol, .new), none⟩

/-- An open of the same trace for another node. -/
def echoRouted : OpenFrame (@OpenContent .hostNames) :=
  letI := DnsName.hostNames
  ⟨echoTrace, echoClient, echoNeighbor, (echoProtocol, .new), some ⟨echoClient, [], 4⟩⟩

/-- An open, two chunks and their end. -/
def echoStream : List (@ReadEvent .hostNames) :=
  letI := DnsName.hostNames
  [.open echoOpen 5 6 false true, .chunk ⟨echoTrace, 0, [1]⟩ false false,
    .chunk ⟨echoTrace, 1, [2]⟩ false false, .end ⟨echoTrace⟩ false]

/-- The same with an open of the trace for another node after the first chunk, which the forwarder
    relays, and with the end frame sent twice. -/
def divertedStream : List (@ReadEvent .hostNames) :=
  letI := DnsName.hostNames
  [.open echoOpen 5 6 false true, .chunk ⟨echoTrace, 0, [1]⟩ false false,
    .open echoRouted 7 8 true true, .chunk ⟨echoTrace, 1, [2]⟩ false false,
    .end ⟨echoTrace⟩ false, .end ⟨echoTrace⟩ false]

/-- A stream that meets no forwarder is read exactly. -/
theorem echoStream_exact :
    letI := DnsName.hostNames
    ReadsExactly echoContext .empty echoStream ∧
      (echoContext.run .empty echoStream).consumers.map (·.items) =
        [[.chunk [1], .chunk [2], .end]] := by
  let _ := DnsName.hostNames
  -- No hop is there, and the channel has two chunks at most.
  have hfree : ∀ n < 4, (echoContext.run .empty (echoStream.take n)).hops = .empty ∧
      ∀ consumer ∈ (echoContext.run .empty (echoStream.take n)).consumers,
        consumer.items.length < 2 ^ 64 := by
    decide +kernel
  refine ⟨(received_bodies_exact echoContext .empty echoStream ?_).1, by decide +kernel⟩
  intro before event after heq
  have hn : before.length < 4 := by
    have hlength := congrArg List.length heq
    simp only [echoStream, List.length_cons, List.length_nil, List.length_append] at hlength
    omega
  obtain ⟨hhops, hfew⟩ := hfree before.length hn
  have htake : echoStream.take before.length = before := by
    rw [heq, List.take_left]
  rw [htake] at hhops hfew
  have hmem : event ∈ echoStream := by simp [heq]
  cases event with
  | «open» frame now ackedAt relayed queued =>
    intro _ hrouted
    simp only [echoStream, List.mem_cons, ReadEvent.open.injEq, reduceCtorEq, List.not_mem_nil,
      or_false] at hmem
    exact hmem.2.2.2.1
  | chunk frame gone broken =>
    intro entry _
    refine ⟨by rw [hhops]; rfl, fun consumer hconsumer => ?_⟩
    exact hfew consumer (List.mem_of_getElem? hconsumer)
  | «end» frame gone => trivial
  | ack frame => trivial
  | stop => trivial
  | hop trace present => trivial

/-- The body of the client after its trace was relayed away. -/
def divertedConsumer : @PacketConsumer .hostNames :=
  letI := DnsName.hostNames
  ⟨echoTrace, echoOpen.opening, [.chunk [1], .end], true⟩

/-- The chunks before an end frame at place `n`. -/
def chunksBeforeEnd (events : List (@ReadEvent .hostNames)) (n : Nat) : Option (List Bytes) :=
  letI := DnsName.hostNames
  match events[n]? with
  | some (.end _ _) => some ((chunksOf echoTrace (events.take n)).map (·.bytes))
  | _ => none

/-- The second open of the trace is relayed, and the second chunk with it. The end frames close the
    hop and then the body, which is complete after its first chunk. -/
theorem diverted_chunk_lost :
    letI := DnsName.hostNames
    (echoContext.run .empty divertedStream).consumers = [divertedConsumer] ∧
      channelAnswer divertedConsumer.items divertedConsumer.closed 1 = some (.ok none) ∧
      ¬ ReceivesExactly (divertedStream.drop 1) divertedConsumer := by
  refine ⟨by decide +kernel, rfl, fun hexact => ?_⟩
  -- An end frame only comes after both chunks.
  have hlate : ∀ n < 5, chunksBeforeEnd (divertedStream.drop 1) n = none ∨
      chunksBeforeEnd (divertedStream.drop 1) n = some [[1], [2]] := by
    decide +kernel
  let _ := DnsName.hostNames
  obtain ⟨before, frame, gone, after, heq, _, hbody⟩ := hexact.atEnd 1 rfl
  replace hbody : [[1]] = (chunksOf echoTrace before).map (·.bytes) := hbody
  have hlength : before.length < 5 := by
    have hlength := congrArg List.length heq
    simp only [divertedStream, List.drop_succ_cons, List.drop_zero, List.length_cons,
      List.length_nil, List.length_append] at hlength
    omega
  have hchunks : chunksBeforeEnd (divertedStream.drop 1) before.length = some [[1]] := by
    unfold chunksBeforeEnd
    rw [heq, List.getElem?_append_right (le_refl _), List.take_left, hbody]
    simp
  have hlate := hlate before.length hlength
  rw [hchunks] at hlate
  simp at hlate

end Samples

end Radiata
