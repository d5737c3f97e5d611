import Radiata.Native.Forward

/-!
# The hops of a node

The handlers of the sessions interleave at every wait. An Open is let through while there are fewer
hops than the capacity and registers its hop behind a wait, so that other Opens register theirs in
between. A session that ends leaves no hop that it has opened.

## Key results

- `forwarding_bound`: how far the table can grow beyond its capacity
- `no_orphaned_hop`: the hops of a session whose teardown is over
- `frames_in_order`: the frames that a next hop is sent for one trace
-/

namespace Radiata

open ForwardShared (checkOpen)

variable {capacity : Nat}

/-! ## The capacity -/

variable {s : ForwardShared}

/-- An Open is let through while there are fewer hops than the capacity. -/
theorem checkOpen_eq_ok {trace : TraceId} {choice : HopChoice} {downstream : PeerSession}
    (h : checkOpen capacity s trace choice = .ok downstream) :
    s.table.size < capacity ∧ (s.pending downstream).size < maxPendingAdmissions := by
  unfold checkOpen at h
  cases choice with
  | rejected => cases h
  | continues next =>
    simp only at h
    split at h
    · cases h
    rename_i hroom
    cases next with
    | none => cases h
    | some session =>
      simp only at h
      split at h
      · cases h
      split at h
      · cases h
      split at h
      · cases h
      rename_i hpending
      cases h
      exact ⟨Nat.lt_of_not_le hroom, Nat.lt_of_not_le hpending⟩

variable {free : Nat → Prop}

/-- An Open that registers its hop is not on its way any more, and only `queue` lets one on its way. -/
theorem room_of_goes {shared : ForwardShared} {task : ForwardTask} {next : Option ForwardTask}
    (h : task.Goes capacity free s shared next) :
    shared.table.size + next.toList.countP ForwardTask.isQueuing ≤
        s.table.size + [task].countP ForwardTask.isQueuing ∨
      s.table.size < capacity ∧ shared.table = s.table ∧ next.toList.length ≤ 1 := by
  cases h with
  | queue hcheck => exact Or.inr ⟨(checkOpen_eq_ok hcheck).1, rfl, Nat.le_refl 1⟩
  | register hnone =>
    left
    rw [ForwardShared.register, SortedMap.size_insert_of_none _ _ hnone]
    exact Nat.le_refl _
  | chunkFailed | endTaken _ _ | closeTaken _ _ => exact Or.inl (SortedMap.size_erase_le _ _)
  | _ => exact Or.inl (by simp [ForwardTask.isQueuing, ForwardShared.removePending, ForwardShared.relay])

/-- The waits of every session are within their bound. -/
def PendingBounded (s : ForwardShared) : Prop :=
  ∀ session, (s.pending session).size ≤ maxPendingAdmissions

namespace PendingBounded

variable {s : ForwardShared}

theorem removePending (h : PendingBounded s) (session : PeerSession) (trace : TraceId) :
    PendingBounded (s.removePending session trace) := by
  intro other
  simp only [ForwardShared.removePending]
  split
  · exact (SortedMap.size_erase_le _ _).trans (h other)
  · exact h other

theorem insertPending (h : PendingBounded s) {session : PeerSession}
    (hroom : (s.pending session).size < maxPendingAdmissions) (trace : TraceId) (waiter : AckWaiter) :
    PendingBounded (s.insertPending session trace waiter) := by
  intro other
  simp only [ForwardShared.insertPending]
  split
  · rename_i hsame
    rw [hsame]
    cases hget : (s.pending session).get trace with
    | none =>
      rw [SortedMap.size_insert_of_none _ _ hget]
      exact hroom
    | some old =>
      rw [SortedMap.size_insert_of_some _ _ hget]
      exact h session
  · exact h other

theorem drainPending (h : PendingBounded s) (session : PeerSession) :
    PendingBounded (s.drainPending session) := by
  intro other
  simp only [ForwardShared.drainPending]
  split
  · exact Nat.zero_le _
  · exact h other

/-- A move registers a waiter only where there is room. -/
theorem goes {free : Nat → Prop} {shared : ForwardShared} {task : ForwardTask}
    {next : Option ForwardTask} (h : PendingBounded s)
    (hgoes : task.Goes capacity free s shared next) : PendingBounded shared := by
  cases hgoes with
  | queue hcheck => exact h.insertPending (checkOpen_eq_ok hcheck).2 _ _
  | unsent => exact h.removePending _ _
  | conflict _ => exact h.removePending _ _
  | _ => exact h

end PendingBounded

/-- The hops and the Opens on their way exceed the capacity by less than there are Opens on their
    way at a time, and the waits for acknowledgements are bounded. -/
theorem forwarding_bound {sessions : Nat} {s : ForwardNode}
    (h : ((ForwardNode.runs capacity).restrict fun _ t =>
      t.tasks.countP ForwardTask.isQueuing ≤ sessions).Reachable s) :
    s.table.size + s.tasks.countP ForwardTask.isQueuing ≤ capacity + sessions - 1 ∧
      PendingBounded s.toForwardShared := by
  apply TransitionSystem.Reachable.invariant (P := fun s : ForwardNode =>
    s.table.size + s.tasks.countP ForwardTask.isQueuing ≤ capacity + sessions - 1 ∧
      PendingBounded s.toForwardShared) _ _ h
  · intro s hs
    rw [hs]
    exact ⟨Nat.zero_le _, fun session => Nat.zero_le _⟩
  · intro s t _ ih hstep
    obtain ⟨hroom, hpending⟩ := ih
    obtain ⟨hstep, hfew⟩ := hstep
    cases hstep with
    | opens trace _ | reads_chunk _ _ | reads_end _ _ =>
      refine ⟨?_, hpending⟩
      simpa [List.countP_append, ForwardTask.isQueuing] using hroom
    | goes htasks hgoes =>
      refine ⟨?_, hpending.goes hgoes⟩
      rw [htasks, List.countP_append, List.countP_cons] at hroom
      simp only [List.countP_append] at hfew ⊢
      obtain hless | ⟨hcapacity, htable, hone⟩ := room_of_goes hgoes
      · simp only [List.countP_singleton] at hless
        omega
      · rw [htable]
        omega
    | resolves session trace => exact ⟨hroom, hpending.removePending session trace⟩
    | submits trace hless => exact ⟨hroom, hpending.insertPending hless trace .wait⟩
    | retires session => exact ⟨hroom, hpending.drainPending session⟩
    | ends session _ _ =>
      refine ⟨?_, hpending.drainPending session⟩
      have hfilter : (s.tasks.filter fun task => task.session ≠ session).countP
          ForwardTask.isQueuing ≤ s.tasks.countP ForwardTask.isQueuing :=
        List.filter_sublist.countP_le
      have hdraining : [ForwardTask.draining session].countP ForwardTask.isQueuing = 0 := rfl
      simp only [List.countP_append, hdraining]
      exact (Nat.add_le_add_left hfilter _).trans hroom

/-! A node with two upstream sessions -/

def firstUpstream : PeerSession := ⟨0, .ofDigits 0 1⟩
def secondUpstream : PeerSession := ⟨1, .ofDigits 0 2⟩
def nextHop : PeerSession := ⟨2, .ofDigits 0 3⟩
def firstTrace : TraceId := .ofDigits 0 1
def secondTrace : TraceId := .ofDigits 0 2

/-- The first handler goes on. -/
theorem ForwardNode.Step.head {s : ForwardNode} {task : ForwardTask} {after : List ForwardTask}
    {shared : ForwardShared} {next : Option ForwardTask} (htasks : s.tasks = task :: after)
    (hgoes : task.Goes capacity s.Free s.toForwardShared shared next) :
    ForwardNode.Step capacity s
      { s with toForwardShared := shared, tasks := next.toList ++ after } := by
  have htasks' : s.tasks = [] ++ task :: after := htasks
  exact .goes htasks' hgoes

/-- The policy lets an Open through to a session that is alive. -/
theorem ForwardTask.Goes.queue_to {session : PeerSession} {trace : TraceId}
    (downstream : PeerSession)
    (h : checkOpen capacity s trace (.continues (some downstream)) = .ok downstream) :
    ForwardTask.Goes capacity free s (.selecting session trace)
      (s.insertPending downstream trace (.relay session))
      (some (.sendingOpen session trace downstream)) := .queue h

/-- Two Opens that are let through at the last free place both register their hop. -/
theorem last_place_taken_twice :
    ∃ s, ((ForwardNode.runs 1).restrict fun _ t =>
        t.tasks.countP ForwardTask.isQueuing ≤ 2).Reachable s ∧
      s.table.size = 2 ∧ s.tasks = [] ∧
      (s.table.size + s.tasks.countP ForwardTask.isQueuing ≤ 1 + 2 - 1 ∧
        PendingBounded s.toForwardShared) := by
  have hstart := TransitionSystem.Reachable.init (T := (ForwardNode.runs 1).restrict fun _ t =>
    t.tasks.countP ForwardTask.isQueuing ≤ 2) rfl
  have hread := hstart.step
    ⟨@ForwardNode.Step.opens _ _ firstUpstream firstTrace (by decide), by decide⟩
  have hqueuing := hread.step ⟨.head rfl (.queue_to nextHop rfl), by decide⟩
  -- the second Open is let through before the first one has its hop
  have hsecond := hqueuing.step
    ⟨@ForwardNode.Step.opens _ _ secondUpstream secondTrace (by decide), by decide⟩
  have hboth := hsecond.step
    ⟨@ForwardNode.Step.goes _ _ [_] [] _ _ _ rfl (.queue_to nextHop rfl), by decide⟩
  have hsent := hboth.step ⟨.head rfl .sent, by decide⟩
  have hone := hsent.step ⟨.head rfl (.register rfl), by decide⟩
  have hlast := hone.step ⟨.head rfl .sent, by decide⟩
  have htwo := hlast.step ⟨.head rfl (.register rfl), by decide⟩
  exact ⟨_, htwo, rfl, rfl, forwarding_bound htwo⟩

/-! ## Hops of sessions that have ended -/

namespace ForwardTask

/-- The teardown of the session still finds its hop under the trace. -/
def covers (trace : TraceId) : ForwardTask → Prop
  | draining _ => True
  | closing _ candidates => trace ∈ candidates
  | closeLocking _ current _ candidates => trace = current ∨ trace ∈ candidates
  | closeSending _ _ _ candidates => trace ∈ candidates
  | _ => False

end ForwardTask

/-- A session that has ended is in its teardown or has nothing to do, and the others read. Its hops
    are before it in the teardown. -/
structure HopsCovered (s : ForwardNode) : Prop where
  readers : ∀ task ∈ s.tasks, task.isTeardown = true ↔ task.session ∈ s.ended
  peers : ∀ trace hop, s.table.get trace = some hop → hop.upstreamPeer = hop.upstream.peer
  covered : ∀ trace hop, s.table.get trace = some hop → hop.upstream ∈ s.ended →
    ∃ task ∈ s.tasks, task.session = hop.upstream ∧ task.covers trace

section Goes

variable {free : Nat → Prop} {s shared : ForwardShared} {task : ForwardTask}
  {next : Option ForwardTask}

/-- A handler stays the handler of its session. -/
theorem session_of_goes (h : task.Goes capacity free s shared next) :
    ∀ after ∈ next, after.session = task.session ∧ after.isTeardown = task.isTeardown := by
  intro after hafter
  cases h <;> cases hafter <;> exact ⟨rfl, rfl⟩

/-- A hop was there before or is registered. -/
theorem table_of_goes (h : task.Goes capacity free s shared next) {trace : TraceId}
    {hop : ForwardingHop} (hget : shared.table.get trace = some hop) :
    s.table.get trace = some hop ∨
      task = .registering hop.upstream trace hop.downstream ∧ hop.upstreamPeer = hop.upstream.peer := by
  have herase : ∀ other, (s.take other).table.get trace = some hop →
      s.table.get trace = some hop := by
    intro other htaken
    by_cases hsame : trace = other
    · rw [hsame, ForwardShared.take, SortedMap.get_erase_self] at htaken
      cases htaken
    · rwa [ForwardShared.take, SortedMap.get_erase_ne _ hsame] at htaken
  cases h with
  | @register session other downstream hnone =>
    by_cases hsame : trace = other
    · rw [hsame, ForwardShared.register, SortedMap.get_insert_self] at hget
      cases hget
      exact Or.inr ⟨by rw [hsame], rfl⟩
    · rw [ForwardShared.register, SortedMap.get_insert_ne _ _ hsame] at hget
      exact Or.inl hget
  | chunkFailed | endTaken _ _ | closeTaken _ _ => exact Or.inl (herase _ hget)
  | _ => exact Or.inl hget

/-- A teardown passes over a trace only if there is no hop under it. -/
theorem covers_of_goes (h : task.Goes capacity free s shared next) {trace : TraceId}
    {hop : ForwardingHop} (hbefore : s.table.get trace = some hop)
    (hget : shared.table.get trace = some hop) (hpeer : hop.upstreamPeer = task.session.peer)
    (hcovers : task.covers trace) : ∃ after ∈ next, after.covers trace := by
  cases h with
  | @list session =>
    refine ⟨_, rfl, ?_⟩
    have hentry : (trace, hop) ∈ s.table.toList := (s.table.mem_toList_iff trace hop).mpr hbefore
    have hfound : hop.upstreamPeer = session.peer := hpeer
    exact List.mem_map.mpr ⟨(trace, hop), List.mem_filter.mpr ⟨hentry, by simp [hfound]⟩, rfl⟩
  | skip hnone =>
    refine ⟨_, rfl, (List.mem_cons.mp hcovers).resolve_left fun hsame => ?_⟩
    rw [hsame, hnone] at hbefore
    cases hbefore
  | close _ => exact ⟨_, rfl, List.mem_cons.mp hcovers⟩
  | closed => cases hcovers
  | closeGone _ hnone =>
    refine ⟨_, rfl, hcovers.resolve_left fun hsame => ?_⟩
    rw [hsame, hnone] at hbefore
    cases hbefore
  | closeTaken _ _ =>
    refine ⟨_, rfl, hcovers.resolve_left fun hsame => ?_⟩
    rw [hsame, ForwardShared.take, SortedMap.get_erase_self] at hget
    cases hget
  | closeSent => exact ⟨_, rfl, hcovers⟩
  | closeUnsent => exact ⟨_, rfl, hcovers⟩
  | _ => exact absurd hcovers id

end Goes

namespace HopsCovered

variable {s t : ForwardNode}

theorem start : HopsCovered .start where
  readers := by
    intro task htask
    cases htask
  peers := by
    intro trace hop hget
    cases hget
  covered := by
    intro trace hop hget
    cases hget

/-- Where a session starts to handle a frame. -/
theorem reads (h : HopsCovered s) {task : ForwardTask} (hreads : s.Reads task.session)
    (hreader : task.isTeardown = false) : HopsCovered { s with tasks := s.tasks ++ [task] } where
  readers := by
    intro other hother
    obtain hother | hother := List.mem_append.mp hother
    · exact h.readers other hother
    · rw [List.mem_singleton.mp hother, hreader]
      simp [hreads.1]
  peers := h.peers
  covered := by
    intro trace hop hget hended
    obtain ⟨other, hother, hcovers⟩ := h.covered trace hop hget hended
    exact ⟨other, List.mem_append_left [task] hother, hcovers⟩

/-- A move keeps every hop covered. -/
theorem goes (h : HopsCovered s) {before after : List ForwardTask} {task : ForwardTask}
    {shared : ForwardShared} {next : Option ForwardTask} (htasks : s.tasks = before ++ task :: after)
    (hgoes : task.Goes capacity s.Free s.toForwardShared shared next) :
    HopsCovered
      { s with toForwardShared := shared, tasks := before ++ next.toList ++ after } where
  readers := by
    intro other hother
    simp only [List.mem_append, Option.mem_toList] at hother
    obtain (hother | hother) | hother := hother
    · exact h.readers other (by simp [htasks, hother])
    · obtain ⟨hsession, hteardown⟩ := session_of_goes hgoes other hother
      rw [hsession, hteardown]
      exact h.readers task (by simp [htasks])
    · exact h.readers other (by simp [htasks, hother])
  peers := by
    intro trace hop hget
    obtain hold | ⟨-, hpeer⟩ := table_of_goes hgoes hget
    · exact h.peers trace hop hold
    · exact hpeer
  covered := by
    intro trace hop hget hended
    obtain hold | ⟨htask, -⟩ := table_of_goes hgoes hget
    · obtain ⟨other, hother, hsession, hcovers⟩ := h.covered trace hop hold hended
      rw [htasks] at hother
      simp only [List.mem_append, List.mem_cons] at hother
      obtain hother | rfl | hother := hother
      · exact ⟨other, by simp [hother], hsession, hcovers⟩
      · obtain ⟨later, hlater, hcovers⟩ := covers_of_goes hgoes hold hget
          (by rw [hsession]; exact h.peers trace hop hold) hcovers
        refine ⟨later, by simp [Option.mem_def.mp hlater], ?_, hcovers⟩
        rw [(session_of_goes hgoes later hlater).1, hsession]
      · exact ⟨other, by simp [hother], hsession, hcovers⟩
    · -- a handler that registers its hop is not one of a session that has ended
      have hreader := (h.readers task (by simp [htasks])).mpr (by rw [htask]; exact hended)
      rw [htask] at hreader
      cases hreader

/-- The end of a session leaves its hops to its teardown. -/
theorem ends (h : HopsCovered s) (session : PeerSession) :
    HopsCovered
      { s with
        toForwardShared := s.drainPending session
        tasks := (s.tasks.filter fun task => task.session ≠ session) ++ [.draining session]
        ended := session :: s.ended } where
  readers := by
    intro task htask
    simp only [List.mem_append, List.mem_filter, List.mem_singleton, decide_eq_true_eq] at htask
    obtain ⟨hmem, hother⟩ | rfl := htask
    · rw [h.readers task hmem, List.mem_cons, or_iff_right hother]
    · exact iff_of_true rfl (List.mem_cons_self ..)
  peers := h.peers
  covered := by
    intro trace hop hget hended
    by_cases hsame : hop.upstream = session
    · exact ⟨.draining session, by simp, hsame.symm, trivial⟩
    · obtain ⟨task, htask, hsession, hcovers⟩ :=
        h.covered trace hop hget ((List.mem_cons.mp hended).resolve_left hsame)
      refine ⟨task, List.mem_append_left _ (List.mem_filter.mpr ⟨htask, ?_⟩), hsession, hcovers⟩
      rw [hsession]
      simpa using hsame

/-- Every step keeps the hops covered. -/
theorem step (h : HopsCovered s) (hstep : ForwardNode.Step capacity s t) : HopsCovered t := by
  cases hstep with
  | opens trace hreads => exact h.reads hreads rfl
  | reads_chunk hreads _ => exact h.reads hreads rfl
  | reads_end hreads _ => exact h.reads hreads rfl
  | goes htasks hgoes => exact h.goes htasks hgoes
  | resolves _ _ | submits _ _ | retires _ => exact ⟨h.readers, h.peers, h.covered⟩
  | ends session _ _ => exact h.ends session

end HopsCovered

/-- When the teardown of a session is over, no hop that the session has opened is left, whatever
    the other sessions did in between. -/
theorem no_orphaned_hop {s : ForwardNode} (h : (ForwardNode.runs capacity).Reachable s)
    {session : PeerSession} (hended : session ∈ s.ended)
    (hover : ∀ task ∈ s.tasks, task.session ≠ session) (trace : TraceId) (hop : ForwardingHop)
    (hget : s.table.get trace = some hop) : hop.upstream ≠ session := by
  have hcovered : HopsCovered s := by
    apply TransitionSystem.Reachable.invariant (P := HopsCovered) _ _ h
    · intro s hs
      rw [hs]
      exact .start
    · intro s t _ ih hstep
      exact ih.step hstep
  intro hupstream
  obtain ⟨task, htask, hsession, -⟩ := hcovered.covered trace hop hget (by rwa [hupstream])
  exact hover task htask (hsession.trans hupstream)

/-- The first upstream session has opened a hop. -/
def firstHop : ForwardNode :=
  ⟨(ForwardNode.start.insertPending nextHop firstTrace (.relay firstUpstream)).register firstTrace
    firstUpstream nextHop, [], []⟩

theorem reachable_firstHop : (ForwardNode.runs 2).Reachable firstHop := by
  have hstart := TransitionSystem.Reachable.init (T := ForwardNode.runs 2) rfl
  have hread := hstart.step
    (@ForwardNode.Step.opens _ _ firstUpstream firstTrace (by decide))
  have hqueuing := hread.step (.head rfl (.queue_to nextHop rfl))
  have hsent := hqueuing.step (.head rfl .sent)
  have hhop := hsent.step (.head rfl (.register rfl))
  exact hhop

/-- The first of two sessions ends and closes its hop; the hop of the other one stays. -/
theorem second_hop_stays :
    ∃ s hop, (ForwardNode.runs 2).Reachable s ∧ s.ended = [firstUpstream] ∧
      s.table.get firstTrace = none ∧ s.table.get secondTrace = some hop ∧
      hop.upstream ≠ firstUpstream := by
  have hhop := reachable_firstHop
  have hother := hhop.step
    (@ForwardNode.Step.opens _ _ secondUpstream secondTrace (by decide))
  have hotherQueuing := hother.step (.head rfl (.queue_to nextHop rfl))
  have hotherSent := hotherQueuing.step (.head rfl .sent)
  have hotherHop := hotherSent.step (.head rfl (.register rfl))
  have hended := hotherHop.step (.ends firstUpstream (by decide) (by decide))
  have hlisted := hended.step (.head rfl .list)
  have hfound := hlisted.step (.head rfl (.close rfl))
  have htaken := hfound.step (.head rfl (.closeTaken (by decide) rfl))
  have hclosed := htaken.step (.head rfl .closeSent)
  have hover := hclosed.step (.head rfl .closed)
  let hop : ForwardingHop := ⟨secondUpstream, nextHop, secondUpstream.peer, 1⟩
  exact ⟨_, hop, hover, rfl, rfl, rfl,
    no_orphaned_hop hover (by decide) (by decide) secondTrace hop rfl⟩

/-! ## The frames of a trace -/

namespace ForwardTask

/-- The hop that the handler found under its trace. -/
def snapshot : ForwardTask → Option (TraceId × ForwardingHop)
  | chunkLocking _ trace hop | chunkSending _ trace hop | endLocking _ trace hop
  | endSending _ trace hop | closeLocking _ trace hop _ | closeSending _ trace hop _ =>
    some (trace, hop)
  | _ => none

/-- The handler has taken the hop of the trace and waits to send its End. -/
def ending : ForwardTask → Option TraceId
  | endSending _ trace _ | closeSending _ trace _ _ => some trace
  | _ => none

theorem snapshot_of_ending {task : ForwardTask} {trace : TraceId} (h : task.ending = some trace) :
    ∃ hop, task.snapshot = some (trace, hop) := by
  cases task with
  | endSending _ _ hop =>
    cases h
    exact ⟨hop, rfl⟩
  | closeSending _ _ hop _ =>
    cases h
    exact ⟨hop, rfl⟩
  | _ => cases h

end ForwardTask

namespace ForwardShared

/-- No second hop was registered for the trace. -/
def Once (s : ForwardShared) (trace : TraceId) : Prop :=
  (s.registered.filter fun entry => entry.1 = trace).length ≤ 1

instance instDecidableOnce (s : ForwardShared) (trace : TraceId) : Decidable (s.Once trace) :=
  inferInstanceAs (Decidable (_ ≤ 1))

/-- The kinds of the frames that were queued for the trace. -/
def framesOf (s : ForwardShared) (trace : TraceId) : List PacketKind :=
  (s.relayed.filter fun frame => frame.trace = trace).map RelayedFrame.kind

variable {s : ForwardShared} {trace other : TraceId}

theorem Once.unique (h : s.Once trace) {hop hop' : ForwardingHop} (hhop : (trace, hop) ∈ s.registered)
    (hhop' : (trace, hop') ∈ s.registered) : hop = hop' := by
  have heq := List.eq_of_mem_of_length_le_one h (List.mem_filter.mpr ⟨hhop, by simp⟩)
    (List.mem_filter.mpr ⟨hhop', by simp⟩)
  exact congrArg Prod.snd heq

/-- A trace that has one hop after a registration had none before. -/
theorem Once.of_register {upstream downstream : PeerSession}
    (h : (s.register trace upstream downstream).Once trace) (hop : ForwardingHop) :
    (trace, hop) ∉ s.registered := by
  intro hmem
  have hpositive : 0 < (s.registered.filter fun entry => entry.1 = trace).length :=
    List.length_pos_of_mem (List.mem_filter.mpr ⟨hmem, by simp⟩)
  simp only [Once, register, List.filter_append, List.length_append] at h
  have hnew : ([(trace, (⟨upstream, downstream, upstream.peer, s.locks⟩ : ForwardingHop))].filter
      fun entry => entry.1 = trace).length = 1 := by simp
  omega

theorem once_register_ne {upstream downstream : PeerSession} (hne : trace ≠ other)
    (h : (s.register other upstream downstream).Once trace) : s.Once trace := by
  simpa [Once, register, List.filter_append, Ne.symm hne] using h

theorem framesOf_relay_self {hop : ForwardingHop} {kind : PacketKind} :
    (s.relay trace hop kind).framesOf trace = s.framesOf trace ++ [kind] := by
  simp [framesOf, relay, List.filter_append]

theorem framesOf_relay_ne {hop : ForwardingHop} {kind : PacketKind} (hne : trace ≠ other) :
    (s.relay other hop kind).framesOf trace = s.framesOf trace := by
  simp [framesOf, relay, List.filter_append, Ne.symm hne]

end ForwardShared

/-- What a handler does between two waits, as far as the hops and their frames go. -/
inductive ForwardTask.Moves (free : Nat → Prop) (s : ForwardShared) :
    ForwardTask → ForwardShared → Option ForwardTask → Prop where
  | quiet {task shared next} : shared.table = s.table → shared.registered = s.registered →
      shared.relayed = s.relayed → (∀ after ∈ next, after.holds = none ∧ after.ending = none ∧
        ∀ trace hop, after.snapshot = some (trace, hop) → s.table.get trace = some hop) →
      Moves free s task shared next
  | register {session trace downstream} : s.table.get trace = none →
      Moves free s (.registering session trace downstream) (s.register trace session downstream) none
  | lock {session trace hop current} : free hop.relayLock → s.table.get trace = some current →
      Moves free s (.chunkLocking session trace hop) s (some (.chunkSending session trace hop))
  | fail {session trace hop} :
      Moves free s (.chunkSending session trace hop) (s.take trace) none
  | take {task trace hop current after} : task.snapshot = some (trace, hop) → free hop.relayLock →
      task.ending = none → s.table.get trace = some current → after.holds = none →
      after.ending = some trace → after.snapshot = some (trace, current) →
      Moves free s task (s.take trace) (some after)
  | chunk {session trace hop} :
      Moves free s (.chunkSending session trace hop) (s.relay trace hop .chunk) none
  | sendEnd {task trace hop next} : task.snapshot = some (trace, hop) → task.ending = some trace →
      (∀ after ∈ next, after.holds = none ∧ after.ending = none ∧ after.snapshot = none) →
      Moves free s task (s.relay trace hop .end) next

/-- What a task does is one of the moves. -/
theorem moves_of_goes {shared : ForwardShared} {task : ForwardTask} {next : Option ForwardTask}
    (h : task.Goes capacity free s shared next) :
    task.Moves free s shared next := by
  cases h with
  | register hnone => exact .register hnone
  | chunkLocked hfree hget => exact .lock hfree hget
  | chunkSent => exact .chunk
  | chunkFailed => exact .fail
  | endTaken hfree hget => exact .take rfl hfree rfl hget rfl rfl rfl
  | closeTaken hfree hget => exact .take rfl hfree rfl hget rfl rfl rfl
  | endSent => exact .sendEnd rfl rfl (by simp)
  | closeSent =>
    refine .sendEnd rfl rfl ?_
    intro after hafter
    cases hafter
    exact ⟨rfl, rfl, rfl⟩
  | close hget =>
    refine .quiet rfl rfl rfl ?_
    intro after hafter
    cases hafter
    refine ⟨rfl, rfl, ?_⟩
    intro trace hop hsnapshot
    cases hsnapshot
    exact hget
  | _ =>
    refine .quiet rfl rfl rfl ?_
    intro after hafter
    cases hafter <;> exact ⟨rfl, rfl, by simp [ForwardTask.snapshot]⟩

/-- What the handlers know was registered, and a lock has one holder. -/
structure HopsTracked (s : ForwardNode) : Prop where
  table : ∀ trace hop, s.table.get trace = some hop → (trace, hop) ∈ s.registered
  snapshots : ∀ task ∈ s.tasks, ∀ trace hop, task.snapshot = some (trace, hop) →
    (trace, hop) ∈ s.registered
  frames : ∀ frame ∈ s.relayed, (frame.trace, frame.hop) ∈ s.registered
  locks : ∀ lock, s.tasks.countP (fun task => task.holds = some lock) ≤ 1

/-- The handlers that have taken the hop of the trace and not sent its End. -/
def enders (s : ForwardNode) (trace : TraceId) : Nat :=
  s.tasks.countP fun task => task.ending = some trace

/-- Some chunks and at most one End behind them: the End is sent by the one handler that has taken
    the hop. -/
def InOrder (frames : List PacketKind) (present : Prop) (enders : Nat) : Prop :=
  ∃ chunks,
    frames = List.replicate chunks .chunk ∧ (present → enders = 0) ∧ enders ≤ 1 ∨
      frames = List.replicate chunks .chunk ++ [.end] ∧ ¬ present ∧ enders = 0

namespace InOrder

variable {frames : List PacketKind} {present : Prop} {enders : Nat}

theorem mono (h : InOrder frames present enders) {fewer : Nat} (hle : fewer ≤ enders) :
    InOrder frames present fewer := by
  obtain ⟨chunks, ⟨hframes, hnone, hone⟩ | ⟨hframes, hgone, hnone⟩⟩ := h
  · exact ⟨chunks, Or.inl ⟨hframes, fun hpresent => by have := hnone hpresent; omega, by omega⟩⟩
  · exact ⟨chunks, Or.inr ⟨hframes, hgone, by omega⟩⟩

/-- While the hop is there, no End was sent and nobody sends one. -/
theorem of_present (h : InOrder frames present enders) (hpresent : present) :
    enders = 0 ∧ ∃ chunks, frames = List.replicate chunks .chunk := by
  obtain ⟨chunks, ⟨hframes, hnone, -⟩ | ⟨-, hgone, -⟩⟩ := h
  · exact ⟨hnone hpresent, chunks, hframes⟩
  · exact absurd hpresent hgone

/-- A chunk is relayed while the hop is there. -/
theorem chunk (h : InOrder frames present enders) (hpresent : present) :
    InOrder (frames ++ [.chunk]) present enders := by
  obtain ⟨hnone, chunks, hframes⟩ := h.of_present hpresent
  refine ⟨chunks + 1, Or.inl ⟨?_, fun _ => hnone, by omega⟩⟩
  rw [hframes, List.replicate_succ']

/-- The hop is taken, and its taker may send the end. -/
theorem take (h : InOrder frames present enders) (hpresent : present) {gone : Prop} (hgone : ¬ gone)
    {few : Nat} (hfew : few ≤ 1) : InOrder frames gone few := by
  obtain ⟨-, chunks, hframes⟩ := h.of_present hpresent
  exact ⟨chunks, Or.inl ⟨hframes, fun h => absurd h hgone, hfew⟩⟩

/-- The taker sends the end. -/
theorem sendEnd (h : InOrder frames present enders) (hender : 1 ≤ enders) :
    InOrder (frames ++ [.end]) present (enders - 1) := by
  obtain ⟨chunks, ⟨hframes, hnone, hone⟩ | ⟨-, -, hnone⟩⟩ := h
  · refine ⟨chunks, Or.inr ⟨by rw [hframes], fun hpresent => ?_, by omega⟩⟩
    have := hnone hpresent
    omega
  · omega

end InOrder

/-- The frames of the trace are in order, and a chunk is relayed while the hop is there. -/
structure FramesOrdered (s : ForwardNode) (trace : TraceId) : Prop where
  sending : ∀ session hop, .chunkSending session trace hop ∈ s.tasks → s.table.get trace = some hop
  order : InOrder (s.framesOf trace) (s.table.get trace ≠ none) (enders s trace)

section Steps

variable {s t : ForwardNode} {gone come : List ForwardTask}

/-- Some handlers are gone, one at most comes, and the others stay where they are. -/
structure ForwardNode.Turn (s t : ForwardNode) (gone come : List ForwardTask) : Prop where
  self : ∀ task ∈ gone, task ∈ s.tasks
  mem : ∀ task ∈ t.tasks, task ∈ come ∨ task ∈ s.tasks
  count : ∀ p, t.tasks.countP p + gone.countP p ≤ s.tasks.countP p + come.countP p
  one : come.length ≤ 1

namespace ForwardNode.Turn

theorem goes {before after : List ForwardTask} {task : ForwardTask} {next : Option ForwardTask}
    (hs : s.tasks = before ++ task :: after) (ht : t.tasks = before ++ next.toList ++ after) :
    s.Turn t [task] next.toList where
  self := by simp [hs]
  mem := by
    intro other hother
    rw [ht] at hother
    simp only [hs, List.mem_append, List.mem_cons] at hother ⊢
    tauto
  count := by
    intro p
    simp only [hs, ht, List.countP_append, List.countP_cons, List.countP_nil]
    omega
  one := by cases next <;> simp

/-- No handler is gone. -/
theorem comes {kept : List ForwardTask} (hkept : kept.Sublist s.tasks)
    (ht : t.tasks = kept ++ come) (hone : come.length ≤ 1) : s.Turn t [] come where
  self := by simp
  mem := by
    intro task htask
    rw [ht] at htask
    exact (List.mem_append.mp htask).symm.imp_right fun h => hkept.subset h
  count := by
    intro p
    rw [ht, List.countP_append, List.countP_nil]
    have := hkept.countP_le (p := p)
    omega
  one := hone

/-- A handler that comes sends no End of the trace. -/
theorem enders_le (h : s.Turn t gone come) (trace : TraceId)
    (hcome : ∀ task ∈ come, task.ending ≠ some trace) :
    enders t trace + gone.countP (fun task => task.ending = some trace) ≤ enders s trace := by
  have hcount := h.count fun task => task.ending = some trace
  have hnone : come.countP (fun task => task.ending = some trace) = 0 := by
    rw [List.countP_eq_zero]
    intro task htask
    simpa using hcome task htask
  rw [hnone] at hcount
  exact hcount

end ForwardNode.Turn

theorem HopsTracked.turn (h : HopsTracked s) (hturn : s.Turn t gone come)
    (hregistered : ∀ entry ∈ s.registered, entry ∈ t.registered)
    (htable : ∀ trace hop, t.table.get trace = some hop → (trace, hop) ∈ t.registered)
    (hframes : ∀ frame ∈ t.relayed, (frame.trace, frame.hop) ∈ t.registered)
    (hcome : ∀ task ∈ come, (∀ lock, task.holds = some lock → s.Free lock) ∧
      ∀ trace hop, task.snapshot = some (trace, hop) → (trace, hop) ∈ t.registered) :
    HopsTracked t := by
  refine ⟨htable, fun task htask trace hop hsnapshot => ?_, hframes, fun lock => ?_⟩
  · obtain hnew | hold := hturn.mem task htask
    · exact (hcome task hnew).2 trace hop hsnapshot
    · exact hregistered _ (h.snapshots task hold trace hop hsnapshot)
  · -- the handler that comes holds a lock that nobody held
    have hcount := hturn.count fun task => task.holds = some lock
    have hbefore := h.locks lock
    by_cases hholds : come.countP (fun task => task.holds = some lock) = 0
    · omega
    · obtain ⟨task, hmem, hlock⟩ := List.countP_pos_iff.mp (Nat.pos_of_ne_zero hholds)
      have hfree : s.tasks.countP (fun task => task.holds = some lock) = 0 := by
        rw [List.countP_eq_zero]
        intro other hother
        simpa using (hcome task hmem).1 lock (of_decide_eq_true hlock) other hother
      have hone := (List.countP_le_length (p := fun task => task.holds = some lock)).trans hturn.one
      omega

variable {trace other : TraceId} {hop : ForwardingHop}

theorem HopsTracked.of_take (h : HopsTracked s) (hget : (s.take other).table.get trace = some hop) :
    (trace, hop) ∈ s.registered := by
  by_cases hsame : trace = other
  · rw [hsame, ForwardShared.take, SortedMap.get_erase_self] at hget
    cases hget
  · rw [ForwardShared.take, SortedMap.get_erase_ne _ hsame] at hget
    exact h.table trace hop hget

theorem HopsTracked.of_relay (h : HopsTracked s) {kind : PacketKind}
    (hknown : (other, hop) ∈ s.registered) :
    ∀ frame ∈ (s.relay other hop kind).relayed, (frame.trace, frame.hop) ∈ s.registered := by
  intro frame hframe
  obtain hframe | hframe := List.mem_append.mp hframe
  · exact h.frames frame hframe
  · rw [List.mem_singleton.mp hframe]
    exact hknown

/-- A trace without a hop so far has no frames and no handler that knows one. -/
theorem HopsTracked.untouched (h : HopsTracked s) (hnone : ∀ hop, (trace, hop) ∉ s.registered) :
    s.framesOf trace = [] ∧ enders s trace = 0 ∧
      ∀ task ∈ s.tasks, ∀ hop, task.snapshot ≠ some (trace, hop) := by
  have hsnapshots : ∀ task ∈ s.tasks, ∀ hop, task.snapshot ≠ some (trace, hop) := by
    intro task htask hop hsnapshot
    exact hnone hop (h.snapshots task htask trace hop hsnapshot)
  refine ⟨?_, ?_, hsnapshots⟩
  · rw [ForwardShared.framesOf, List.map_eq_nil_iff, List.filter_eq_nil_iff]
    intro frame hframe hsame
    have htrace : frame.trace = trace := of_decide_eq_true hsame
    rw [← htrace] at hnone
    exact hnone frame.hop (h.frames frame hframe)
  · rw [enders, List.countP_eq_zero]
    intro task htask hending
    obtain ⟨hop, hsnapshot⟩ := ForwardTask.snapshot_of_ending (of_decide_eq_true hending)
    exact hsnapshots task htask hop hsnapshot

/-! ### The kinds of moves, for one trace -/

/-- The trace is not touched. -/
theorem FramesOrdered.kept (h : FramesOrdered s trace) (hturn : s.Turn t gone come)
    (hframes : t.framesOf trace = s.framesOf trace)
    (htable : t.table.get trace = s.table.get trace)
    (hcome : ∀ task ∈ come, task.ending ≠ some trace ∧
      ∀ session hop, task = .chunkSending session trace hop → s.table.get trace = some hop) :
    FramesOrdered t trace := by
  refine ⟨fun session hop hsending => ?_, ?_⟩
  · rw [htable]
    obtain hnew | hold := hturn.mem _ hsending
    · exact (hcome _ hnew).2 session hop rfl
    · exact h.sending session hop hold
  · have hle := hturn.enders_le trace fun task htask => (hcome task htask).1
    rw [hframes, htable]
    exact h.order.mono (by omega)

/-- The first hop of the trace is registered. -/
theorem FramesOrdered.first (htracked : HopsTracked s) (hturn : s.Turn t gone [])
    (hnone : ∀ hop, (trace, hop) ∉ s.registered) (hframes : t.framesOf trace = s.framesOf trace) :
    FramesOrdered t trace := by
  obtain ⟨hempty, henders, hsnapshots⟩ := htracked.untouched hnone
  refine ⟨fun session hop hsending => ?_, ?_⟩
  · exact absurd rfl (hsnapshots _ ((hturn.mem _ hsending).resolve_left (by simp)) hop)
  · have hle := hturn.enders_le trace (by simp)
    exact ⟨0, Or.inl ⟨hframes.trans hempty, fun _ => by omega, by omega⟩⟩

/-- The hop of the trace is taken, and nobody relays a chunk of it. -/
theorem FramesOrdered.taken (h : FramesOrdered s trace) (hturn : s.Turn t gone come)
    (hframes : t.framesOf trace = s.framesOf trace) (hthere : s.table.get trace = some hop)
    (hgone : t.table.get trace = none)
    (hsending : ∀ session hop, .chunkSending session trace hop ∉ t.tasks) :
    FramesOrdered t trace := by
  have hpresent : s.table.get trace ≠ none := by simp [hthere]
  refine ⟨fun session hop hmem => absurd hmem (hsending session hop), ?_⟩
  rw [hframes]
  refine h.order.take hpresent (by simp [hgone]) ?_
  have hnone := (h.order.of_present hpresent).1
  have hcount := hturn.count fun task => task.ending = some trace
  have hone := (List.countP_le_length (p := fun task => task.ending = some trace)).trans hturn.one
  rw [enders] at hnone ⊢
  omega

/-- Two handlers that relay chunks of the trace would hold one lock. -/
theorem FramesOrdered.sole (h : FramesOrdered s trace) (htracked : HopsTracked s)
    {session : PeerSession} (hturn : s.Turn t [.chunkSending session trace hop] []) :
    ∀ session hop, .chunkSending session trace hop ∉ t.tasks := by
  intro session' hop' hsending
  have hpresent := h.sending session hop (hturn.self _ (List.mem_singleton_self _))
  have hfound := h.sending session' hop' ((hturn.mem _ hsending).resolve_left (by simp))
  obtain rfl : hop = hop' := Option.some.inj (hpresent.symm.trans hfound)
  have hone := htracked.locks hop.relayLock
  have hcount := hturn.count fun task => task.holds = some hop.relayLock
  have hother : 0 < t.tasks.countP fun task => task.holds = some hop.relayLock :=
    List.countP_pos_iff.mpr ⟨_, hsending, decide_eq_true rfl⟩
  have hlock : (ForwardTask.chunkSending session trace hop).holds = some hop.relayLock := rfl
  rw [List.countP_cons, if_pos (decide_eq_true hlock), List.countP_nil] at hcount
  omega

/-- A chunk of the trace is relayed. -/
theorem FramesOrdered.chunked (h : FramesOrdered s trace) (hturn : s.Turn t gone [])
    (hthere : s.table.get trace = some hop) (hframes : t.framesOf trace = s.framesOf trace ++ [.chunk])
    (htable : t.table = s.table) : FramesOrdered t trace := by
  refine ⟨fun session hop hsending => ?_, ?_⟩
  · rw [htable]
    exact h.sending session hop ((hturn.mem _ hsending).resolve_left (by simp))
  · have hle := hturn.enders_le trace (by simp)
    rw [hframes, htable]
    exact (h.order.chunk (by simp [hthere])).mono (by omega)

/-- The End of the trace is sent by the handler that has taken its hop. -/
theorem FramesOrdered.ended (h : FramesOrdered s trace) {task : ForwardTask}
    (hturn : s.Turn t [task] come) (hending : task.ending = some trace)
    (hcome : ∀ task ∈ come, task.holds = none ∧ task.ending = none)
    (hframes : t.framesOf trace = s.framesOf trace ++ [.end]) (htable : t.table = s.table) :
    FramesOrdered t trace := by
  refine ⟨fun session hop hsending => ?_, ?_⟩
  · rw [htable]
    refine h.sending session hop ((hturn.mem _ hsending).resolve_left fun hnew => ?_)
    have hholds := (hcome _ hnew).1
    cases hholds
  · have hle := hturn.enders_le trace (by
      intro later hlater
      rw [(hcome later hlater).2]
      exact nofun)
    rw [List.countP_cons, if_pos (decide_eq_true hending)] at hle
    rw [hframes, htable]
    exact (h.order.sendEnd (by omega)).mono (by omega)

/-- The hops are tracked and the frames of every trace that has had one hop are in order. -/
structure HopsOrdered (s : ForwardNode) : Prop where
  tracked : HopsTracked s
  ordered : ∀ trace, s.Once trace → FramesOrdered s trace

/-- No hop comes or goes and no frame is relayed. -/
theorem HopsOrdered.quiet (h : HopsOrdered s) (hturn : s.Turn t gone come) (ht : t.table = s.table)
    (hregistered : t.registered = s.registered) (hrelayed : t.relayed = s.relayed)
    (hcome : ∀ task ∈ come, task.holds = none ∧ task.ending = none ∧
      ∀ trace hop, task.snapshot = some (trace, hop) → s.table.get trace = some hop) :
    HopsOrdered t := by
  constructor
  · refine h.tracked.turn hturn (by simp [hregistered]) ?_ ?_ fun task htask => ?_
    · rw [ht, hregistered]
      exact h.tracked.table
    · rw [hrelayed, hregistered]
      exact h.tracked.frames
    · rw [(hcome task htask).1, hregistered]
      refine ⟨nofun, fun trace hop hsnapshot => ?_⟩
      exact h.tracked.table trace hop ((hcome task htask).2.2 trace hop hsnapshot)
  · intro trace honce
    rw [ForwardShared.Once, hregistered] at honce
    refine (h.ordered trace honce).kept hturn ?_ (by rw [ht]) fun task htask => ⟨?_, ?_⟩
    · rw [ForwardShared.framesOf, hrelayed, ForwardShared.framesOf]
    · rw [(hcome task htask).2.1]
      exact nofun
    · intro session hop heq
      exact (hcome task htask).2.2 trace hop (by rw [heq]; rfl)

/-- A move keeps the frames in order. -/
theorem HopsOrdered.goes (h : HopsOrdered s) {before after : List ForwardTask} {task : ForwardTask}
    {shared : ForwardShared} {next : Option ForwardTask} (htasks : s.tasks = before ++ task :: after)
    (hmoves : task.Moves s.Free s.toForwardShared shared next) :
    HopsOrdered { s with toForwardShared := shared, tasks := before ++ next.toList ++ after } := by
  obtain ⟨htracked, hordered⟩ := id h
  have hturn := ForwardNode.Turn.goes (s := s)
    (t := { s with toForwardShared := shared, tasks := before ++ next.toList ++ after }) htasks rfl
  have hself := htracked.snapshots _ (hturn.self task (List.mem_singleton_self _))
  cases hmoves with
  | quiet htable hregistered hrelayed hnext =>
    exact h.quiet hturn htable hregistered hrelayed fun later hlater =>
      hnext later (Option.mem_toList.mp hlater)
  | @register session other downstream hnone =>
    have hmono : ∀ entry ∈ s.registered, entry ∈ (s.register other session downstream).registered :=
      fun entry hentry => List.mem_append_left _ hentry
    refine ⟨htracked.turn hturn hmono ?_ (fun frame hframe => hmono _ (htracked.frames frame hframe))
      (by simp), fun trace honce => ?_⟩
    · intro trace hop hget
      by_cases hsame : trace = other
      · rw [hsame, ForwardShared.register, SortedMap.get_insert_self] at hget
        cases hget
        rw [hsame]
        exact List.mem_append_right _ (List.mem_singleton_self _)
      · rw [ForwardShared.register, SortedMap.get_insert_ne _ _ hsame] at hget
        exact hmono _ (htracked.table trace hop hget)
    · by_cases htrace : trace = other
      · rw [← htrace] at honce hturn ⊢
        exact .first htracked hturn honce.of_register rfl
      · refine (hordered trace (ForwardShared.once_register_ne htrace honce)).kept hturn rfl ?_
          (by simp)
        rw [ForwardShared.register, SortedMap.get_insert_ne _ _ htrace]
  | @lock session other hop current hfree hget =>
    refine ⟨htracked.turn hturn (fun _ => id) htracked.table htracked.frames ?_,
      fun trace honce => (hordered trace honce).kept hturn rfl rfl fun later hlater => ?_⟩
    · intro later hlater
      obtain rfl := List.mem_singleton.mp hlater
      refine ⟨fun lock hholds => ?_, hself⟩
      cases hholds
      exact hfree
    · obtain rfl := List.mem_singleton.mp hlater
      refine ⟨nofun, fun session' hop' heq => ?_⟩
      cases heq
      -- the hop that the handler knows is the one in the table
      rw [honce.unique (hself _ hop rfl) (htracked.table _ current hget)]
      exact hget
  | @fail session other hop =>
    refine ⟨htracked.turn hturn (fun _ => id) (fun _ _ => htracked.of_take) htracked.frames (by simp),
      fun trace honce => ?_⟩
    have hold := hordered trace honce
    by_cases htrace : trace = other
    · rw [← htrace] at hturn ⊢
      refine hold.taken hturn rfl (hold.sending session hop (hturn.self _ (List.mem_singleton_self _)))
        ?_ (hold.sole htracked hturn)
      rw [ForwardShared.take, SortedMap.get_erase_self]
    · refine hold.kept hturn rfl ?_ (by simp)
      rw [ForwardShared.take, SortedMap.get_erase_ne _ htrace]
  | @take _ other hop current later hsnapshot hfree hnot hget hholds hending hlater =>
    refine ⟨htracked.turn hturn (fun _ => id) (fun _ _ => htracked.of_take) htracked.frames ?_,
      fun trace honce => ?_⟩
    · intro task htask
      rw [List.mem_singleton.mp htask, hholds]
      refine ⟨nofun, fun trace hop hfound => ?_⟩
      rw [hlater] at hfound
      cases hfound
      exact htracked.table _ _ hget
    · have hold := hordered trace honce
      by_cases htrace : trace = other
      · rw [← htrace] at hsnapshot hget hturn ⊢
        refine hold.taken hturn rfl hget ?_ fun session' hop' hsending => ?_
        · rw [ForwardShared.take, SortedMap.get_erase_self]
        · obtain hnew | hmem := hturn.mem _ hsending
          · rw [← List.mem_singleton.mp hnew] at hholds
            cases hholds
          · -- the lock that the handler has got would be held
            obtain rfl : hop = hop' := honce.unique (hself trace hop hsnapshot)
              (htracked.snapshots _ hmem trace hop' rfl)
            exact absurd rfl (hfree _ hmem)
      · refine hold.kept hturn rfl ?_ fun task htask => ?_
        · rw [ForwardShared.take, SortedMap.get_erase_ne _ htrace]
        · rw [List.mem_singleton.mp htask, hending]
          refine ⟨fun heq => htrace (Option.some.inj heq).symm, fun session' hop' heq => ?_⟩
          rw [heq] at hholds
          cases hholds
  | @chunk session other hop =>
    refine ⟨htracked.turn hturn (fun _ => id) htracked.table
      (htracked.of_relay (hself other hop rfl)) (by simp), fun trace honce => ?_⟩
    have hold := hordered trace honce
    by_cases htrace : trace = other
    · rw [← htrace] at hturn ⊢
      exact hold.chunked hturn (hold.sending session hop (hturn.self _ (List.mem_singleton_self _)))
        ForwardShared.framesOf_relay_self rfl
    · exact hold.kept hturn (ForwardShared.framesOf_relay_ne htrace) rfl (by simp)
  | @sendEnd _ other hop _ hsnapshot hending hnext =>
    replace hnext := fun later (hlater : later ∈ next.toList) =>
      hnext later (Option.mem_toList.mp hlater)
    refine ⟨htracked.turn hturn (fun _ => id) htracked.table
      (htracked.of_relay (hself other hop hsnapshot)) ?_, fun trace honce => ?_⟩
    · intro later hlater
      rw [(hnext later hlater).1, (hnext later hlater).2.2]
      exact ⟨nofun, nofun⟩
    · have hold := hordered trace honce
      by_cases htrace : trace = other
      · rw [← htrace] at hending hturn ⊢
        exact hold.ended hturn hending (fun later hlater => ⟨(hnext later hlater).1,
          (hnext later hlater).2.1⟩) ForwardShared.framesOf_relay_self rfl
      · refine hold.kept hturn (ForwardShared.framesOf_relay_ne htrace) rfl fun later hlater => ?_
        rw [(hnext later hlater).2.1]
        refine ⟨nofun, fun session' hop' heq => ?_⟩
        have hholds := (hnext later hlater).1
        rw [heq] at hholds
        cases hholds

/-- Every step keeps the frames in order. -/
theorem HopsOrdered.step (h : HopsOrdered s) (hstep : ForwardNode.Step capacity s t) :
    HopsOrdered t := by
  -- a session that reads a frame of a hop knows the hop
  have hreads : ∀ {task : ForwardTask}, task.holds = none → task.ending = none →
      (∀ trace hop, task.snapshot = some (trace, hop) → s.table.get trace = some hop) →
      HopsOrdered { s with tasks := s.tasks ++ [task] } := by
    intro task hholds hending hsnapshot
    refine h.quiet (.comes (List.Sublist.refl _) rfl (Nat.le_refl 1)) rfl rfl rfl ?_
    intro later hlater
    rw [List.mem_singleton.mp hlater]
    exact ⟨hholds, hending, hsnapshot⟩
  -- the waits for acknowledgements do not matter
  have hwaits : ∀ {shared : ForwardShared}, shared.table = s.table →
      shared.registered = s.registered → shared.relayed = s.relayed →
      HopsOrdered { s with toForwardShared := shared } := by
    intro shared htable hregistered hrelayed
    exact h.quiet (.comes (List.Sublist.refl _) (List.append_nil _).symm (Nat.zero_le 1)) htable
      hregistered hrelayed (by simp)
  cases hstep with
  | opens trace _ => exact hreads rfl rfl (by simp [ForwardTask.snapshot])
  | reads_chunk _ hget => exact hreads rfl rfl fun _ _ hsnapshot => by cases hsnapshot; exact hget
  | reads_end _ hget => exact hreads rfl rfl fun _ _ hsnapshot => by cases hsnapshot; exact hget
  | goes htasks hgoes => exact h.goes htasks (moves_of_goes hgoes)
  | resolves session trace => exact hwaits rfl rfl rfl
  | submits trace _ => exact hwaits rfl rfl rfl
  | retires session => exact hwaits rfl rfl rfl
  | ends session _ _ =>
    refine h.quiet (.comes List.filter_sublist rfl (Nat.le_refl 1)) rfl rfl rfl ?_
    intro later hlater
    rw [List.mem_singleton.mp hlater]
    exact ⟨rfl, rfl, by simp [ForwardTask.snapshot]⟩

theorem HopsOrdered.start : HopsOrdered .start where
  tracked :=
    { table := by
        intro trace hop hget
        cases hget
      snapshots := by
        intro task htask
        cases htask
      frames := by
        intro frame hframe
        cases hframe
      locks := fun _ => Nat.zero_le _ }
  ordered := by
    intro trace _
    refine ⟨?_, 0, Or.inl ⟨rfl, fun _ => rfl, Nat.zero_le _⟩⟩
    intro session hop hsending
    cases hsending

end Steps

/-- A next hop is sent the chunks of a trace and at most one End, which is the last of its frames:
    no chunk overtakes the End, and a teardown that meets the End of the upstream peer does not send
    a second one. An End is sent when the hop is gone. -/
theorem frames_in_order {s : ForwardNode} (h : (ForwardNode.runs capacity).Reachable s)
    {trace : TraceId} (honce : s.Once trace) :
    ∃ chunks,
      s.framesOf trace = List.replicate chunks .chunk ∨
        s.framesOf trace = List.replicate chunks .chunk ++ [.end] ∧ s.table.get trace = none := by
  have hordered : HopsOrdered s := by
    apply TransitionSystem.Reachable.invariant (P := HopsOrdered) _ _ h
    · intro s hs
      rw [hs]
      exact .start
    · intro s t _ ih hstep
      exact ih.step hstep
  obtain ⟨chunks, ⟨hframes, -, -⟩ | ⟨hframes, hgone, -⟩⟩ := (hordered.ordered trace honce).order
  · exact ⟨chunks, Or.inl hframes⟩
  · exact ⟨chunks, Or.inr ⟨hframes, not_not.mp hgone⟩⟩

/-- The upstream peer sends a chunk and an End on its second session while the session that has
    opened the hop ends: the teardown finds the hop, and finds it gone when it has the lock. -/
theorem single_end_sent :
    ∃ s, (ForwardNode.runs 2).Reachable s ∧ s.tasks = [] ∧
      s.framesOf firstTrace = [.chunk, .end] ∧
      ∃ chunks, s.framesOf firstTrace = List.replicate chunks .chunk ∨
        s.framesOf firstTrace = List.replicate chunks .chunk ++ [.end] ∧
          s.table.get firstTrace = none := by
  have hhop := reachable_firstHop
  have hchunk := hhop.step (@ForwardNode.Step.reads_chunk _ _ secondUpstream firstTrace _
    (by decide) rfl)
  have hlocked := hchunk.step (.head rfl (.chunkLocked (by decide) rfl))
  have hrelayed := hlocked.step (.head rfl .chunkSent)
  have hended := hrelayed.step (.ends firstUpstream (by decide) (by decide))
  have hlisted := hended.step (.head rfl .list)
  have hfound := hlisted.step (.head rfl (.close rfl))
  have hend := hfound.step (@ForwardNode.Step.reads_end _ _ secondUpstream firstTrace _
    (by decide) rfl)
  have htaken := hend.step (@ForwardNode.Step.goes _ _ [_] [] _ _ _ rfl
    (.endTaken (by decide) rfl))
  have hgone := htaken.step (.head rfl (.closeGone (by decide) rfl))
  have hover := hgone.step (.head rfl .closed)
  have hlast := hover.step (.head rfl .endSent)
  exact ⟨_, hlast, rfl, rfl, frames_in_order hlast (by decide)⟩

end Radiata
