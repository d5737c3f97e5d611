import Mathlib.Algebra.Order.BigOperators.Group.List
import Mathlib.Algebra.Order.Ring.Nat
import Radiata.Native.SessionQueue

/-!
# The budget of a session queue

The counters of a session queue are the frames in it, the reservations of the calls that are
between their reservation and their push, and the reservations that were lost with a receiver
or a sender. The reservations keep the channel below its capacity, so a push never waits for a
place, and what is given back was taken before. While nothing is lost the counters are exact.

## Key results

- `QueueSystem.Accounted`: the invariant of every run
- `QueueSystem.NothingLost`: the invariant of the runs that give every reservation back
- `queue_accounting_bounded`: the budget in every state of every run
- `queue_accounting_exact`: the exact budget while nothing is lost
-/

namespace Radiata

namespace SessionQueue

/-- The frames that no `recv` has returned, oldest first. -/
def queued (queue : SessionQueue) : List SessionFrame := queue.receiving.toList ++ queue.channel

/-- The bytes of some frames. -/
def totalSize (frames : List SessionFrame) : Nat := (frames.map SessionFrame.size).sum

@[simp] theorem totalSize_append (frames frames' : List SessionFrame) :
    totalSize (frames ++ frames') = totalSize frames + totalSize frames' := by
  simp [totalSize]

@[simp] theorem totalSize_singleton (frame : SessionFrame) : totalSize [frame] = frame.size := by
  simp [totalSize]

/-- A reservation finds room and counts its frame. -/
theorem reserve_eq_some {limits : QueueLimits} {queue queue' : SessionQueue} {size : Nat} :
    queue.reserve limits size = some queue' ↔ HasRoom limits queue size ∧
      queue' = { queue with count := queue.count + 1, bytes := queue.bytes + size } := by
  unfold reserve
  split
  · rename_i hroom
    simp only [Option.some.injEq, hroom, true_and]
    exact eq_comm
  · rename_i hroom
    simp [hroom]

end SessionQueue

namespace SendCallState

/-- Whether a call was dropped. -/
def isCancelled : SendCallState → Bool
  | finished _ .cancelled => true
  | _ => false

/-- Whether a call has ended with this frame enqueued, as a number. -/
def enqueues (frame : SessionFrame) (call : SendCallState) : Nat :=
  if call = .finished frame .enqueued then 1 else 0

theorem held_of_holds {call : SendCallState} {frame : SessionFrame} (h : call.holds = some frame) :
    call.heldCount = 1 ∧ call.heldBytes = frame.size := by
  rw [heldCount, heldBytes, h]
  exact ⟨rfl, rfl⟩

theorem held_of_holds_none {call : SendCallState} (h : call.holds = none) :
    call.heldCount = 0 ∧ call.heldBytes = 0 := by
  rw [heldCount, heldBytes, h]
  exact ⟨rfl, rfl⟩

end SendCallState

namespace QueueSystem

open SessionQueue SendCallState

/-- The reservations of all calls. -/
def heldCount (s : QueueSystem) : Nat := (s.calls.map SendCallState.heldCount).sum

/-- The reserved bytes of all calls. -/
def heldBytes (s : QueueSystem) : Nat := (s.calls.map SendCallState.heldBytes).sum

/-- The calls that ended with this frame enqueued. -/
def enqueues (s : QueueSystem) (frame : SessionFrame) : Nat :=
  (s.calls.map (SendCallState.enqueues frame)).sum

/-- The invariant of a queue. -/
structure Accounted (limits : QueueLimits) (s : QueueSystem) : Prop where
  count : s.queue.count = s.queue.queued.length + s.heldCount + s.queue.lost.length
  bytes : s.queue.bytes = totalSize s.queue.queued + s.heldBytes + totalSize s.queue.lost
  countBound : s.queue.count ≤ limits.maxCount
  bytesBound : s.queue.bytes ≤ limits.maxBytes
  order : s.queue.received ++ s.queue.queued <+: s.queue.pushed
  current : s.queue.closed = false → s.queue.pushed = s.queue.received ++ s.queue.queued
  drained : s.queue.closed = true → s.queue.channel = []
  accepted : ∀ frame, s.queue.pushed.count frame = s.enqueues frame
  unblocked : ∀ mode frame, .blocked mode frame ∉ s.calls

variable {old : SendCallState}

/-- What replacing a call does to the sums over the calls. -/
theorem sums_setCall {s : QueueSystem} {i : Nat} (h : s.calls[i]? = some old)
    (new : SendCallState) :
    (s.setCall i new).heldCount + old.heldCount = s.heldCount + new.heldCount ∧
      (s.setCall i new).heldBytes + old.heldBytes = s.heldBytes + new.heldBytes ∧
      ∀ frame, (s.setCall i new).enqueues frame + old.enqueues frame =
        s.enqueues frame + new.enqueues frame :=
  ⟨List.sum_map_set h _ new, List.sum_map_set h _ new, fun _ => List.sum_map_set h _ new⟩

/-- A call holds no more than all calls do. -/
theorem held_le {s : QueueSystem} {call : SendCallState} (h : call ∈ s.calls) :
    call.heldCount ≤ s.heldCount ∧ call.heldBytes ≤ s.heldBytes :=
  ⟨List.single_le_sum (fun _ _ => Nat.zero_le _) _ (List.mem_map_of_mem h),
    List.single_le_sum (fun _ _ => Nat.zero_le _) _ (List.mem_map_of_mem h)⟩

/-- A call that holds a reservation finds a free place in the channel. -/
theorem Accounted.channel_lt {limits : QueueLimits} {s : QueueSystem} (h : Accounted limits s)
    {call : SendCallState} {frame : SessionFrame} (hcall : call ∈ s.calls)
    (hholds : call.holds = some frame) : s.queue.channel.length < limits.maxCount := by
  have hcount := h.count
  have hbound := h.countBound
  have hheld := (held_le hcall).1
  rw [(held_of_holds hholds).1] at hheld
  rw [queued, List.length_append] at hcount
  omega

variable {limits : QueueLimits} {s t : QueueSystem} {i : Nat} {frame : SessionFrame}

variable {new : SendCallState}

/-- No call is blocked after a step that sets one that is not. -/
theorem Accounted.unblocked_setCall (h : Accounted limits s)
    (hfree : ∀ mode frame, new ≠ .blocked mode frame) (mode : SendMode) (frame : SessionFrame) :
    .blocked mode frame ∉ (s.setCall i new).calls := by
  intro hmem
  rcases List.mem_or_eq_of_mem_set hmem with hold | heq
  · exact h.unblocked mode frame hold
  · exact hfree mode frame heq.symm

/-- A call that neither was nor is enqueued leaves the enqueued frames as they are. -/
theorem Accounted.accepted_setCall (h : Accounted limits s) (hget : s.calls[i]? = some old)
    (hold : ∀ frame, old ≠ .finished frame .enqueued)
    (hnew : ∀ frame, new ≠ .finished frame .enqueued) (other : SessionFrame) :
    s.queue.pushed.count other = (s.setCall i new).enqueues other := by
  obtain ⟨-, -, henqueues⟩ := sums_setCall hget new
  have hother := henqueues other
  rw [SendCallState.enqueues, if_neg (hold other), SendCallState.enqueues,
    if_neg (hnew other)] at hother
  exact (h.accepted other).trans hother.symm

/-- A call that goes on without touching the queue keeps the invariant if it holds what it
    held. -/
theorem Accounted.setCall (h : Accounted limits s) (hget : s.calls[i]? = some old)
    (hholds : new.holds = old.holds) (hold : ∀ frame, old ≠ .finished frame .enqueued)
    (hnew : ∀ frame, new ≠ .finished frame .enqueued)
    (hfree : ∀ mode frame, new ≠ .blocked mode frame) : Accounted limits (s.setCall i new) := by
  obtain ⟨hcount, hbytes, -⟩ := sums_setCall hget new
  have hheld : new.heldCount = old.heldCount ∧ new.heldBytes = old.heldBytes := by
    simp only [SendCallState.heldCount, SendCallState.heldBytes, hholds, and_self]
  refine ⟨?_, ?_, h.countBound, h.bytesBound, h.order, h.current, h.drained,
    h.accepted_setCall hget hold hnew, h.unblocked_setCall hfree⟩
  · show s.queue.count = s.queue.queued.length + (s.setCall i new).heldCount + s.queue.lost.length
    have := h.count
    omega
  · show s.queue.bytes = totalSize s.queue.queued + (s.setCall i new).heldBytes +
      totalSize s.queue.lost
    have := h.bytes
    omega

/-- A new call holds nothing yet. -/
theorem Accounted.call (h : Accounted limits s) (mode : SendMode) (frame : SessionFrame) :
    Accounted limits { s with calls := s.calls ++ [.start mode frame] } := by
  refine ⟨?_, ?_, h.countBound, h.bytesBound, h.order, h.current, h.drained, ?_, ?_⟩
  · simpa [heldCount, SendCallState.heldCount, SendCallState.holds] using h.count
  · simpa [heldBytes, SendCallState.heldBytes, SendCallState.holds] using h.bytes
  · intro other
    simpa [enqueues, SendCallState.enqueues] using h.accepted other
  · simpa using h.unblocked

/-- A reservation goes from the room of the queue to the call. -/
theorem Accounted.reserve (h : Accounted limits s) {mode : SendMode}
    (hget : s.calls[i]? = some (.start mode frame)) (hroom : s.queue.HasRoom limits frame.size) :
    Accounted limits { s.setCall i (.reserved mode frame) with
      queue := { s.queue with count := s.queue.count + 1, bytes := s.queue.bytes + frame.size } } := by
  obtain ⟨hheld, hheldBytes, -⟩ := sums_setCall hget (.reserved mode frame)
  obtain ⟨hone, hsize⟩ := held_of_holds (show (reserved mode frame).holds = some frame from rfl)
  obtain ⟨hzero, hnothing⟩ := held_of_holds_none (show (start mode frame).holds = none from rfl)
  refine ⟨?_, ?_, hroom.1, hroom.2, h.order, h.current, h.drained,
    h.accepted_setCall hget (by simp) (by simp), h.unblocked_setCall (by simp)⟩
  · have := h.count
    show s.queue.count + 1 = s.queue.queued.length + (s.setCall i _).heldCount + s.queue.lost.length
    omega
  · have := h.bytes
    show s.queue.bytes + frame.size = totalSize s.queue.queued + (s.setCall i _).heldBytes +
      totalSize s.queue.lost
    omega

/-- The reservation of a call becomes a frame of the channel. -/
theorem Accounted.push (h : Accounted limits s) (hget : s.calls[i]? = some old)
    (hholds : old.holds = some frame) (hopen : s.queue.closed = false) :
    Accounted limits { s.setCall i (.finished frame .enqueued) with
      queue := s.queue.push frame } := by
  obtain ⟨hheld, hheldBytes, henqueues⟩ := sums_setCall hget (.finished frame .enqueued)
  have hqueued : (s.queue.push frame).queued = s.queue.queued ++ [frame] := by
    simp [queued, SessionQueue.push]
  have hpushed : (s.queue.push frame).pushed =
      s.queue.received ++ (s.queue.push frame).queued := by
    rw [hqueued, ← List.append_assoc, ← h.current hopen]
    rfl
  obtain ⟨hone, hsize⟩ := held_of_holds hholds
  obtain ⟨hzero, hnothing⟩ :=
    held_of_holds_none (show (finished frame .enqueued).holds = none from rfl)
  refine ⟨?_, ?_, h.countBound, h.bytesBound, ?_, fun _ => hpushed, ?_, ?_,
    h.unblocked_setCall (by simp)⟩
  · have := h.count
    show s.queue.count = (s.queue.push frame).queued.length + (s.setCall i _).heldCount +
      s.queue.lost.length
    rw [hqueued, List.length_append, List.length_singleton]
    omega
  · have := h.bytes
    show s.queue.bytes = totalSize (s.queue.push frame).queued + (s.setCall i _).heldBytes +
      totalSize s.queue.lost
    rw [hqueued, totalSize_append, totalSize_singleton]
    omega
  · exact hpushed ▸ List.prefix_rfl
  · intro hclosed
    exact absurd (hopen.symm.trans hclosed) (by decide)
  · -- a call that holds a reservation has not ended before
    intro other
    have hother := henqueues other
    have hdone : old.enqueues other = 0 := by
      cases old <;> first | rfl | cases hholds
    rw [hdone, Nat.add_zero] at hother
    show (s.queue.pushed ++ [frame]).count other = (s.setCall i _).enqueues other
    rw [List.count_append, h.accepted other, hother]
    simp only [SendCallState.enqueues, finished.injEq, and_true, List.count_singleton, beq_iff_eq]

/-- A refused push gives the reservation back. -/
theorem Accounted.release (h : Accounted limits s)
    (hget : s.calls[i]? = some (.releasing frame)) :
    Accounted limits { s.setCall i (.finished frame .shutDown) with
      queue := s.queue.release frame.size } := by
  obtain ⟨hheld, hheldBytes, -⟩ := sums_setCall hget (.finished frame .shutDown)
  obtain ⟨hone, hsize⟩ := held_of_holds (show (releasing frame).holds = some frame from rfl)
  obtain ⟨hzero, hnothing⟩ :=
    held_of_holds_none (show (finished frame .shutDown).holds = none from rfl)
  have hcount := h.count
  have hbytes := h.bytes
  have hcountBound := h.countBound
  have hbytesBound := h.bytesBound
  refine ⟨?_, ?_, ?_, ?_, h.order, h.current, h.drained,
    h.accepted_setCall hget (by simp) (by simp), h.unblocked_setCall (by simp)⟩
  · show s.queue.count - 1 = s.queue.queued.length + (s.setCall i _).heldCount + s.queue.lost.length
    omega
  · show s.queue.bytes - frame.size = totalSize s.queue.queued + (s.setCall i _).heldBytes +
      totalSize s.queue.lost
    omega
  · show s.queue.count - 1 ≤ limits.maxCount
    omega
  · show s.queue.bytes - frame.size ≤ limits.maxBytes
    omega

/-- What a dropped call holds is lost. -/
theorem Accounted.cancel (h : Accounted limits s) {call : SendCallState}
    (hget : s.calls[i]? = some call) (hsuspended : call.suspended = some frame) :
    Accounted limits { s.setCall i (.finished frame .cancelled) with
      queue := s.queue.lose call.holds.toList } := by
  obtain ⟨hheld, hheldBytes, -⟩ := sums_setCall hget (.finished frame .cancelled)
  obtain ⟨hzero, hnothing⟩ :=
    held_of_holds_none (show (finished frame .cancelled).holds = none from rfl)
  have hlost : call.holds.toList.length = call.heldCount ∧
      totalSize call.holds.toList = call.heldBytes := by
    rw [SendCallState.heldCount, SendCallState.heldBytes]
    cases call.holds <;> simp [totalSize]
  refine ⟨?_, ?_, h.countBound, h.bytesBound, h.order, h.current, h.drained,
    h.accepted_setCall hget ?_ (by simp), h.unblocked_setCall (by simp)⟩
  · have := h.count
    show s.queue.count = s.queue.queued.length + (s.setCall i _).heldCount +
      (s.queue.lost ++ call.holds.toList).length
    rw [List.length_append]
    omega
  · have := h.bytes
    show s.queue.bytes = totalSize s.queue.queued + (s.setCall i _).heldBytes +
      totalSize (s.queue.lost ++ call.holds.toList)
    rw [totalSize_append]
    omega
  · intro other heq
    rw [heq] at hsuspended
    cases hsuspended

/-- A popped frame counts as queued until it is accounted for. -/
theorem Accounted.pop (h : Accounted limits s) {rest : List SessionFrame}
    (hopen : s.queue.closed = false) (hreceiving : s.queue.receiving = none)
    (hchannel : s.queue.channel = frame :: rest) :
    Accounted limits { s with
      queue := { s.queue with channel := rest, receiving := some frame } } := by
  have hqueued : s.queue.queued = frame :: rest := by simp [queued, hreceiving, hchannel]
  refine ⟨?_, ?_, h.countBound, h.bytesBound, ?_, ?_, ?_, h.accepted, h.unblocked⟩
  · exact h.count.trans (by rw [hqueued]; rfl)
  · exact h.bytes.trans (by rw [hqueued]; rfl)
  · have horder := h.order
    rw [hqueued] at horder
    exact horder
  · intro _
    exact (h.current hopen).trans (by rw [hqueued]; rfl)
  · intro hclosed
    exact absurd (hopen.symm.trans hclosed) (by decide)

/-- `recv` gives the reservation of its frame back. -/
theorem Accounted.account (h : Accounted limits s) (hreceiving : s.queue.receiving = some frame) :
    Accounted limits { s with queue := { s.queue.release frame.size with
      receiving := none, received := s.queue.received ++ [frame] } } := by
  have hqueued : s.queue.queued = frame :: s.queue.channel := by simp [queued, hreceiving]
  have hcount := h.count
  have hbytes := h.bytes
  have hcountBound := h.countBound
  have hbytesBound := h.bytesBound
  have hmoved : s.queue.received ++ [frame] ++ s.queue.channel =
      s.queue.received ++ s.queue.queued := by
    rw [hqueued, List.append_assoc]
    rfl
  rw [hqueued, List.length_cons] at hcount
  rw [hqueued, ← List.singleton_append, totalSize_append, totalSize_singleton] at hbytes
  refine ⟨?_, ?_, ?_, ?_, ?_, ?_, h.drained, h.accepted, h.unblocked⟩
  · show s.queue.count - 1 = s.queue.channel.length + s.heldCount + s.queue.lost.length
    omega
  · show s.queue.bytes - frame.size = totalSize s.queue.channel + s.heldBytes +
      totalSize s.queue.lost
    omega
  · show s.queue.count - 1 ≤ limits.maxCount
    omega
  · show s.queue.bytes - frame.size ≤ limits.maxBytes
    omega
  · show s.queue.received ++ [frame] ++ s.queue.channel <+: s.queue.pushed
    rw [hmoved]
    exact h.order
  · intro hopen
    show s.queue.pushed = s.queue.received ++ [frame] ++ s.queue.channel
    rw [hmoved]
    exact h.current hopen

/-- What a dropped receiver has not read is lost. -/
theorem Accounted.dropReceiver (h : Accounted limits s) (hreceiving : s.queue.receiving = none) :
    Accounted limits { s with queue := s.queue.dropReceiver } := by
  have hqueued : s.queue.queued = s.queue.channel := by simp [queued, hreceiving]
  have hnone : s.queue.dropReceiver.queued = [] := by
    simp [queued, SessionQueue.dropReceiver, lose, hreceiving]
  have hcount := h.count
  have hbytes := h.bytes
  rw [hqueued] at hcount hbytes
  refine ⟨?_, ?_, h.countBound, h.bytesBound, ?_, ?_, fun _ => rfl, h.accepted, h.unblocked⟩
  · show s.queue.count = s.queue.dropReceiver.queued.length + s.heldCount +
      (s.queue.lost ++ s.queue.channel).length
    rw [hnone, List.length_append]
    simp only [List.length_nil]
    omega
  · show s.queue.bytes = totalSize s.queue.dropReceiver.queued + s.heldBytes +
      totalSize (s.queue.lost ++ s.queue.channel)
    rw [hnone, totalSize_append]
    simp only [totalSize, List.map_nil, List.sum_nil] at hbytes ⊢
    omega
  · show s.queue.received ++ s.queue.dropReceiver.queued <+: s.queue.pushed
    rw [hnone, List.append_nil]
    exact (List.prefix_append _ _).trans h.order
  · intro hopen
    cases hopen

/-- Every step keeps the invariant. -/
theorem Accounted.step (h : Accounted limits s) (hstep : Step limits s t) : Accounted limits t := by
  cases hstep with
  | call mode frame => exact h.call mode frame
  | reserve i mode frame queue hget hreserve =>
    obtain ⟨hroom, rfl⟩ := reserve_eq_some.mp hreserve
    exact h.reserve hget hroom
  -- the steps of a call that touch no counter
  | refuse i mode frame hget _ _ | refuseWaiting i frame hget _ | checkClosed i frame hget _
  | checkOpen i frame hget _ | wake i frame hget =>
    exact h.setCall hget rfl (by simp) (by simp) (by simp)
  | pushClosed i mode frame hget _ =>
    rcases hget with hget | hget <;> exact h.setCall hget rfl (by simp) (by simp) (by simp)
  | pushFull i frame hget _ => exact h.setCall hget rfl (by simp) (by simp) (by simp)
  | push i mode frame hget hopen _ =>
    rcases hget with hget | hget <;> exact h.push hget rfl hopen
  | block i mode frame hget _ _ hfull =>
    -- the reservation of the call is not in the channel, so the channel is not full
    have hplace := h.channel_lt (List.mem_of_getElem? hget) (show _ = some frame from rfl)
    omega
  | release i frame hget => exact h.release hget
  | cancel i call frame hget hsuspended => exact h.cancel hget hsuspended
  | pop frame rest hopen hreceiving hchannel => exact h.pop hopen hreceiving hchannel
  | account frame hreceiving => exact h.account hreceiving
  | dropReceiver hreceiving => exact h.dropReceiver hreceiving

/-- The counters are right in every run. -/
theorem accounted_of_reachable (h : (runs limits).Reachable s) : Accounted limits s := by
  refine h.invariant ?_ fun _ _ _ haccounted hstep => haccounted.step hstep
  rintro s rfl
  exact ⟨rfl, rfl, Nat.zero_le _, Nat.zero_le _, List.prefix_rfl, fun _ => rfl, fun _ => rfl,
    fun _ => rfl, fun _ _ h => absurd h List.not_mem_nil⟩

/-- Nothing is lost, and what was pushed is received or still queued. -/
structure NothingLost (s : QueueSystem) : Prop where
  lost : s.queue.lost = []
  order : s.queue.pushed = s.queue.received ++ s.queue.queued

/-- A step that gives every reservation back loses nothing. -/
theorem NothingLost.step (h : NothingLost s) (haccounted : Accounted limits s)
    (hstep : Step limits s t) (hreturns : ReturnsAll s t) : NothingLost t := by
  cases hstep with
  | reserve i mode frame queue hget hreserve =>
    obtain ⟨-, rfl⟩ := reserve_eq_some.mp hreserve
    exact ⟨h.lost, h.order⟩
  | push i mode frame hget hopen _ =>
    refine ⟨h.lost, ?_⟩
    show s.queue.pushed ++ [frame] = s.queue.received ++ (s.queue.push frame).queued
    simp [h.order, queued, SessionQueue.push]
  | cancel i call frame hget hsuspended =>
    -- the call that is dropped holds nothing
    have hholds : call.holds = none := by
      by_contra hheld
      have hlt : i < s.calls.length := (List.getElem?_eq_some_iff.mp hget).1
      exact hreturns.2 i call frame hget hheld (List.getElem?_set_self hlt)
    refine ⟨?_, h.order⟩
    show s.queue.lost ++ call.holds.toList = []
    rw [hholds, h.lost]
    rfl
  | pop frame rest hopen hreceiving hchannel =>
    refine ⟨h.lost, h.order.trans ?_⟩
    simp [queued, hreceiving, hchannel]
  | account frame hreceiving =>
    refine ⟨h.lost, h.order.trans ?_⟩
    simp [queued, hreceiving, SessionQueue.release]
  | dropReceiver hreceiving =>
    -- the receiver that is dropped has read everything
    have hempty : s.queue.channel = [] := by
      cases hclosed : s.queue.closed with
      | true => exact haccounted.drained hclosed
      | false => exact hreturns.1 hclosed rfl
    refine ⟨?_, h.order.trans ?_⟩
    · show s.queue.lost ++ s.queue.channel = []
      rw [hempty, h.lost]
      rfl
    · simp [queued, SessionQueue.dropReceiver, lose, hempty]
  | _ => exact ⟨h.lost, h.order⟩

/-- Nothing is lost in a run that returns all it holds. -/
theorem nothingLost_of_reachable (h : ((runs limits).restrict ReturnsAll).Reachable s) :
    NothingLost s := by
  have hboth : Accounted limits s ∧ NothingLost s := by
    refine h.invariant (P := fun s => Accounted limits s ∧ NothingLost s) ?_ ?_
    · intro s hinit
      refine ⟨accounted_of_reachable (.init hinit), ?_⟩
      rw [show s = ⟨.empty, []⟩ from hinit]
      exact ⟨rfl, rfl⟩
    · intro s t _ hs hstep
      exact ⟨hs.1.step hstep.1, hs.2.step hs.1 hstep.1 hstep.2⟩
  exact hboth.2

/-- No call is between its reservation and its push. -/
def Settled (s : QueueSystem) : Prop := ∀ call ∈ s.calls, call.holds = none

instance (s : QueueSystem) : Decidable s.Settled :=
  inferInstanceAs (Decidable (∀ call ∈ s.calls, call.holds = none))

theorem held_of_settled (h : s.Settled) : s.heldCount = 0 ∧ s.heldBytes = 0 := by
  constructor
  · refine List.sum_eq_zero fun n hn => ?_
    obtain ⟨call, hcall, rfl⟩ := List.mem_map.mp hn
    exact (held_of_holds_none (h call hcall)).1
  · refine List.sum_eq_zero fun n hn => ?_
    obtain ⟨call, hcall, rfl⟩ := List.mem_map.mp hn
    exact (held_of_holds_none (h call hcall)).2

end QueueSystem

open SessionQueue QueueSystem in
/-- In every run: the counters stay within the budget and cover every reservation that is
    still to be given back, so that no release underflows; while no call is between its
    reservation and its push they are the frames in the queue and those that were lost; a
    reservation finds a free place in the channel; the frames pushed are exactly those of the
    calls that ended with success, and they are received in the order in which they were
    pushed. -/
theorem queue_accounting_bounded (limits : QueueLimits) (s : QueueSystem)
    (h : (QueueSystem.runs limits).Reachable s) :
    s.queue.count ≤ limits.maxCount ∧ s.queue.bytes ≤ limits.maxBytes ∧
    (∀ call ∈ s.calls, ∀ frame, call.holds = some frame →
      1 ≤ s.queue.count ∧ frame.size ≤ s.queue.bytes ∧ s.queue.channel.length < limits.maxCount) ∧
    (∀ frame, s.queue.receiving = some frame → 1 ≤ s.queue.count ∧ frame.size ≤ s.queue.bytes) ∧
    (s.Settled → s.queue.count = s.queue.queued.length + s.queue.lost.length ∧
      s.queue.bytes = totalSize s.queue.queued + totalSize s.queue.lost) ∧
    (∀ mode frame, .blocked mode frame ∉ s.calls) ∧
    (∀ frame, s.queue.pushed.count frame = s.enqueues frame) ∧
    s.queue.received ++ s.queue.queued <+: s.queue.pushed := by
  have haccounted := accounted_of_reachable h
  have hcount := haccounted.count
  have hbytes := haccounted.bytes
  refine ⟨haccounted.countBound, haccounted.bytesBound, ?_, ?_, ?_, haccounted.unblocked,
    haccounted.accepted, haccounted.order⟩
  · intro call hcall frame hholds
    obtain ⟨hheld, hheldBytes⟩ := held_le hcall
    obtain ⟨hone, hsize⟩ := SendCallState.held_of_holds hholds
    exact ⟨by omega, by omega, haccounted.channel_lt hcall hholds⟩
  · intro frame hreceiving
    have hqueued : s.queue.queued = frame :: s.queue.channel := by simp [queued, hreceiving]
    rw [hqueued, List.length_cons] at hcount
    rw [hqueued, ← List.singleton_append, totalSize_append, totalSize_singleton] at hbytes
    exact ⟨by omega, by omega⟩
  · intro hsettled
    obtain ⟨hheld, hheldBytes⟩ := held_of_settled hsettled
    exact ⟨by omega, by omega⟩

open SessionQueue QueueSystem in
/-- In every run that drops no receiver with unread frames and no call that holds a
    reservation, the counters of a queue without such a call are exactly its frames, and every
    frame that was pushed is received or still queued, in the order in which it was pushed. -/
theorem queue_accounting_exact (limits : QueueLimits) (s : QueueSystem)
    (h : ((QueueSystem.runs limits).restrict QueueSystem.ReturnsAll).Reachable s) :
    s.queue.count ≤ limits.maxCount ∧ s.queue.bytes ≤ limits.maxBytes ∧
    (∀ call ∈ s.calls, ∀ frame, call.holds = some frame →
      1 ≤ s.queue.count ∧ frame.size ≤ s.queue.bytes ∧ s.queue.channel.length < limits.maxCount) ∧
    (∀ frame, s.queue.receiving = some frame → 1 ≤ s.queue.count ∧ frame.size ≤ s.queue.bytes) ∧
    (s.Settled → s.queue.count = s.queue.queued.length ∧ s.queue.bytes = totalSize s.queue.queued) ∧
    (∀ mode frame, .blocked mode frame ∉ s.calls) ∧
    (∀ frame, s.queue.pushed.count frame = s.enqueues frame) ∧
    s.queue.pushed = s.queue.received ++ s.queue.queued := by
  obtain ⟨hcount, hbytes, hheld, hreceiving, hsettled, hunblocked, haccepted, -⟩ :=
    queue_accounting_bounded limits s h.of_restrict
  have hlossless := nothingLost_of_reachable h
  refine ⟨hcount, hbytes, hheld, hreceiving, fun hquiet => ?_, hunblocked, haccepted,
    hlossless.order⟩
  obtain ⟨hframes, hsizes⟩ := hsettled hquiet
  rw [hlossless.lost] at hframes hsizes
  exact ⟨hframes, hsizes⟩

/-- The queue of one frame after a chunk of three bytes has been sent. -/
def occupiedQueue : QueueSystem :=
  ⟨SessionQueue.push ⟨1, 19, [], false, none, [], [], []⟩ ⟨.chunk, [1, 2, 3]⟩,
    [.finished ⟨.chunk, [1, 2, 3]⟩ .enqueued]⟩

/-- The queue stays open and no call has been dropped. -/
theorem returnsAll_of_open {s t : QueueSystem} (hopen : t.queue.closed = false)
    (hcalls : ∀ call ∈ t.calls, call.isCancelled = false) : QueueSystem.ReturnsAll s t := by
  refine ⟨fun _ hclosed => absurd (hopen.symm.trans hclosed) (by decide), ?_⟩
  intro i call frame _ _ hcancelled
  have hkept := hcalls _ (List.mem_of_getElem? hcancelled)
  cases hkept

theorem occupiedQueue_reachable :
    ((QueueSystem.runs ⟨1, 64⟩).restrict QueueSystem.ReturnsAll).Reachable occupiedQueue := by
  have hstart : ((QueueSystem.runs ⟨1, 64⟩).restrict QueueSystem.ReturnsAll).Reachable
      ⟨.empty, []⟩ := .init rfl
  have hcalled := hstart.step
    ⟨.call .once ⟨.chunk, [1, 2, 3]⟩, returnsAll_of_open rfl (by decide)⟩
  have hreserved := hcalled.step
    ⟨.reserve 0 _ _ _ rfl rfl, returnsAll_of_open rfl (by decide)⟩
  exact hreserved.step
    ⟨.push 0 .once _ (Or.inl rfl) rfl (by decide), returnsAll_of_open rfl (by decide)⟩

/-- A chunk of three bytes goes into a queue of one frame while a second one waits. -/
theorem queue_accounting_exact_sample :
    ∃ s : QueueSystem,
      ((QueueSystem.runs ⟨1, 64⟩).restrict QueueSystem.ReturnsAll).Reachable s ∧
      s.queue.channel = [⟨.chunk, [1, 2, 3]⟩] ∧
      s.calls = [.finished ⟨.chunk, [1, 2, 3]⟩ .enqueued, .sleeping ⟨.chunk, [4]⟩] ∧
      s.queue.count = 1 ∧ s.queue.bytes = 19 := by
  have hwaiting := occupiedQueue_reachable.step
    ⟨.call .waiting ⟨.chunk, [4]⟩, returnsAll_of_open rfl (by decide)⟩
  have hrefused := hwaiting.step
    ⟨.refuseWaiting 1 _ rfl rfl, returnsAll_of_open rfl (by decide)⟩
  have hsleeping := hrefused.step ⟨.checkOpen 1 _ rfl rfl, returnsAll_of_open rfl (by decide)⟩
  obtain ⟨-, -, -, -, hexact, -⟩ := queue_accounting_exact ⟨1, 64⟩ _ hsleeping
  have hsettled : ∀ call ∈ [SendCallState.finished ⟨.chunk, [1, 2, 3]⟩ .enqueued,
      .sleeping ⟨.chunk, [4]⟩], call.holds = none := by decide
  obtain ⟨hcount, hbytes⟩ := hexact hsettled
  exact ⟨_, hsleeping, rfl, rfl, hcount, hbytes⟩

/-- A receiver is dropped with an unread chunk, or a `send` is dropped at its await: the
    channel is empty and no call holds a reservation, but the counters never go down again. -/
theorem dropped_reservation_kept :
    (∃ s : QueueSystem, (QueueSystem.runs ⟨1, 64⟩).Reachable s ∧ s.Settled ∧
      s.queue.queued = [] ∧ s.queue.closed = true ∧ s.queue.count = 1 ∧ s.queue.bytes = 19) ∧
    ∃ s : QueueSystem, (QueueSystem.runs ⟨1, 64⟩).Reachable s ∧ s.Settled ∧
      s.queue.queued = [] ∧ s.queue.closed = false ∧ s.queue.count = 1 ∧ s.queue.bytes = 19 := by
  refine ⟨?_, ?_⟩
  · have hdropped := occupiedQueue_reachable.of_restrict.step (.dropReceiver rfl)
    exact ⟨_, hdropped, by decide, rfl, rfl, rfl, rfl⟩
  · have hstart : (QueueSystem.runs ⟨1, 64⟩).Reachable ⟨.empty, []⟩ := .init rfl
    have hcalled := hstart.step (.call .once ⟨.chunk, [1, 2, 3]⟩)
    have hreserved := hcalled.step (.reserve 0 _ _ _ rfl rfl)
    have hcancelled := hreserved.step (.cancel 0 _ _ rfl rfl)
    exact ⟨_, hcancelled, by decide, rfl, rfl, rfl, rfl⟩

end Radiata
