import Radiata.Native.Admission

/-!
# Waits that are neither lost nor stolen

The map of a session is keyed by the trace, so what one send does to its entry it does to the
entry of every send of that trace. As long as no two sends of one trace get in each other's way,
every waiting send has its own entry in the map, and leaves it by an acknowledgement of its own
open frame, by its own withdrawal or with the session.

## Key results

- `AdmissionSystem.Undisputed`: a step that meets no other send of its trace
- `AdmissionSystem.Orderly.step`: the invariant of such runs
- `admission_waits_kept`: every wait is resolved once, by what belongs to it
- `wait_overwritten`: two sends of one trace
-/

namespace Radiata

/-- What may resolve the wait of send `i`: its own withdrawal, the end of the session, or the first
    acknowledgement of its open frame. -/
def WaitSignal.Legitimate (acks : List WaitAck) (i : Nat) : WaitSignal → Prop
  | .acknowledged n => ∃ ack, acks[n]? = some ack ∧ ack.answers = some i ∧
      ∀ (m : Nat) other, m < n → acks[m]? = some other → other.answers ≠ some i
  | .withdrawn sender => sender = i
  | .overwritten _ => False
  | .retired => True
  | .tornDown => True

theorem WaitSignal.Legitimate.append {acks : List WaitAck} {i : Nat} {cause : WaitSignal}
    (h : cause.Legitimate acks i) (more : List WaitAck) : cause.Legitimate (acks ++ more) i := by
  cases cause with
  | acknowledged n =>
    obtain ⟨ack, hack, hanswers, hfirst⟩ := h
    have hlt : n < acks.length := (List.getElem?_eq_some_iff.mp hack).1
    refine ⟨ack, by rw [List.getElem?_append_left hlt]; exact hack, hanswers, ?_⟩
    intro m other hm hother
    rw [List.getElem?_append_left (by omega)] at hother
    exact hfirst m other hm hother
  | withdrawn sender => exact h
  | overwritten sender => exact h
  | retired => trivial
  | tornDown => trivial

/-- What holds of a send. -/
structure OutboundSend.Regular (acks : List WaitAck) (i : Nat) (send : OutboundSend) : Prop where
  early : send.phase = .started ∨ send.phase = .checked → send.signals = [] ∧ send.opened = false
  once : send.signals.length ≤ 1
  cause : ∀ cause ∈ send.signals, cause.Legitimate acks i
  kept : send.opened = true → send.phase = .awaiting ∨ send.signals ≠ []

theorem OutboundSend.Regular.append {acks : List WaitAck} {i : Nat} {send : OutboundSend}
    (h : send.Regular acks i) (more : List WaitAck) : send.Regular (acks ++ more) i :=
  ⟨h.early, h.once, fun cause hcause => (h.cause cause hcause).append more, h.kept⟩

/-- A waiting send is told something. -/
theorem OutboundSend.Regular.told {acks : List WaitAck} {i : Nat} {send : OutboundSend}
    (hwaiting : send.Waiting) {cause : WaitSignal} (hcause : cause.Legitimate acks i) :
    OutboundSend.Regular acks i { send with signals := send.signals ++ [cause] } := by
  obtain ⟨hphase, hsignals⟩ := hwaiting
  refine ⟨fun hearly => ?_, ?_, fun other hother => ?_, fun _ => Or.inr (by simp)⟩
  · replace hearly : send.phase = .started ∨ send.phase = .checked := hearly
    rcases hphase with hphase | hphase <;> rw [hphase] at hearly <;> simp at hearly
  · simp [hsignals]
  · simp only [hsignals, List.nil_append, List.mem_singleton] at hother
    rw [hother]
    exact hcause

namespace AdmissionSystem

variable {limit : Nat} {s t : AdmissionSystem} {action : AdmissionAction}

/-- A step that meets no other waiting send of its trace, and no registration after the drain. A
    full map refuses a registration, which then meets nobody. -/
def Undisputed (limit : Nat) (s : AdmissionSystem) : AdmissionAction → Prop
  | .register i => limit ≤ s.pending.toList.length ∨ s.phase ≠ .drained ∧
      ∀ (j : Nat) send other, s.sends[i]? = some send → s.sends[j]? = some other →
        other.Waiting → other.trace ≠ send.trace
  | .withdraw i => ∀ (j : Nat) send other, s.sends[i]? = some send → s.sends[j]? = some other →
      other.Waiting → other.trace = send.trace → j = i
  | .acknowledge => ∀ (j : Nat) ack other, s.acks[s.read]? = some ack → s.sends[j]? = some other →
      other.Waiting → other.trace = ack.trace → ack.answers = some j
  | _ => True

/-- The runs of which every step is undisputed. -/
def undisputedRuns (limit : Nat) : TransitionSystem AdmissionSystem where
  init := (runs limit).init
  next := fun s t => ∃ action, Step limit s action t ∧ Undisputed limit s action

/-- The invariant of these runs. -/
structure Orderly (s : AdmissionSystem) : Prop where
  regular : ∀ (i : Nat) send, s.sends[i]? = some send → send.Regular s.acks i
  /-- The map has the waiting sends and nothing else. -/
  mapped : ∀ trace i, s.pending.get trace = some i ↔
    ∃ send, s.sends[i]? = some send ∧ send.trace = trace ∧ send.Waiting
  asked : ∀ (n : Nat) ack i, s.acks[n]? = some ack → ack.answers = some i →
    ∃ send, s.sends[i]? = some send ∧ send.opened = true ∧ send.trace = ack.trace
  answered : ∀ (n : Nat) ack i, n < s.read → s.acks[n]? = some ack → ack.answers = some i →
    ∃ send, s.sends[i]? = some send ∧ send.signals ≠ []
  emptied : s.phase = .drained → ∀ trace, s.pending.get trace = none
  bounded : s.read ≤ s.acks.length

theorem orderly_init : Orderly init := by
  refine ⟨fun i send hsend => ?_, fun trace i => ?_, fun n ack i hack => ?_, fun n ack i hn => ?_,
    nofun, Nat.le_refl 0⟩
  · simp [init] at hsend
  · simp [init]
  · simp [init] at hack
  · simp [init] at hn

/-- A step that changes the sends one by one: their traces stay, what was opened stays open and what
    was told stays told. -/
theorem Orderly.of_map (h : Orderly s) {g : Nat → OutboundSend → OutboundSend}
    (hget : ∀ j, t.sends[j]? = (s.sends[j]?).map (g j)) (hacks : t.acks = s.acks)
    (hread : t.read = s.read)
    (hg : ∀ j send, s.sends[j]? = some send → (g j send).trace = send.trace ∧
      (send.opened = true → (g j send).opened = true) ∧
      (send.signals ≠ [] → (g j send).signals ≠ []) ∧ (g j send).Regular s.acks j)
    (hmapped : ∀ trace j, t.pending.get trace = some j ↔
      ∃ send, s.sends[j]? = some send ∧ send.trace = trace ∧ (g j send).Waiting)
    (hemptied : t.phase = .drained → ∀ trace, t.pending.get trace = none) : Orderly t := by
  have hforth : ∀ {j : Nat} {send}, s.sends[j]? = some send → t.sends[j]? = some (g j send) := by
    intro j send hsend
    rw [hget, hsend]
    rfl
  refine ⟨fun j new hnew => ?_, fun trace j => ?_, fun n ack j hack hanswers => ?_,
    fun n ack j hn hack hanswers => ?_, hemptied, by rw [hread, hacks]; exact h.bounded⟩
  · rw [hget] at hnew
    obtain ⟨send, hsend, rfl⟩ := Option.map_eq_some_iff.mp hnew
    rw [hacks]
    exact (hg j send hsend).2.2.2
  · rw [hmapped, hget]
    constructor
    · rintro ⟨send, hsend, htrace, hwaiting⟩
      exact ⟨g j send, by rw [hsend]; rfl, (hg j send hsend).1.trans htrace, hwaiting⟩
    · rintro ⟨new, hnew, htrace, hwaiting⟩
      obtain ⟨send, hsend, rfl⟩ := Option.map_eq_some_iff.mp hnew
      exact ⟨send, hsend, (hg j send hsend).1 ▸ htrace, hwaiting⟩
  · rw [hacks] at hack
    obtain ⟨send, hsend, hopened, htrace⟩ := h.asked n ack j hack hanswers
    exact ⟨_, hforth hsend, (hg j send hsend).2.1 hopened, (hg j send hsend).1.trans htrace⟩
  · rw [hacks] at hack
    rw [hread] at hn
    obtain ⟨send, hsend, htold⟩ := h.answered n ack j hn hack hanswers
    exact ⟨_, hforth hsend, (hg j send hsend).2.2.1 htold⟩

/-- A step that changes one send in place and leaves alone who waits. -/
theorem Orderly.of_modify (h : Orderly s) {i : Nat} {f : OutboundSend → OutboundSend}
    (hsends : t.sends = s.sends.modify i f) (hpending : t.pending = s.pending)
    (hacks : t.acks = s.acks) (hread : t.read = s.read) (hphase : t.phase = s.phase)
    (hf : ∀ send, s.sends[i]? = some send → (f send).trace = send.trace ∧
      (f send).signals = send.signals ∧ ((f send).Waiting ↔ send.Waiting) ∧
      (send.opened = true → (f send).opened = true) ∧ (f send).Regular s.acks i) : Orderly t := by
  refine h.of_map (g := fun j send => if i = j then f send else send)
    (fun j => by rw [hsends]; exact List.getElem?_modify ..) hacks hread
    (fun j send hsend => ?_) (fun trace j => ?_) fun hdrained => ?_
  · by_cases hij : i = j
    · subst hij
      obtain ⟨htrace, hsignals, -, hopened, hregular⟩ := hf send hsend
      rw [if_pos rfl]
      exact ⟨htrace, hopened, fun htold => hsignals ▸ htold, hregular⟩
    · rw [if_neg hij]
      exact ⟨rfl, id, id, h.regular j send hsend⟩
  · rw [hpending, h.mapped trace j]
    refine exists_congr fun send => and_congr_right fun hsend => and_congr_right fun _ => ?_
    by_cases hij : i = j
    · subst hij
      rw [if_pos rfl]
      exact (hf send hsend).2.2.1.symm
    · rw [if_neg hij]
  · rw [hpending]
    exact h.emptied (hphase ▸ hdrained)

/-! ## Entries that are taken -/

/-- An entry is taken for a reason that belongs to its send. -/
theorem Orderly.take (h : Orderly s) {trace : TraceId} {cause : WaitSignal}
    (hcause : ∀ i, s.pending.get trace = some i → cause.Legitimate s.acks i) :
    Orderly (s.take trace cause) := by
  unfold AdmissionSystem.take
  cases hentry : s.pending.get trace with
  | none => exact h
  | some i =>
    obtain ⟨send, hsend, htrace, hwaiting⟩ := (h.mapped trace i).mp hentry
    refine h.of_map
      (g := fun j send => if i = j then { send with signals := send.signals ++ [cause] } else send)
      (fun j => List.getElem?_modify ..) rfl rfl (fun j old hold => ?_) (fun other j => ?_)
      fun hdrained other => ?_
    · by_cases hij : i = j
      · subst hij
        obtain rfl : send = old := Option.some.inj (hsend.symm.trans hold)
        rw [if_pos rfl]
        exact ⟨rfl, id, fun _ => by simp, .told hwaiting (hcause i hentry)⟩
      · rw [if_neg hij]
        exact ⟨rfl, id, id, h.regular j old hold⟩
    · show (s.pending.erase trace).get other = some j ↔ _
      rw [SortedMap.get_erase]
      constructor
      · intro herased
        split at herased
        · cases herased
        · rename_i hne
          obtain ⟨old, hold, hsame, hwaits⟩ := (h.mapped other j).mp herased
          refine ⟨old, hold, hsame, ?_⟩
          rw [if_neg]
          · exact hwaits
          · rintro rfl
            obtain rfl : send = old := Option.some.inj (hsend.symm.trans hold)
            exact hne (hsame.symm.trans htrace)
      · rintro ⟨old, hold, hsame, hwaits⟩
        by_cases hij : i = j
        · rw [if_pos hij] at hwaits
          have htold : old.signals ++ [cause] = [] := hwaits.2
          simp at htold
        · rw [if_neg hij] at hwaits
          have hmap := (h.mapped other j).mpr ⟨old, hold, hsame, hwaits⟩
          rw [if_neg, hmap]
          intro heq
          rw [heq, hentry] at hmap
          exact hij (Option.some.inj hmap)
    · have hnone := h.emptied hdrained trace
      rw [hentry] at hnone
      cases hnone

/-- All entries are taken by the end of the session. -/
theorem Orderly.drainAll (h : Orderly s) {cause : WaitSignal}
    (hcause : ∀ i, cause.Legitimate s.acks i) : Orderly (s.drainAll cause) := by
  refine h.of_map (g := fun j send => if s.pending.get send.trace = some j then
      { send with signals := send.signals ++ [cause] } else send)
    (fun j => List.getElem?_mapIdx) rfl rfl (fun j old hold => ?_) (fun trace j => ?_)
    fun _ _ => rfl
  · by_cases hmap : s.pending.get old.trace = some j
    · rw [if_pos hmap]
      obtain ⟨send, hsend, -, hwaiting⟩ := (h.mapped old.trace j).mp hmap
      obtain rfl : old = send := Option.some.inj (hold.symm.trans hsend)
      exact ⟨rfl, id, fun _ => by simp, .told hwaiting (hcause j)⟩
    · rw [if_neg hmap]
      exact ⟨rfl, id, id, h.regular j old hold⟩
  · constructor
    · intro hempty
      cases hempty
    · rintro ⟨old, hold, -, hwaits⟩
      by_cases hmap : s.pending.get old.trace = some j
      · rw [if_pos hmap] at hwaits
        have htold : old.signals ++ [cause] = [] := hwaits.2
        simp at htold
      · rw [if_neg hmap] at hwaits
        exact absurd ((h.mapped old.trace j).mpr ⟨old, hold, rfl, hwaits⟩) hmap

/-! ## Runs -/

/-- The entry under the trace of a registering send is free. -/
theorem Orderly.free (h : Orderly s) {trace : TraceId}
    (hnone : ∀ (j : Nat) other, s.sends[j]? = some other → other.Waiting → other.trace ≠ trace) :
    s.pending.get trace = none := by
  cases hentry : s.pending.get trace with
  | none => rfl
  | some j =>
    obtain ⟨other, hother, htrace, hwaiting⟩ := (h.mapped trace j).mp hentry
    exact absurd htrace (hnone j other hother hwaiting)

theorem Orderly.register (h : Orderly s) {i : Nat} {send : OutboundSend}
    (hsend : s.sends[i]? = some send) (hchecked : send.phase = .checked)
    (hundisputed : s.Undisputed limit (.register i)) : Orderly (s.register limit i send.trace) := by
  have hregular := h.regular i send hsend
  obtain ⟨hsignals, hunopened⟩ := hregular.early (Or.inr hchecked)
  have hunkept : ¬ send.opened = true := by simp [hunopened]
  unfold AdmissionSystem.register
  split
  · refine h.of_modify rfl rfl rfl rfl rfl fun old hold => ?_
    obtain rfl : send = old := Option.some.inj (hsend.symm.trans hold)
    refine ⟨rfl, rfl, ?_, id, by simp, hregular.once, hregular.cause, (absurd · hunkept)⟩
    simp [OutboundSend.Waiting, hchecked]
  · rename_i hroom
    obtain ⟨hphase, hnone⟩ := hundisputed.resolve_left hroom
    have hfree := h.free fun j other => hnone j send other hsend
    have htake : s.take send.trace (.overwritten i) = s := by simp [AdmissionSystem.take, hfree]
    simp only [htake]
    refine h.of_map (g := fun j send => if i = j then { send with phase := .registered } else send)
      (fun j => List.getElem?_modify ..) rfl rfl (fun j old hold => ?_) (fun trace j => ?_)
      fun hdrained => absurd hdrained hphase
    · by_cases hij : i = j
      · subst hij
        obtain rfl : send = old := Option.some.inj (hsend.symm.trans hold)
        rw [if_pos rfl]
        exact ⟨rfl, id, id, by simp, hregular.once, hregular.cause, (absurd · hunkept)⟩
      · rw [if_neg hij]
        exact ⟨rfl, id, id, h.regular j old hold⟩
    · show (s.pending.insert send.trace i).get trace = some j ↔ _
      rw [SortedMap.get_insert]
      by_cases hij : i = j
      · -- The send itself gets the entry of its trace.
        subst hij
        simp only [hsend, if_true, Option.some.injEq, exists_eq_left']
        by_cases htrace : trace = send.trace
        · simp [OutboundSend.Waiting, htrace, hsignals]
        · rw [if_neg htrace, h.mapped trace i]
          simp [hsend, Ne.symm htrace]
      · simp only [if_neg hij]
        by_cases htrace : trace = send.trace
        · rw [if_pos htrace]
          constructor
          · intro heq
            exact absurd (Option.some.inj heq) hij
          · rintro ⟨old, hold, hsame, hwaits⟩
            exact absurd (hsame.trans htrace) (hnone j send old hsend hold hwaits)
        · rw [if_neg htrace, h.mapped trace j]

/-- A send that ends after it was told, or after it withdrew. -/
theorem Orderly.end (h : Orderly s) {i : Nat}
    (hsend : ∀ send, s.sends[i]? = some send → send.signals ≠ []) :
    Orderly (s.setPhase i .ended) := by
  refine h.of_modify rfl rfl rfl rfl rfl fun send hget => ?_
  have htold := hsend send hget
  have hregular := h.regular i send hget
  refine ⟨rfl, rfl, ?_, id, by simp, hregular.once, hregular.cause, fun _ => Or.inr htold⟩
  simp [OutboundSend.Waiting, htold]

/-- The send whose entry is taken has been told. -/
theorem take_signals (h : Orderly s) {i : Nat} {send : OutboundSend} (hsend : s.sends[i]? = some send)
    (hphase : send.phase = .registered ∨ send.phase = .awaiting) (cause : WaitSignal) :
    ∀ after, (s.take send.trace cause).sends[i]? = some after → after.signals ≠ [] := by
  intro after hafter
  unfold AdmissionSystem.take at hafter
  by_cases htold : send.signals = []
  · have hentry := (h.mapped send.trace i).mpr ⟨send, hsend, rfl, hphase, htold⟩
    simp only [hentry] at hafter
    have hget : (s.signal i cause).sends[i]? = some after := hafter
    rw [signal, List.getElem?_modify, hsend] at hget
    simp only [if_true, Option.map_eq_map, Option.map_some, Option.some.injEq] at hget
    rw [← hget]
    simp
  · -- What a send was told it keeps.
    cases hentry : s.pending.get send.trace with
    | none =>
      simp only [hentry] at hafter
      obtain rfl : send = after := Option.some.inj (hsend.symm.trans hafter)
      exact htold
    | some j =>
      simp only [hentry] at hafter
      have hget : (s.signal j cause).sends[i]? = some after := hafter
      rw [signal, List.getElem?_modify, hsend] at hget
      simp only [Option.map_eq_map, Option.map_some, Option.some.injEq] at hget
      rw [← hget]
      split
      · simp
      · exact htold

theorem acks_take (s : AdmissionSystem) (trace : TraceId) (cause : WaitSignal) :
    (s.take trace cause).acks = s.acks ∧ (s.take trace cause).read = s.read := by
  unfold AdmissionSystem.take
  cases s.pending.get trace <;> exact ⟨rfl, rfl⟩

theorem Orderly.acknowledge (h : Orderly s) {ack : WaitAck} (hack : s.acks[s.read]? = some ack)
    (hundisputed : s.Undisputed limit .acknowledge) :
    Orderly { s.take ack.trace (.acknowledged s.read) with read := s.read + 1 } := by
  have hlegitimate : ∀ i, s.pending.get ack.trace = some i →
      (WaitSignal.acknowledged s.read).Legitimate s.acks i := by
    intro i hentry
    obtain ⟨send, hsend, htrace, hwaiting⟩ := (h.mapped ack.trace i).mp hentry
    refine ⟨ack, hack, hundisputed i ack send hack hsend hwaiting htrace, ?_⟩
    -- An earlier acknowledgement would have ended the wait.
    intro m other hm hother hanswers
    obtain ⟨old, hold, htold⟩ := h.answered m other i hm hother hanswers
    obtain rfl : send = old := Option.some.inj (hsend.symm.trans hold)
    exact htold hwaiting.2
  have htake := h.take hlegitimate
  obtain ⟨hacks, hread⟩ := s.acks_take ack.trace (.acknowledged s.read)
  have hlt : s.read < s.acks.length := (List.getElem?_eq_some_iff.mp hack).1
  refine ⟨htake.regular, htake.mapped, htake.asked, fun n other i hn hother hanswers => ?_,
    htake.emptied, by rw [hacks]; exact hlt⟩
  replace hother : (s.take ack.trace (.acknowledged s.read)).acks[n]? = some other := hother
  by_cases hlast : n = s.read
  · subst hlast
    rw [hacks, hack] at hother
    cases hother
    obtain ⟨send, hsend, hopened, htrace⟩ := h.asked s.read ack i hack hanswers
    obtain ⟨after, hafter, -, -⟩ := htake.asked s.read ack i (hacks ▸ hack) hanswers
    refine ⟨after, hafter, ?_⟩
    rcases (h.regular i send hsend).kept hopened with hawaiting | htold
    · exact take_signals h hsend (Or.inr hawaiting) _ after (htrace ▸ hafter)
    · intro hnone
      by_cases hphase : send.phase = .registered ∨ send.phase = .awaiting
      · exact take_signals h hsend hphase _ after (htrace ▸ hafter) hnone
      · -- The entry under the trace is of another send.
        unfold AdmissionSystem.take at hafter
        cases hentry : s.pending.get ack.trace with
        | none =>
          simp only [hentry] at hafter
          obtain rfl : send = after := Option.some.inj (hsend.symm.trans hafter)
          exact htold hnone
        | some j =>
          simp only [hentry] at hafter
          have hget : (s.signal j (.acknowledged s.read)).sends[i]? = some after := hafter
          rw [signal, List.getElem?_modify, hsend] at hget
          simp only [Option.map_eq_map, Option.map_some, Option.some.injEq] at hget
          rw [← hget] at hnone
          split at hnone
          · simp at hnone
          · exact htold hnone
  · have hn' : n < s.read + 1 := hn
    exact htake.answered n other i (by rw [hread]; omega) hother hanswers

/-- The peer sends one more acknowledgement. -/
theorem Orderly.tell (h : Orderly s) {last : WaitAck}
    (hlast : ∀ i, last.answers = some i →
      ∃ send, s.sends[i]? = some send ∧ send.opened = true ∧ send.trace = last.trace) :
    Orderly { s with acks := s.acks ++ [last] } := by
  refine ⟨fun j other hother => (h.regular j other hother).append _, h.mapped,
    fun n ack j hack hanswers => ?_, fun n ack j hn hack hanswers => ?_, h.emptied,
    Nat.le_trans h.bounded (by simp)⟩
  · rw [List.getElem?_append] at hack
    split at hack
    · exact h.asked n ack j hack hanswers
    · obtain rfl := List.mem_singleton.mp (List.mem_of_getElem? hack)
      exact hlast j hanswers
  · -- it is not among those that were read
    rw [List.getElem?_append_left (Nat.lt_of_lt_of_le hn h.bounded)] at hack
    exact h.answered n ack j hn hack hanswers

theorem Orderly.step (h : Orderly s) (hstep : Step limit s action t)
    (hundisputed : s.Undisputed limit action) : Orderly t := by
  cases hstep with
  | call trace =>
    have hget : ∀ (j : Nat) send, (s.sends ++ [⟨trace, .started, false, []⟩])[j]? = some send →
        s.sends[j]? = some send ∨ send = ⟨trace, .started, false, []⟩ := by
      intro j send hsend
      rw [List.getElem?_append] at hsend
      split at hsend
      · exact Or.inl hsend
      · exact Or.inr (List.mem_singleton.mp (List.mem_of_getElem? hsend))
    have hforth : ∀ (j : Nat) send, s.sends[j]? = some send →
        (s.sends ++ [⟨trace, .started, false, []⟩])[j]? = some send := by
      intro j send hsend
      rw [List.getElem?_append_left (List.getElem?_eq_some_iff.mp hsend).1]
      exact hsend
    refine ⟨fun j send hsend => ?_, fun other j => ?_, fun n ack j hack hanswers => ?_,
      fun n ack j hn hack hanswers => ?_, h.emptied, h.bounded⟩
    · rcases hget j send hsend with hold | rfl
      · exact h.regular j send hold
      · exact ⟨by simp, by simp, by simp, by simp⟩
    · rw [show ({ s with sends := s.sends ++ [⟨trace, .started, false, []⟩] } :
        AdmissionSystem).pending.get other = s.pending.get other from rfl, h.mapped other j]
      constructor
      · rintro ⟨send, hsend, hrest⟩
        exact ⟨send, hforth j send hsend, hrest⟩
      · rintro ⟨send, hsend, htrace, hwaiting⟩
        rcases hget j send hsend with hold | rfl
        · exact ⟨send, hold, htrace, hwaiting⟩
        · simp [OutboundSend.Waiting] at hwaiting
    · obtain ⟨send, hsend, hrest⟩ := h.asked n ack j hack hanswers
      exact ⟨send, hforth j send hsend, hrest⟩
    · obtain ⟨send, hsend, hrest⟩ := h.answered n ack j hn hack hanswers
      exact ⟨send, hforth j send hsend, hrest⟩
  | check i send hsend hstarted =>
    refine h.of_modify rfl rfl rfl rfl rfl fun old hold => ?_
    obtain rfl : send = old := Option.some.inj (hsend.symm.trans hold)
    have hregular := h.regular i send hsend
    obtain ⟨hsignals, hunopened⟩ := hregular.early (Or.inl hstarted)
    refine ⟨rfl, rfl, ?_, id, fun _ => ⟨hsignals, hunopened⟩, hregular.once, hregular.cause,
      fun hopened => ?_⟩
    · by_cases halive : s.alive = true <;> simp [OutboundSend.Waiting, hstarted, halive]
    · rw [hunopened] at hopened
      cases hopened
  | register i send hsend hchecked => exact h.register hsend hchecked hundisputed
  | opened i send hsend hregistered =>
    refine h.of_modify rfl rfl rfl rfl rfl fun old hold => ?_
    obtain rfl : send = old := Option.some.inj (hsend.symm.trans hold)
    have hregular := h.regular i send hsend
    refine ⟨rfl, rfl, ?_, fun _ => rfl, by simp, hregular.once, hregular.cause, fun _ => Or.inl rfl⟩
    simp [OutboundSend.Waiting, hregistered]
  | withdraw i send hsend hregistered =>
    have htake : Orderly (s.take send.trace (.withdrawn i)) := h.take fun j hentry => by
      obtain ⟨other, hother, htrace, hwaiting⟩ := (h.mapped send.trace j).mp hentry
      exact (hundisputed j send other hsend hother hwaiting htrace).symm
    exact htake.end (take_signals h hsend (Or.inl hregistered) _)
  | wake i send hsend hawaiting htold =>
    refine h.end fun old hold => ?_
    obtain rfl : send = old := Option.some.inj (hsend.symm.trans hold)
    exact htold
  | answer i send status hsend hopened =>
    exact h.tell fun j hj => ⟨send, Option.some.inj hj ▸ hsend, hopened, rfl⟩
  | unasked trace status => exact h.tell nofun
  | acknowledge ack hrunning hack => exact h.acknowledge hack hundisputed
  | retire =>
    have hdrained : Orderly (s.drainAll .retired) := h.drainAll fun _ => trivial
    exact ⟨hdrained.regular, hdrained.mapped, hdrained.asked, hdrained.answered, hdrained.emptied,
      hdrained.bounded⟩
  | stop hrunning => exact ⟨h.regular, h.mapped, h.asked, h.answered, nofun, h.bounded⟩
  | drain hstopped =>
    have hdrained : Orderly (s.drainAll .tornDown) := h.drainAll fun _ => trivial
    exact ⟨hdrained.regular, hdrained.mapped, hdrained.asked, hdrained.answered, fun _ _ => rfl,
      hdrained.bounded⟩

theorem orderly_of_reachable (h : (undisputedRuns limit).Reachable s) : Orderly s := by
  refine TransitionSystem.Reachable.invariant ?_ ?_ h
  · rintro s rfl
    exact orderly_init
  · rintro s t - hs ⟨action, hstep, hundisputed⟩
    exact hs.step hstep hundisputed

/-- Every wait is kept until it is resolved, is resolved at most once and by what belongs to it, and
    none is left after the drain. -/
structure WaitsKept (s : AdmissionSystem) : Prop where
  kept : ∀ (i : Nat) send, s.sends[i]? = some send → send.Waiting →
    s.pending.get send.trace = some i
  once : ∀ (i : Nat) send, s.sends[i]? = some send → send.signals.length ≤ 1
  cause : ∀ (i : Nat) send, s.sends[i]? = some send →
    ∀ cause ∈ send.signals, cause.Legitimate s.acks i
  /-- A send that has queued its open frame still waits or was told. -/
  resolved : ∀ (i : Nat) send, s.sends[i]? = some send → send.opened = true →
    send.Waiting ∨ send.signals.length = 1
  drained : s.phase = .drained → (∀ trace, s.pending.get trace = none) ∧
    ∀ (i : Nat) send, s.sends[i]? = some send → ¬ send.Waiting

theorem Orderly.waitsKept (h : Orderly s) : WaitsKept s := by
  have hkept : ∀ (i : Nat) send, s.sends[i]? = some send → send.Waiting →
      s.pending.get send.trace = some i := fun i send hsend hwaiting =>
    (h.mapped send.trace i).mpr ⟨send, hsend, rfl, hwaiting⟩
  refine ⟨hkept, fun i send hsend => (h.regular i send hsend).once,
    fun i send hsend => (h.regular i send hsend).cause, fun i send hsend hopened => ?_,
    fun hdrained => ⟨h.emptied hdrained, fun i send hsend hwaiting => ?_⟩⟩
  · have hregular := h.regular i send hsend
    have honce := hregular.once
    by_cases htold : send.signals = []
    · rcases hregular.kept hopened with hawaiting | hsome
      · exact Or.inl ⟨Or.inr hawaiting, htold⟩
      · exact absurd htold hsome
    · have hpos := List.length_pos_iff.mpr htold
      exact Or.inr (by omega)
  · have hentry := hkept i send hsend hwaiting
    rw [h.emptied hdrained] at hentry
    cases hentry

end AdmissionSystem

open AdmissionSystem

/-- As long as no step meets another waiting send of its trace and nothing registers after the
    drain, no wait is lost or stolen. -/
theorem admission_waits_kept (limit : Nat) (s : AdmissionSystem)
    (h : (undisputedRuns limit).Reachable s) : WaitsKept s :=
  (orderly_of_reachable h).waitsKept

/-! ## A consumer that replies twice -/

/-- The trace of a packet and of every reply to it. -/
def replyTrace : TraceId := ⟨Bytes.utf8 "trace_000000000000000000001", by decide⟩

/-- A send has registered and queued its open frame, a second one of its trace meets a full map,
    and the acknowledgement of the first one arrives. -/
theorem single_reply_resolved :
    ∃ s, (undisputedRuns 1).Reachable s ∧ s.read = 1 ∧
      s.sends = [⟨replyTrace, .awaiting, true, [.acknowledged 0]⟩, ⟨replyTrace, .ended, false, []⟩] ∧
      WaitsKept s := by
  have hcalled := (TransitionSystem.Reachable.init (T := undisputedRuns 1) rfl).step
    ⟨_, .call replyTrace, trivial⟩
  have hchecked := hcalled.step ⟨_, .check 0 _ rfl rfl, trivial⟩
  have hregistered := hchecked.step ⟨_, .register 0 _ rfl rfl, by
    refine Or.inr ⟨nofun, fun j send other hsend hother hwaiting => ?_⟩
    match j with
    | 0 =>
      cases hother
      simp [OutboundSend.Waiting, init] at hwaiting
    | j + 1 => cases hother⟩
  have hopened := hregistered.step ⟨_, .opened 0 _ rfl rfl, trivial⟩
  have hagain := hopened.step ⟨_, .call replyTrace, trivial⟩
  have halive := hagain.step ⟨_, .check 1 _ rfl rfl, trivial⟩
  have hrefused := halive.step ⟨_, .register 1 _ rfl rfl, Or.inl (by decide)⟩
  have hanswered := hrefused.step ⟨_, .answer 0 _ .admitted rfl rfl, trivial⟩
  have hread := hanswered.step ⟨_, .acknowledge _ rfl rfl, by
    intro j ack other hack hother hwaiting htrace
    cases hack
    match j with
    | 0 => rfl
    | 1 =>
      cases hother
      simp [OutboundSend.Waiting] at hwaiting
    | j + 2 => cases hother⟩
  exact ⟨_, hread, rfl, rfl, admission_waits_kept 1 _ hread⟩

/-- Two replies of one trace: the second one takes the place of the first one, whose wait ends
    although its peer has not answered. And a send that saw the session alive registers after the
    drain. -/
theorem wait_overwritten :
    (∃ s, (runs 256).Reachable s ∧ s.acks = [] ∧ s.phase = .running ∧
      s.sends = [⟨replyTrace, .awaiting, true, [.overwritten 1]⟩,
        ⟨replyTrace, .registered, false, []⟩] ∧ ¬ WaitsKept s) ∧
    ∃ s, (runs 256).Reachable s ∧ s.phase = .drained ∧
      s.pending.get replyTrace = some 0 ∧ ¬ WaitsKept s := by
  have hcalled := (TransitionSystem.Reachable.init (T := runs 256) rfl).step
    ⟨_, .call replyTrace⟩
  have hchecked := hcalled.step ⟨_, .check 0 _ rfl rfl⟩
  constructor
  · have hregistered := hchecked.step ⟨_, .register 0 _ rfl rfl⟩
    have hopened := hregistered.step ⟨_, .opened 0 _ rfl rfl⟩
    have hagain := hopened.step ⟨_, .call replyTrace⟩
    have halive := hagain.step ⟨_, .check 1 _ rfl rfl⟩
    have hsecond := halive.step ⟨_, .register 1 _ rfl rfl⟩
    refine ⟨_, hsecond, rfl, rfl, rfl, fun hkept => ?_⟩
    exact hkept.cause 0 _ rfl _ (List.mem_singleton_self _)
  · have hstopped := hchecked.step ⟨_, .stop rfl⟩
    have hdrained := hstopped.step ⟨_, .drain rfl⟩
    have hlate := hdrained.step ⟨_, .register 0 _ rfl rfl⟩
    refine ⟨_, hlate, rfl, rfl, fun hkept => ?_⟩
    have hnone := (hkept.drained rfl).1 replyTrace
    cases hnone

end Radiata
