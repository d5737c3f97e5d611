import Radiata.Native.Route

/-!
# Honest routing makes simple bounded paths

The chain an envelope carries is the list of the nodes that have held the packet: every node
appends the holder it got the packet from, and it refuses a chain in which it occurs itself.
So the holders of a packet are distinct, and since every forward takes one unit of the
budget into the chain, the chain and the budget always add up to the budget of the origin.

## Key results

- `RouteContext.receive_eq_ok`: what an accepted envelope is known to satisfy
- `RouteRun.OnRoute.next`: the chain of the frame is the way of the packet
- `RouteRun.exists_end`: every packet arrives or fails
- `honest_route_simple`: the way of a packet in every state of every run
- `received_chain_iff`: when the chain of an accepted envelope is a way from its source
-/

namespace Radiata

namespace RouteContext

variable {chooseNext : RouteContext → Result NodeId}

/-- What `receive` has checked when it accepts an envelope. -/
theorem receive_eq_ok {context : RouteContext} {localId peer : NodeId} {progress : RouteProgress}
    (h : context.receive localId peer chooseNext = .ok progress) :
    localId ∉ context.visited ++ [context.current] ∧ context.current = peer ∧
      (context.destination = localId ∧ progress = .arrive ∨
        context.remainingHops ≠ 0 ∧ ∃ nextHop, chooseNext context = .ok nextHop ∧
          progress = .continue nextHop (context.forward localId)) := by
  simp only [receive, Except.seq_eq_ok, Except.rejectIf_eq_ok, not_or, not_not] at h
  obtain ⟨⟨hcurrent, hvisited⟩, -, -, hpeer, h⟩ := h
  refine ⟨by simp [hvisited, Ne.symm hcurrent], hpeer, ?_⟩
  by_cases hlocal : context.destination = localId
  · rw [if_pos hlocal] at h
    cases h
    exact Or.inl ⟨hlocal, rfl⟩
  · rw [if_neg hlocal, Except.seq_eq_ok, Except.rejectIf_eq_ok] at h
    obtain ⟨hbudget, h⟩ := h
    obtain ⟨nextHop, hchoose, h⟩ := Result.bind_eq_ok.mp h
    cases (Except.seq_eq_ok.mp h).2
    exact Or.inr ⟨hbudget, nextHop, hchoose, rfl⟩

/-- What `receive` has checked of the nodes before the current holder. -/
theorem receive_visited {context : RouteContext} {localId peer : NodeId}
    {progress : RouteProgress} (h : context.receive localId peer chooseNext = .ok progress) :
    context.visited.Nodup ∧ ∀ first ∈ context.visited.head?, first = context.source := by
  simp only [receive, Except.seq_eq_ok, Except.rejectIf_eq_ok, not_not] at h
  obtain ⟨-, hnodup, hhead, -⟩ := h
  refine ⟨hnodup, fun first hfirst => ?_⟩
  rw [Option.mem_def.mp hfirst] at hhead
  simpa using hhead

end RouteContext

namespace RouteRun

variable {κ : Type} {choose : NodeId → RouteContext → Result NodeId} {source destination : NodeId}
  {maxHops : Nat} {run run' : RouteRun κ}

/-- The envelope of a frame under way tells its way: the chain with the current holder is the
    list of the holders, and the budget has been spent on it. -/
structure Carries (source destination : NodeId) (maxHops : Nat) (holders : List NodeId)
    (context : RouteContext) : Prop where
  source : context.source = source
  destination : context.destination = destination
  chain : holders = context.visited ++ [context.current]
  budget : context.visited.length + context.remainingHops = maxHops

/-- The envelope a receiver rebuilds. -/
def envelope (frame : OpenFrame κ) : RouteContext :=
  RouteContext.fromFrame frame.traceId frame.source frame.destination frame.route

/-- A packet on its way from `source` to `destination`. -/
structure OnRoute (source destination : NodeId) (maxHops : Nat) (run : RouteRun κ) : Prop where
  origin : run.holders.head? = some source
  simple : run.holders.Nodup
  sent : ∀ peer receiver frame, run.position = .sent peer receiver frame →
    peer = (envelope frame).current ∧ frame.route.isSome = true ∧
      Carries source destination maxHops run.holders (envelope frame)
  arrived : ∀ node context, run.position = .arrived node context →
    node = destination ∧ ∃ way, run.holders = way ++ [node] ∧
      Carries source destination maxHops way context
  failed : ∀ node error, run.position = .failed node error →
    ∃ context, Carries source destination maxHops run.holders context

theorem Carries.forward {holders : List NodeId} {context : RouteContext} {localId : NodeId}
    (h : Carries source destination maxHops holders context) (hbudget : context.remainingHops ≠ 0) :
    Carries source destination maxHops (holders ++ [localId]) (context.forward localId) := by
  refine ⟨h.source, h.destination, ?_, ?_⟩
  · rw [h.chain]
    rfl
  · have hsum := h.budget
    show (context.visited ++ [context.current]).length + (context.remainingHops - 1) = maxHops
    rw [List.length_append, List.length_singleton]
    omega

/-- The envelope that the frame of a forwarder carries is the forwarded one. -/
theorem envelope_relay {frame : OpenFrame κ} {localId : NodeId} :
    envelope { frame with route := some ((envelope frame).forward localId).hopState } =
      (envelope frame).forward localId := by
  unfold envelope
  cases frame.route <;> rfl

/-- The three things a receiver can do. -/
theorem receive_cases (choose : NodeId → RouteContext → Result NodeId) (holders : List NodeId)
    (peer receiver : NodeId) (frame : OpenFrame κ) :
    (∃ error, receive choose holders peer receiver frame = ⟨holders, .failed receiver error⟩) ∨
    receiver ∉ (envelope frame).visited ++ [(envelope frame).current] ∧
      ((envelope frame).destination = receiver ∧ receive choose holders peer receiver frame =
          ⟨holders ++ [receiver], .arrived receiver (envelope frame)⟩ ∨
        (envelope frame).remainingHops ≠ 0 ∧ ∃ nextHop,
          receive choose holders peer receiver frame = ⟨holders ++ [receiver], .sent receiver nextHop
            { frame with route := some ((envelope frame).forward receiver).hopState }⟩) := by
  have henvelope : RouteContext.fromFrame frame.traceId frame.source frame.destination frame.route =
      envelope frame := rfl
  unfold receive
  rw [henvelope]
  dsimp only
  cases haccept : (envelope frame).receive receiver peer (choose receiver) with
  | error error => exact Or.inl ⟨error, rfl⟩
  | ok progress =>
    obtain ⟨hfresh, -, hprogress⟩ := RouteContext.receive_eq_ok haccept
    refine Or.inr ⟨hfresh, ?_⟩
    rcases hprogress with ⟨hdestination, rfl⟩ | ⟨hbudget, nextHop, -, rfl⟩
    · exact Or.inl ⟨hdestination, rfl⟩
    · exact Or.inr ⟨hbudget, nextHop, rfl⟩

/-- One node on the way. -/
theorem OnRoute.next (h : OnRoute source destination maxHops run) (hnext : run.next choose = some run') :
    OnRoute source destination maxHops run' := by
  obtain ⟨holders, position⟩ := run
  cases position with
  | arrived node context => cases hnext
  | failed node error => cases hnext
  | sent peer receiver frame =>
    obtain rfl := Option.some.inj hnext
    obtain ⟨-, -, hcarries⟩ := h.sent peer receiver frame rfl
    show OnRoute source destination maxHops (receive choose holders peer receiver frame)
    rcases receive_cases choose holders peer receiver frame with ⟨error, hfailed⟩ | ⟨hfresh, haccepted⟩
    · rw [hfailed]
      refine ⟨h.origin, h.simple, ?_, ?_, fun _ _ _ => ⟨_, hcarries⟩⟩
      · intro _ _ _ hposition
        cases hposition
      · intro _ _ hposition
        cases hposition
    · -- The receiver is new on the way.
      rw [← hcarries.chain] at hfresh
      have horigin : (holders ++ [receiver]).head? = some source := by
        have hhead : holders.head? = some source := h.origin
        rw [List.head?_append, hhead, Option.some_or]
      have hsimple : (holders ++ [receiver]).Nodup := by
        rw [List.nodup_append]
        refine ⟨h.simple, List.pairwise_singleton _ _, ?_⟩
        rintro a ha b hb rfl
        exact hfresh (List.mem_singleton.mp hb ▸ ha)
      rcases haccepted with ⟨hdestination, harrived⟩ | ⟨hbudget, nextHop, hsent⟩
      · rw [harrived]
        refine ⟨horigin, hsimple, ?_, ?_, ?_⟩
        · intro _ _ _ hposition
          cases hposition
        · intro node context hposition
          cases hposition
          exact ⟨hdestination.symm.trans hcarries.destination, holders, rfl, hcarries⟩
        · intro _ _ hposition
          cases hposition
      · rw [hsent]
        refine ⟨horigin, hsimple, ?_, ?_, ?_⟩
        · intro peer' receiver' frame' hposition
          cases hposition
          rw [envelope_relay]
          exact ⟨rfl, rfl, hcarries.forward hbudget⟩
        · intro _ _ hposition
          cases hposition
        · intro _ _ hposition
          cases hposition

theorem onRoute_of_reachable {traceId : TraceId} {content : κ} {firstHop : NodeId}
    (h : (runs choose (start traceId source destination maxHops content firstHop)).Reachable run) :
    OnRoute source destination maxHops run := by
  refine h.invariant ?_ (fun _ _ _ hrun hnext => hrun.next hnext)
  rintro run rfl
  refine ⟨rfl, List.pairwise_singleton _ _, ?_, ?_, ?_⟩
  · intro peer receiver frame hposition
    cases hposition
    exact ⟨rfl, rfl, rfl, rfl, rfl, Nat.zero_add _⟩
  · intro _ _ hposition
    cases hposition
  · intro _ _ hposition
    cases hposition

/-- The packet has come to its end. -/
def Ended (run : RouteRun κ) : Prop :=
  (∃ node context, run.position = .arrived node context) ∨
    ∃ node error, run.position = .failed node error

/-- A packet under way comes to its end, since every forward takes a unit of its budget. -/
theorem exists_end_of_sent {origin : RouteRun κ} {peer receiver : NodeId} {frame : OpenFrame κ}
    (hposition : run.position = .sent peer receiver frame) :
    ∃ last, (runs choose origin).Path run last ∧ last.Ended := by
  induction hbudget : (envelope frame).remainingHops using Nat.strong_induction_on
    generalizing run peer receiver frame with
  | _ budget ih =>
    have hstep : (runs choose origin).next run (receive choose run.holders peer receiver frame) := by
      show run.next choose = _
      rw [RouteRun.next, hposition]
    rcases receive_cases choose run.holders peer receiver frame with
      ⟨error, hfailed⟩ | ⟨-, ⟨-, harrived⟩ | ⟨hleft, nextHop, hsent⟩⟩
    · rw [hfailed] at hstep
      exact ⟨_, .single hstep, Or.inr ⟨receiver, error, rfl⟩⟩
    · rw [harrived] at hstep
      exact ⟨_, .single hstep, Or.inl ⟨receiver, _, rfl⟩⟩
    · rw [hsent] at hstep
      have hless : ((envelope frame).forward receiver).remainingHops < budget := by
        show (envelope frame).remainingHops - 1 < budget
        omega
      have hnext : (⟨run.holders ++ [receiver], .sent receiver nextHop
          { frame with route := some ((envelope frame).forward receiver).hopState }⟩ :
            RouteRun κ).position = .sent receiver nextHop _ := rfl
      obtain ⟨last, hpath, hended⟩ := ih _ hless hnext (by rw [envelope_relay])
      exact ⟨last, .head hstep hpath, hended⟩

/-- Every packet arrives or fails. -/
theorem exists_end (origin run : RouteRun κ) :
    ∃ last, (runs choose origin).Path run last ∧ last.Ended := by
  cases hposition : run.position with
  | sent peer receiver frame => exact exists_end_of_sent hposition
  | arrived node context => exact ⟨run, .refl, Or.inl ⟨node, context, hposition⟩⟩
  | failed node error => exact ⟨run, .refl, Or.inr ⟨node, error, hposition⟩⟩

/-- The nodes that have forwarded the packet: the holders but the source and, after the
    arrival, the destination. -/
def forwards (run : RouteRun κ) : Nat :=
  match run.position with
  | .arrived _ _ => run.holders.length - 2
  | _ => run.holders.length - 1

theorem OnRoute.forwards_le (h : OnRoute source destination maxHops run) : run.forwards ≤ maxHops := by
  have hbound : ∀ {holders : List NodeId} {context : RouteContext},
      Carries source destination maxHops holders context → holders.length - 1 ≤ maxHops := by
    intro holders context hcarries
    have hchain := congrArg List.length hcarries.chain
    have hbudget := hcarries.budget
    rw [List.length_append, List.length_singleton] at hchain
    omega
  unfold forwards
  cases hposition : run.position with
  | sent peer receiver frame => exact hbound (h.sent peer receiver frame hposition).2.2
  | failed node error =>
    obtain ⟨context, hcarries⟩ := h.failed node error hposition
    exact hbound hcarries
  | arrived node context =>
    obtain ⟨-, way, hway, hcarries⟩ := h.arrived node context hposition
    have hshort := hbound hcarries
    have hlength := congrArg List.length hway
    rw [List.length_append, List.length_singleton] at hlength
    show run.holders.length - 2 ≤ maxHops
    omega

end RouteRun

/-- Whatever the nodes on the way decide, in every state of the run of a packet: its holders
    are a path without repetition that starts at the source; a frame under way is on a session
    of its last holder and its chain and budget add up to the budget of the origin; there are
    at most `maxHops` forwards; a packet arrives only at its destination, which sees the node
    that created the envelope as its source; and the run comes to an arrival or an error. -/
theorem honest_route_simple {κ : Type} (choose : NodeId → RouteContext → Result NodeId)
    (traceId : TraceId) (source destination firstHop : NodeId) (maxHops : Nat) (content : κ)
    (run : RouteRun κ)
    (h : (RouteRun.runs choose
      (.start traceId source destination maxHops content firstHop)).Reachable run) :
    run.holders.head? = some source ∧ run.holders.Nodup ∧
    (∀ peer receiver frame, run.position = .sent peer receiver frame →
      run.holders.getLast? = some peer ∧ frame.source = source ∧ ∃ route, frame.route = some route ∧
        run.holders = route.visited ++ [route.current] ∧
        route.visited.length + route.remainingHops = maxHops) ∧
    run.forwards ≤ maxHops ∧
    (∀ node context, run.position = .arrived node context →
      node = destination ∧ run.holders.getLast? = some destination ∧ context.source = source) ∧
    ∃ last, (RouteRun.runs choose
      (.start traceId source destination maxHops content firstHop)).Path run last ∧ last.Ended := by
  have hroute := RouteRun.onRoute_of_reachable h
  refine ⟨hroute.origin, hroute.simple, ?_, hroute.forwards_le, ?_, RouteRun.exists_end _ run⟩
  · intro peer receiver frame hposition
    obtain ⟨hpeer, hroute, hcarries⟩ := hroute.sent peer receiver frame hposition
    obtain ⟨route, hroute⟩ := Option.isSome_iff_exists.mp hroute
    have henvelope : RouteRun.envelope frame = ⟨frame.traceId, frame.source, frame.destination,
        route.current, route.visited, route.remainingHops⟩ := by
      unfold RouteRun.envelope
      rw [hroute]
      rfl
    rw [henvelope] at hpeer hcarries
    have hchain := hcarries.chain
    refine ⟨by simp [hchain, hpeer], hcarries.source, route, hroute, hchain, hcarries.budget⟩
  · intro node context hposition
    obtain ⟨rfl, way, hway, hcarries⟩ := hroute.arrived node context hposition
    exact ⟨rfl, by simp [hway], hcarries.source⟩

def routeSource : NodeId := .ofDigits 0 1
def routeForwarder : NodeId := .ofDigits 0 2
def routeDestination : NodeId := .ofDigits 0 3
def routeTrace : TraceId := .ofDigits 0 1

/-- A packet goes over one forwarder and has three hops left when it arrives. -/
theorem sample_route_arrives :
    ∃ run, (RouteRun.runs (fun _ _ => .ok routeDestination)
        (.start routeTrace routeSource routeDestination 4 () routeForwarder)).Reachable run ∧
      run.holders = [routeSource, routeForwarder, routeDestination] ∧ run.holders.Nodup ∧
      run.position = .arrived routeDestination
        ⟨routeTrace, routeSource, routeDestination, routeForwarder, [routeSource], 3⟩ := by
  have hstart : (RouteRun.runs (fun _ _ => .ok routeDestination)
      (.start routeTrace routeSource routeDestination 4 () routeForwarder)).Reachable _ := .init rfl
  have hforward : RouteRun.next (fun _ _ => .ok routeDestination)
      (.start routeTrace routeSource routeDestination 4 () routeForwarder) =
      some ⟨[routeSource, routeForwarder], .sent routeForwarder routeDestination
        ⟨routeTrace, routeSource, routeDestination, (), some ⟨routeForwarder, [routeSource], 3⟩⟩⟩ := by
    decide +kernel
  have harrive : RouteRun.next (fun _ _ => .ok routeDestination)
      ⟨[routeSource, routeForwarder], .sent routeForwarder routeDestination
        ⟨routeTrace, routeSource, routeDestination, (), some ⟨routeForwarder, [routeSource], 3⟩⟩⟩ =
      some ⟨[routeSource, routeForwarder, routeDestination], .arrived routeDestination
        ⟨routeTrace, routeSource, routeDestination, routeForwarder, [routeSource], 3⟩⟩ := by
    decide +kernel
  have hrun := (hstart.step hforward).step harrive
  obtain ⟨-, hsimple, -⟩ := honest_route_simple _ _ _ _ _ _ () _ hrun
  exact ⟨_, hrun, rfl, hsimple, rfl⟩

/-! ## Envelopes of other nodes -/

/-- A chain that tells a way from the source to the peer without the local node. -/
structure RouteContext.WellFormedChain (context : RouteContext) (localId peer : NodeId) : Prop where
  nodup : (context.visited ++ [context.current]).Nodup
  origin : (context.visited ++ [context.current]).head? = some context.source
  holder : (context.visited ++ [context.current]).getLast? = some peer
  fresh : localId ∉ context.visited ++ [context.current]

/-- Whatever a frame carries: the chain of an envelope that a node accepts is well formed exactly
    if the current holder is not among the nodes before it and, where there are none, the peer is
    the source. -/
theorem received_chain_iff {traceId : TraceId} {source destination localId peer : NodeId}
    {route : Option HopState} {chooseNext : RouteContext → Result NodeId} {progress : RouteProgress}
    (h : (RouteContext.fromFrame traceId source destination route).receive localId peer chooseNext =
      .ok progress) :
    (RouteContext.fromFrame traceId source destination route).WellFormedChain localId peer ↔
      ∀ hop ∈ route, hop.current ∉ hop.visited ∧ (hop.visited = [] → peer = source) := by
  obtain ⟨hfresh, hholder, -⟩ := RouteContext.receive_eq_ok h
  obtain ⟨hnodup, hhead⟩ := RouteContext.receive_visited h
  cases route with
  | none =>
    -- A direct delivery has the source as its only holder.
    constructor
    · intro _ hop hhop
      cases hhop
    · intro _
      exact ⟨List.pairwise_singleton _ _, rfl, congrArg some hholder, hfresh⟩
  | some hop =>
    simp only [Option.mem_def, Option.some.injEq, forall_eq']
    constructor
    · intro hchain
      refine ⟨fun hmem => ?_, fun hempty => ?_⟩
      · exact (List.nodup_append.mp hchain.nodup).2.2 _ hmem _ (List.mem_singleton_self _) rfl
      · have horigin : (hop.visited ++ [hop.current]).head? = some source := hchain.origin
        rw [hempty] at horigin
        exact hholder.symm.trans (Option.some.inj horigin)
    · intro ⟨hnew, hdirect⟩
      refine ⟨?_, ?_, ?_, hfresh⟩
      · rw [List.nodup_append]
        refine ⟨hnodup, List.pairwise_singleton _ _, ?_⟩
        intro node hnode last hlast heq
        have hcurrent : node = hop.current := heq.trans (List.mem_singleton.mp hlast)
        exact hnew (hcurrent ▸ hnode)
      · show (hop.visited ++ [hop.current]).head? = some source
        cases hvisited : hop.visited with
        | nil => exact congrArg some (hholder.trans (hdirect hvisited))
        | cons first rest =>
          have hfirst : hop.visited.head? = some first := by rw [hvisited]; rfl
          exact congrArg some (hhead first hfirst)
      · rw [List.getLast?_append, List.getLast?_singleton]
        exact congrArg some hholder

/-- The way over one forwarder is a well-formed chain. -/
theorem sample_chain_well_formed :
    (RouteContext.fromFrame routeTrace routeSource routeDestination
        (some ⟨routeForwarder, [routeSource], 3⟩)).receive routeDestination routeForwarder
        (fun _ => .error (.unsupported "route forwarding")) = .ok .arrive ∧
      (RouteContext.fromFrame routeTrace routeSource routeDestination
        (some ⟨routeForwarder, [routeSource], 3⟩)).WellFormedChain routeDestination
          routeForwarder := by
  have h : (RouteContext.fromFrame routeTrace routeSource routeDestination
      (some ⟨routeForwarder, [routeSource], 3⟩)).receive routeDestination routeForwarder
      (fun _ => .error (.unsupported "route forwarding")) = .ok .arrive := by decide
  exact ⟨h, (received_chain_iff h).mpr (by decide)⟩

/-- A neighbor that claims to be the first holder delivers under the id of another node, and one
    that names itself twice is accepted as well. -/
theorem sample_chain_forged :
    ∃ route looped,
      (RouteContext.fromFrame routeTrace routeSource routeDestination (some route)).receive
        routeDestination routeForwarder (fun _ => .error (.unsupported "route forwarding")) =
          .ok .arrive ∧
      ¬ (RouteContext.fromFrame routeTrace routeSource routeDestination (some route)).WellFormedChain
        routeDestination routeForwarder ∧
      (RouteContext.fromFrame routeTrace routeSource routeDestination (some looped)).receive
        routeDestination routeForwarder (fun _ => .error (.unsupported "route forwarding")) =
          .ok .arrive ∧
      ¬ (RouteContext.fromFrame routeTrace routeSource routeDestination
        (some looped)).WellFormedChain routeDestination routeForwarder := by
  refine ⟨⟨routeForwarder, [], 3⟩, ⟨routeForwarder, [routeSource, routeForwarder], 3⟩, by decide,
    fun h => ?_, by decide, fun h => ?_⟩
  · exact absurd h.origin (by decide)
  · exact absurd h.nodup (by decide)

end Radiata
