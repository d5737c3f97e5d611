import Mathlib.Data.List.Induction
import Radiata.Native.SessionTable

/-!
# The connection both ends keep

A registration never looks at anything but the direction of the live entry, so an end that
registers an order of connections ends up with the last one of the preferred direction: the
direction of the smaller node id if it occurs, any direction otherwise. Both ends keep one
connection exactly when this last connection is the same in both orders; otherwise each end
retires the connection the other end keeps.

## Key results

- `keepConnection_eq_wins`: the two ends of a connection judge it alike
- `Link.Keeps.step`: once registered at an end, the common choice is never retired
- `exists_settled`: the orders leave no entry but the preferred connection of each end
- `same_connection_kept_iff`: the condition under which both ends keep the same connection
-/

namespace Radiata

/-- A connection was dialed by the smaller node id. -/
def Connection.wins (ids : Side → NodeId) (connection : Connection) : Bool :=
  ids connection.dialer < ids connection.dialer.other

/-- Both ends give the same answer about a connection. -/
theorem keepConnection_eq_wins (ids : Side → NodeId) (connection : Connection) (side : Side) :
    keepConnection (ids side) (ids side.other) (connection.direction side) =
      connection.wins ids := by
  obtain ⟨number, dialer⟩ := connection
  cases dialer <;> cases side <;> rfl

/-- The last connection of the winning direction, or the last one if none wins. -/
def preferred (ids : Side → NodeId) (order : List Connection) : Option Connection :=
  ((order.filter (Connection.wins ids)).getLast?).or order.getLast?

theorem preferred_append_singleton (ids : Side → NodeId) (order : List Connection)
    (connection : Connection) :
    preferred ids (order ++ [connection]) =
      if connection.wins ids ∨ ∀ c ∈ order, c.wins ids = false then some connection
      else preferred ids order := by
  unfold preferred
  by_cases hwins : connection.wins ids
  · simp [hwins]
  · by_cases hnone : ∀ c ∈ order, c.wins ids = false
    · have hfilter : order.filter (Connection.wins ids) = [] := by
        rw [List.filter_eq_nil_iff]
        intro c hc
        simp [hnone c hc]
      rw [if_pos (Or.inr hnone)]
      simp [hwins, hfilter]
    · have hfilter : order.filter (Connection.wins ids) ≠ [] := by
        simpa [List.filter_eq_nil_iff] using hnone
      obtain ⟨last, hlast⟩ := Option.isSome_iff_exists.mp (List.getLast?_isSome.mpr hfilter)
      rw [if_neg (not_or.mpr ⟨hwins, hnone⟩)]
      simp [hwins, hlast]

/-- If a connection of the order wins, the preferred one does. -/
theorem exists_preferred_wins {ids : Side → NodeId} {order : List Connection}
    (h : ¬ ∀ c ∈ order, c.wins ids = false) :
    ∃ kept, preferred ids order = some kept ∧ kept.wins ids = true := by
  have hfilter : order.filter (Connection.wins ids) ≠ [] := by
    simpa [List.filter_eq_nil_iff] using h
  obtain ⟨kept, hkept⟩ := Option.isSome_iff_exists.mp (List.getLast?_isSome.mpr hfilter)
  refine ⟨kept, by rw [preferred, hkept, Option.some_or], ?_⟩
  exact (List.mem_filter.mp (List.mem_of_getLast? hkept)).2

/-- Behind the preferred connection of an order only losing connections follow, and only if
    it wins itself. -/
theorem loses_of_after_preferred {ids : Side → NodeId} {before after : List Connection}
    {kept : Connection} (hkept : preferred ids (before ++ kept :: after) = some kept)
    (hnodup : (before ++ kept :: after).Nodup) {connection : Connection}
    (hafter : connection ∈ after) : kept.wins ids = true ∧ connection.wins ids = false := by
  induction after using List.reverseRecOn with
  | nil => cases hafter
  | append_singleton after last ih =>
    rw [← List.cons_append, ← List.append_assoc] at hkept hnodup
    have hlast : kept ≠ last := by
      intro heq
      rw [List.nodup_append] at hnodup
      exact hnodup.2.2 kept (by simp) last (by simp) heq
    rw [preferred_append_singleton] at hkept
    split at hkept
    · exact absurd (Option.some.inj hkept).symm hlast
    · rename_i hcond
      rw [not_or] at hcond
      have hloses : last.wins ids = false := by simpa using hcond.1
      rcases List.mem_append.mp hafter with hafter | hafter
      · exact ih hkept (List.nodup_append.mp hnodup).1 hafter
      · rw [List.mem_singleton.mp hafter]
        refine ⟨?_, hloses⟩
        obtain ⟨chosen, hchosen, hwins⟩ := exists_preferred_wins hcond.2
        rw [hkept, Option.some.injEq] at hchosen
        rwa [hchosen]

namespace SessionEnd

variable {ids : Side → NodeId} {side : Side} {node : SessionEnd} {connection : Connection}

/-- The entry of an end is the registration of one of the connections it was given. -/
def Owns (node : SessionEnd) (side : Side) (order : List Connection) : Prop :=
  ∀ entry, node.entry = some entry →
    entry.connection ∈ order ∧ entry.direction = entry.connection.direction side

/-- A registration beside a live entry is decided by the two directions. -/
theorem replaces_of_alive {entry : SessionEntry} (hentry : node.entry = some entry)
    (halive : entry.connection ∈ node.alive)
    (hdirection : entry.direction = entry.connection.direction side) :
    node.replaces (ids side) (ids side.other) (connection.direction side) =
      (connection.wins ids || !entry.connection.wins ids) := by
  simp only [replaces, hentry, halive, not_true_eq_false, if_false, hdirection,
    keepConnection_eq_wins]
  cases connection.wins ids <;> cases entry.connection.wins ids <;> rfl

variable {order : List Connection}

/-- A connection that no registered connection beats replaces whatever is there. -/
theorem replaces_of_unbeaten (howns : node.Owns side order)
    (hunbeaten : connection.wins ids = true ∨ ∀ c ∈ order, c.wins ids = false) :
    node.replaces (ids side) (ids side.other) (connection.direction side) = true := by
  cases hentry : node.entry with
  | none => simp [replaces, hentry]
  | some entry =>
    obtain ⟨hmem, hdirection⟩ := howns entry hentry
    by_cases halive : entry.connection ∈ node.alive
    · rw [replaces_of_alive hentry halive hdirection]
      rcases hunbeaten with hwins | hnone
      · simp [hwins]
      · simp [hnone _ hmem]
    · simp [replaces, hentry, halive]

theorem Owns.register (howns : node.Owns side order) :
    (node.register (ids side) (ids side.other) connection (connection.direction side)).Owns side
      (order ++ [connection]) := by
  unfold SessionEnd.register
  split
  · intro entry hentry
    cases hentry
    exact ⟨by simp, rfl⟩
  · intro entry hentry
    obtain ⟨hmem, hdirection⟩ := howns entry hentry
    exact ⟨List.mem_append_left _ hmem, hdirection⟩

theorem Owns.teardown (howns : node.Owns side order) :
    (node.teardown connection).Owns side order := by
  intro entry hentry
  exact howns entry (Option.filter_eq_some_iff.mp hentry).1

/-- Where every entry is alive, registering an order leaves its preferred connection. -/
theorem entry_register (connection : Connection) (howns : node.Owns side order)
    (halive : ∀ entry, node.entry = some entry → entry.connection ∈ node.alive)
    (hentry : node.entry.map SessionEntry.connection = preferred ids order) :
    let next := node.register (ids side) (ids side.other) connection (connection.direction side)
    (∀ entry, next.entry = some entry → entry.connection ∈ next.alive) ∧
      next.entry.map SessionEntry.connection = preferred ids (order ++ [connection]) := by
  intro next
  rw [preferred_append_singleton]
  by_cases hunbeaten : connection.wins ids = true ∨ ∀ c ∈ order, c.wins ids = false
  · have hnext : next = _ := if_pos (replaces_of_unbeaten howns hunbeaten)
    rw [hnext, if_pos hunbeaten]
    refine ⟨?_, rfl⟩
    intro entry heq
    cases heq
    exact List.mem_cons_self ..
  · rw [if_neg hunbeaten]
    rw [not_or] at hunbeaten
    obtain ⟨kept, hkept, hwins⟩ := exists_preferred_wins hunbeaten.2
    rw [hkept, Option.map_eq_some_iff] at hentry
    obtain ⟨entry, hentry, rfl⟩ := hentry
    have hrefused : ¬ node.replaces (ids side) (ids side.other) (connection.direction side) = true := by
      rw [replaces_of_alive hentry (halive entry hentry) (howns entry hentry).2]
      simp [hunbeaten.1, hwins]
    have hnext : next = _ := if_neg hrefused
    rw [hnext]
    exact ⟨halive, by simp [hentry, hkept]⟩

/-! ## The common choice -/

/-- An end that has registered `done` holds on to `kept` once it is registered. -/
structure Keeps (kept : Connection) (side : Side) (node : SessionEnd) (done : List Connection) :
    Prop where
  owns : node.Owns side done
  serving : ∀ connection ∈ node.serving, connection ∈ done
  undropped : kept ∉ node.dropped
  held : kept ∈ done → node.entry.map SessionEntry.connection = some kept ∧ kept ∈ node.alive

theorem Keeps.register {kept : Connection} {done rest : List Connection}
    (h : node.Keeps kept side done) (hkept : preferred ids (done ++ connection :: rest) = some kept)
    (hnodup : (done ++ connection :: rest).Nodup) :
    (node.register (ids side) (ids side.other) connection (connection.direction side)).Keeps kept
      side (done ++ [connection]) := by
  have howns : (node.register (ids side) (ids side.other) connection
      (connection.direction side)).Owns side (done ++ [connection]) := h.owns.register
  by_cases heq : connection = kept
  · -- The choice itself is unbeaten and replaces whatever is registered.
    subst heq
    have hunbeaten : connection.wins ids = true ∨ ∀ c ∈ done, c.wins ids = false := by
      by_cases hnone : ∀ c ∈ done ++ connection :: rest, c.wins ids = false
      · exact Or.inr fun c hc => hnone c (List.mem_append_left _ hc)
      · obtain ⟨chosen, hchosen, hwins⟩ := exists_preferred_wins hnone
        rw [hkept, Option.some.injEq] at hchosen
        exact Or.inl (hchosen ▸ hwins)
    have hreplaces := replaces_of_unbeaten h.owns hunbeaten
    unfold SessionEnd.register at howns ⊢
    rw [if_pos hreplaces] at howns ⊢
    refine ⟨howns, ?_, h.undropped, fun _ => ⟨rfl, List.mem_cons_self ..⟩⟩
    intro c hc
    rcases List.mem_cons.mp hc with rfl | hc
    · simp
    · exact List.mem_append_left _ (h.serving c hc)
  · by_cases hdone : kept ∈ done
    · -- A later connection loses against the live choice and is refused.
      obtain ⟨hentry, halive⟩ := h.held hdone
      obtain ⟨entry, hregistered, rfl⟩ := Option.map_eq_some_iff.mp hentry
      obtain ⟨before, mid, hsplit⟩ := List.append_of_mem hdone
      rw [hsplit, List.append_assoc, List.cons_append] at hkept hnodup
      have hafter : connection ∈ mid ++ connection :: rest := by simp
      obtain ⟨hwins, hloses⟩ := loses_of_after_preferred hkept hnodup hafter
      have hrefused : ¬ node.replaces (ids side) (ids side.other) (connection.direction side) = true := by
        rw [replaces_of_alive hregistered halive (h.owns entry hregistered).2]
        simp [hwins, hloses]
      unfold SessionEnd.register at howns ⊢
      rw [if_neg hrefused] at howns ⊢
      refine ⟨howns, fun c hc => List.mem_append_left _ (h.serving c hc), ?_, fun _ => h.held hdone⟩
      simp [h.undropped, Ne.symm heq]
    · have hlater : kept ∉ done ++ [connection] := by simp [hdone, Ne.symm heq]
      refine ⟨howns, ?_, ?_, fun hmem => absurd hmem hlater⟩
      · unfold SessionEnd.register
        split
        · intro c hc
          rcases List.mem_cons.mp hc with rfl | hc
          · simp
          · exact List.mem_append_left _ (h.serving c hc)
        · exact fun c hc => List.mem_append_left _ (h.serving c hc)
      · unfold SessionEnd.register
        split
        · exact h.undropped
        · simp [h.undropped, Ne.symm heq]

theorem Keeps.teardown {kept : Connection} {done : List Connection}
    (h : node.Keeps kept side done) (hne : connection ≠ kept) :
    (node.teardown connection).Keeps kept side done := by
  refine ⟨h.owns.teardown, ?_, ?_, ?_⟩
  · intro c hc
    exact h.serving c (List.mem_filter.mp hc).1
  · simp [SessionEnd.teardown, h.undropped, Ne.symm hne]
  · intro hdone
    obtain ⟨hentry, halive⟩ := h.held hdone
    obtain ⟨entry, hregistered, rfl⟩ := Option.map_eq_some_iff.mp hentry
    simp [SessionEnd.teardown, hregistered, halive, Ne.symm hne]

end SessionEnd

namespace Link

variable {ids : Side → NodeId} {orders : Side → List Connection} {s t : Link}

/-- Each end has registered a first part of its order and holds on to `kept`. -/
def Keeps (orders : Side → List Connection) (kept : Connection) (s : Link) : Prop :=
  ∀ side, ∃ done, orders side = done ++ s.todo side ∧ (s.node side).Keeps kept side done

theorem Keeps.step {kept : Connection} (hkept : ∀ side, preferred ids (orders side) = some kept)
    (hnodup : ∀ side, (orders side).Nodup) (h : s.Keeps orders kept) (hstep : Step ids s t) :
    t.Keeps orders kept := by
  intro side'
  obtain ⟨done, horder, hkeeps⟩ := h side'
  cases hstep with
  | register side connection rest htodo =>
    by_cases hside : side' = side
    · subst hside
      rw [htodo] at horder
      refine ⟨done ++ [connection], by simp [Link.register, horder], ?_⟩
      simp only [Link.register, Function.update_self]
      exact hkeeps.register (by rw [← horder]; exact hkept side') (by rw [← horder]; exact hnodup side')
    · refine ⟨done, ?_, ?_⟩
      · simpa [Link.register, Function.update_of_ne hside] using horder
      · simpa [Link.register, Function.update_of_ne hside] using hkeeps
  | teardown side connection hending =>
    refine ⟨done, horder, ?_⟩
    by_cases hside : side' = side
    · subst hside
      simp only [Link.teardown, Function.update_self]
      apply hkeeps.teardown
      intro heq
      subst heq
      obtain ⟨hserving, hretired | hdropped⟩ := hending
      · exact hretired (hkeeps.held (hkeeps.serving connection hserving)).2
      · obtain ⟨_, -, hother⟩ := h side'.other
        exact hother.undropped hdropped
    · simpa [Link.teardown, Function.update_of_ne hside] using hkeeps

theorem keeps_of_reachable {kept : Connection}
    (hkept : ∀ side, preferred ids (orders side) = some kept)
    (hnodup : ∀ side, (orders side).Nodup) (h : (runs ids orders).Reachable s) :
    s.Keeps orders kept := by
  refine h.invariant ?_ (fun s t _ hs hst => hs.step hkept hnodup hst)
  intro s hinit side
  rw [hinit]
  refine ⟨[], rfl, ?_, ?_, ?_, ?_⟩ <;> simp [SessionEnd.Owns, SessionEnd.empty]

/-- With a common choice, both ends keep it whatever the interleaving. -/
theorem agree_of_preferred {kept : Connection}
    (hkept : ∀ side, preferred ids (orders side) = some kept)
    (hnodup : ∀ side, (orders side).Nodup) (h : (runs ids orders).Reachable s)
    (hsettled : s.Settled) : s.Agree := by
  refine ⟨kept, fun side => ?_⟩
  obtain ⟨done, horder, hkeeps⟩ := keeps_of_reachable hkept hnodup h side
  rw [hsettled.1 side, List.append_nil] at horder
  have hmem : kept ∈ orders side := by
    have hpreferred := hkept side
    unfold preferred at hpreferred
    rcases Option.or_eq_some_iff.mp hpreferred with hlast | ⟨-, hlast⟩
    · exact (List.mem_filter.mp (List.mem_of_getLast? hlast)).1
    · exact List.mem_of_getLast? hlast
  exact hkeeps.held (horder ▸ hmem)

/-! ## The choice of each end -/

/-- No session has been torn down: each end holds the preferred connection of what it has
    registered so far. -/
def Undisturbed (ids : Side → NodeId) (orders : Side → List Connection) (s : Link) (side : Side) :
    Prop :=
  ∃ done, orders side = done ++ s.todo side ∧ (s.node side).Owns side done ∧
    (∀ entry, (s.node side).entry = some entry → entry.connection ∈ (s.node side).alive) ∧
    (s.node side).entry.map SessionEntry.connection = preferred ids done

theorem Undisturbed.congr {side : Side} (h : s.Undisturbed ids orders side)
    (htodo : t.todo side = s.todo side) (hnode : t.node side = s.node side) :
    t.Undisturbed ids orders side := by
  unfold Undisturbed
  rw [htodo, hnode]
  exact h

/-- One end registers all its connections while the other end rests. -/
theorem exists_registered (h : (runs ids orders).Reachable s) (side : Side)
    (hside : s.Undisturbed ids orders side) :
    ∃ t, (runs ids orders).Reachable t ∧ t.todo side = [] ∧ t.Undisturbed ids orders side ∧
      t.todo side.other = s.todo side.other ∧ t.node side.other = s.node side.other := by
  induction htodo : s.todo side generalizing s with
  | nil => exact ⟨s, h, htodo, hside, rfl, rfl⟩
  | cons connection rest ih =>
    have hne : side.other ≠ side := by cases side <;> decide
    obtain ⟨done, horder, howns, halive, hentry⟩ := hside
    rw [htodo] at horder
    obtain ⟨halive', hentry'⟩ := SessionEnd.entry_register connection howns halive hentry
    have hnext : (s.register ids side connection rest).Undisturbed ids orders side := by
      refine ⟨done ++ [connection], by simp [Link.register, horder], ?_, ?_, ?_⟩
      · simpa [Link.register] using howns.register
      · simpa [Link.register] using halive'
      · simpa [Link.register] using hentry'
    obtain ⟨t, ht, hempty, hundisturbed, hother, hnode⟩ :=
      ih (h.step (.register side connection rest htodo)) hnext (by simp [Link.register])
    refine ⟨t, ht, hempty, hundisturbed, ?_, ?_⟩
    · rw [hother]
      simp [Link.register, Function.update_of_ne hne]
    · rw [hnode]
      simp [Link.register, Function.update_of_ne hne]

/-- Once everything is registered, the sessions that have to end can be torn down one by one,
    and no table gets a new entry by that. -/
theorem exists_torn_down (h : (runs ids orders).Reachable s) (htodo : ∀ side, s.todo side = []) :
    ∃ t, (runs ids orders).Reachable t ∧ t.Settled ∧
      ∀ side entry, (t.node side).entry = some entry → (s.node side).entry = some entry := by
  induction hsize : (s.node .left).serving.length + (s.node .right).serving.length
    using Nat.strong_induction_on generalizing s with
  | _ size ih =>
    by_cases hending : ∃ side connection, s.Ending side connection
    · obtain ⟨side, connection, hending⟩ := hending
      have hshrinks : ((s.node side).teardown connection).serving.length <
          (s.node side).serving.length := by
        apply List.length_filter_lt_length_iff_exists.mpr
        exact ⟨connection, hending.1, by simp⟩
      have hless : ((s.teardown side connection).node .left).serving.length +
          ((s.teardown side connection).node .right).serving.length < size := by
        cases side <;> simp [Link.teardown] <;> omega
      obtain ⟨t, ht, hsettled, hentries⟩ :=
        ih _ hless (h.step (.teardown side connection hending)) htodo rfl
      refine ⟨t, ht, hsettled, fun side' entry hentry => ?_⟩
      have hmid := hentries side' entry hentry
      by_cases hside : side' = side
      · subst hside
        simp only [Link.teardown, Function.update_self] at hmid
        exact (Option.filter_eq_some_iff.mp hmid).1
      · simpa [Link.teardown, Function.update_of_ne hside] using hmid
    · exact ⟨s, h, ⟨htodo, fun side connection hend => hending ⟨side, connection, hend⟩⟩,
        fun _ _ hentry => hentry⟩

/-- The orders can be registered and the losers closed so that each table holds the
    connection its own order prefers, or none. -/
theorem exists_settled (ids : Side → NodeId) (orders : Side → List Connection) :
    ∃ s, (runs ids orders).Reachable s ∧ s.Settled ∧ ∀ side entry,
      (s.node side).entry = some entry → preferred ids (orders side) = some entry.connection := by
  have hinit : (runs ids orders).Reachable ⟨fun _ => .empty, orders⟩ := .init rfl
  have hundisturbed : ∀ side, Undisturbed ids orders ⟨fun _ => .empty, orders⟩ side := by
    intro side
    refine ⟨[], rfl, ?_, ?_, rfl⟩ <;> simp [SessionEnd.Owns, SessionEnd.empty]
  obtain ⟨s, hs, hsLeft, hleft, hsTodo, hsNode⟩ :=
    exists_registered hinit .left (hundisturbed .left)
  obtain ⟨t, ht, htRight, hright, htTodo, htNode⟩ :=
    exists_registered hs .right ((hundisturbed .right).congr hsTodo hsNode)
  have htodo : ∀ side, t.todo side = [] := by
    intro side
    cases side with
    | left => exact htTodo.trans hsLeft
    | right => exact htRight
  have hkeeps : ∀ side, t.Undisturbed ids orders side := by
    intro side
    cases side with
    | left => exact hleft.congr htTodo htNode
    | right => exact hright
  obtain ⟨u, hu, hsettled, hentries⟩ := exists_torn_down ht htodo
  refine ⟨u, hu, hsettled, fun side entry hentry => ?_⟩
  obtain ⟨done, horder, -, -, hpreferred⟩ := hkeeps side
  rw [htodo side, List.append_nil] at horder
  rw [horder, ← hpreferred, hentries side entry hentry, Option.map_some]

end Link

/-- Two ends that register distinct connections in some orders keep the same connection in
    every run exactly when the preferred connections of their orders coincide: the last
    connection dialed by the smaller node id, or the last of all if that node dialed none. -/
theorem same_connection_kept_iff (ids : Side → NodeId) (orders : Side → List Connection)
    (hnodup : ∀ side, (orders side).Nodup) :
    (∀ s, (Link.runs ids orders).Reachable s → s.Settled → s.Agree) ↔
      ∃ kept, ∀ side, preferred ids (orders side) = some kept := by
  constructor
  · intro h
    obtain ⟨s, hs, hsettled, hentries⟩ := Link.exists_settled ids orders
    obtain ⟨kept, hkept⟩ := h s hs hsettled
    refine ⟨kept, fun side => ?_⟩
    obtain ⟨entry, hentry, rfl⟩ := Option.map_eq_some_iff.mp (hkept side).1
    exact hentries side entry hentry
  · rintro ⟨kept, hkept⟩ s hs hsettled
    exact Link.agree_of_preferred hkept hnodup hs hsettled

/-- Two nodes of which the left one has the smaller id. -/
def sampleIds : Side → NodeId
  | .left => .ofDigits 0 0
  | .right => .ofDigits 1 1

/-- A crossed pair of dials: the ends register it in opposite orders and keep the dial of the
    smaller id. -/
theorem crossed_dials_agree :
    let orders : Side → List Connection := fun
      | .left => [⟨0, .left⟩, ⟨1, .right⟩]
      | .right => [⟨1, .right⟩, ⟨0, .left⟩]
    ∀ s, (Link.runs sampleIds orders).Reachable s → s.Settled → s.Agree := by
  intro orders
  apply (same_connection_kept_iff sampleIds orders ?_).mpr
  · exact ⟨⟨0, .left⟩, fun side => by cases side <;> decide⟩
  · intro side
    cases side <;> decide

/-- Two dials of the same side, registered in opposite orders: neither survives. -/
theorem repeated_dials_disagree :
    let orders : Side → List Connection := fun
      | .left => [⟨0, .left⟩, ⟨1, .left⟩]
      | .right => [⟨1, .left⟩, ⟨0, .left⟩]
    ∃ s, (Link.runs sampleIds orders).Reachable s ∧ s.Settled ∧ ¬ s.Agree := by
  intro orders
  obtain ⟨s, hs, hsettled, hentries⟩ := Link.exists_settled sampleIds orders
  refine ⟨s, hs, hsettled, ?_⟩
  rintro ⟨kept, hkept⟩
  have hpreferred : ∀ side, preferred sampleIds (orders side) = some kept := by
    intro side
    obtain ⟨entry, hentry, rfl⟩ := Option.map_eq_some_iff.mp (hkept side).1
    exact hentries side entry hentry
  have hleft : preferred sampleIds (orders .left) = some ⟨1, .left⟩ := by decide
  have hright : preferred sampleIds (orders .right) = some ⟨0, .left⟩ := by decide
  have hcontra := (hpreferred .left).symm.trans hleft
  rw [← hpreferred .right, hright] at hcontra
  exact absurd hcontra (by decide)

end Radiata
