import Radiata.Spec.DescriptorConverge
import Radiata.Spec.ResourceEncoding
import Radiata.Spec.SyncPageCorrect
import Radiata.Spec.SyncWalk

/-!
# What the anti-entropy driver hands over

For a peer that stays alive every page of an unchanged lane is handed to `send_payload` within a
bounded number of ticks, whatever state the driver is in. The resource lane passes over a page that
cannot be encoded; the membership lane encodes before its cursor moves, so all its pages must encode.

## Key results

- `register_handed_to_peer`: the pages of the register that are handed over
- `descriptors_handed_to_peer`: the pages of the descriptors that are handed over
-/

namespace Radiata

/-! ## What is handed over for a peer -/

theorem reduceOption_cons {α : Type} (a : Option α) (l : List (Option α)) :
    (a :: l).reduceOption = a.toList ++ l.reduceOption := by
  cases a with
  | none => rfl
  | some a => rfl

/-- The payloads that are handed over for a peer. -/
def handedTo (peer : NodeId) (sends : List (NodeId × Bytes)) : List Bytes :=
  (sends.filter fun send => decide (send.1 = peer)).map Prod.snd

theorem handedTo_append (peer : NodeId) (sends sends' : List (NodeId × Bytes)) :
    handedTo peer (sends ++ sends') = handedTo peer sends ++ handedTo peer sends' := by
  simp [handedTo]

theorem nodup_alivePeers (sessions : SortedMap NodeId Bool) : (alivePeers sessions).Nodup := by
  exact sessions.nodup_keys.sublist (List.Sublist.map Prod.fst List.filter_sublist)

theorem handedTo_eq_nil {peer : NodeId} {sends : List (NodeId × Bytes)}
    (h : ∀ send ∈ sends, send.1 ≠ peer) : handedTo peer sends = [] := by
  rw [handedTo, List.map_eq_nil_iff, List.filter_eq_nil_iff]
  intro send hsend
  simp [h send hsend]

/-- Of what is handed over for all peers a peer has its own. -/
theorem handedTo_flatMap {peers : List NodeId} (hnodup : peers.Nodup) {peer : NodeId}
    (hmem : peer ∈ peers) {push : NodeId → List (NodeId × Bytes)}
    (hown : ∀ other, ∀ send ∈ push other, send.1 = other) :
    handedTo peer (peers.flatMap push) = handedTo peer (push peer) := by
  induction peers with
  | nil => cases hmem
  | cons other peers ih =>
    rw [List.nodup_cons] at hnodup
    rw [List.flatMap_cons, handedTo_append]
    by_cases hsame : other = peer
    · -- the others are not this peer
      rw [hsame] at hnodup ⊢
      have hothers : handedTo peer (peers.flatMap push) = [] := by
        apply handedTo_eq_nil
        intro send hsend
        obtain ⟨another, hanother, hpush⟩ := List.mem_flatMap.mp hsend
        rw [hown another send hpush]
        intro heq
        rw [heq] at hanother
        exact hnodup.1 hanother
      rw [hothers, List.append_nil]
    · have hnone : handedTo peer (push other) = [] := by
        apply handedTo_eq_nil
        intro send hsend
        rw [hown other send hsend]
        exact hsame
      have hrest : peer ∈ peers := (List.mem_cons.mp hmem).resolve_left (Ne.symm hsame)
      rw [hnone, List.nil_append, ih hnodup.2 hrest]

theorem handedTo_singleton (peer : NodeId) (payload : Bytes) :
    handedTo peer [(peer, payload)] = [payload] := by
  simp [handedTo]

section Lanes

variable [DefaultHasher] [DnsName]

/-! ## The resource lane -/

/-- A page whose payload is encoded. -/
def resourceEncodes (page : SyncPage ResourceRecord) : Bool := (resourcePayload page).isOk

/-- What the ticks of a driver hand over while the register does not change. -/
def resourceRun (scan : List (Bytes × Bytes)) :
    PageCursor → List (SortedMap NodeId Bool) → List (NodeId × Bytes)
  | _, [] => []
  | cursor, sessions :: rest =>
    (resourceSyncTick sessions scan cursor).sends ++
      resourceRun scan (resourceSyncTick sessions scan cursor).state rest

/-- The pages of the register in the payloads that are handed over for a peer. -/
def resourcePagesTo (peer : NodeId) (sends : List (NodeId × Bytes)) : List (SyncPage ResourceRecord) :=
  (handedTo peer sends).filterMap fun payload => (acceptResourcePage [payload]).toOption

variable {scan : List (Bytes × Bytes)}

variable {page : SyncPage ResourceRecord}

theorem resourceSyncTick_state {sessions : SortedMap NodeId Bool} {cursor : PageCursor}
    (hpeers : alivePeers sessions ≠ [])
    (hpage : emitted resourcePages scan cursor.page = .ok page) :
    (resourceSyncTick sessions scan cursor).state =
      cursor.after resourcePages (peersFingerprint (alivePeers sessions)) page := by
  have hemit : SyncPage.emit resourcePages scan cursor.page defaultPageLimit = .ok page := hpage
  simp only [resourceSyncTick, if_neg hpeers, hemit, PageCursor.after]
  split
  · cases resourcePayload page <;> rfl
  · rfl

variable {peer : NodeId}

/-- The pages that one tick hands over for a peer. -/
theorem resourceSyncTick_sends (hhosts : FoldedHosts) {sessions : SortedMap NodeId Bool}
    {cursor : PageCursor} (hpeer : peer ∈ alivePeers sessions)
    (hpage : emitted resourcePages scan cursor.page = .ok page) :
    resourcePagesTo peer (resourceSyncTick sessions scan cursor).sends =
      (cursor.taken resourcePages (peersFingerprint (alivePeers sessions)) page).toList.filter
        resourceEncodes := by
  have hemit : SyncPage.emit resourcePages scan cursor.page defaultPageLimit = .ok page := hpage
  simp only [resourceSyncTick, if_neg (List.ne_nil_of_mem hpeer), hemit, PageCursor.taken]
  split
  · cases hpayload : resourcePayload page with
    | error error => simp [resourcePagesTo, handedTo, resourceEncodes, hpayload, Except.isOk,
        Except.toBool]
    | ok payload =>
      have hread : acceptResourcePage [payload] = .ok page :=
        acceptResourcePage_of_payload hhosts hpayload
      have hpush : handedTo peer ((alivePeers sessions).map fun other => (other, payload)) =
          [payload] := by
        rw [List.map_eq_flatMap, handedTo_flatMap (nodup_alivePeers sessions) hpeer (by simp),
          handedTo_singleton]
      rw [resourcePagesTo, hpush]
      simp [resourceEncodes, hpayload, hread, Except.toOption, Except.isOk, Except.toBool]
  · rfl

omit [DefaultHasher] in
theorem resourcePagesTo_append (peer : NodeId) (sends sends' : List (NodeId × Bytes)) :
    resourcePagesTo peer (sends ++ sends') =
      resourcePagesTo peer sends ++ resourcePagesTo peer sends' := by
  simp [resourcePagesTo, handedTo_append]

/-- The pages handed over are those that the cursor takes, but for those that are not encoded. -/
theorem resourcePagesTo_run (hhosts : FoldedHosts) (hordered : KeyOrdered scan)
    (hdecodes : Decodes resourcePages scan) (cursor : PageCursor)
    (ticks : List (SortedMap NodeId Bool))
    (hpeer : ∀ sessions ∈ ticks, peer ∈ alivePeers sessions) :
    resourcePagesTo peer (resourceRun scan cursor ticks) =
      (cursor.walk resourcePages scan
        (ticks.map fun sessions => peersFingerprint (alivePeers sessions))).reduceOption.filter
          resourceEncodes := by
  induction ticks generalizing cursor with
  | nil => rfl
  | cons sessions ticks ih =>
    rw [List.forall_mem_cons] at hpeer
    obtain ⟨pages, hrow, -, -⟩ := exists_pageRow hordered hdecodes cursor.page
    obtain ⟨page, rest, hpage, -, -⟩ := hrow.split
    have hsends := resourceSyncTick_sends hhosts hpeer.1 hpage
    have hstate := resourceSyncTick_state (List.ne_nil_of_mem hpeer.1) hpage
    rw [resourceRun, hstate, List.map_cons, PageCursor.walk_cons hpage, resourcePagesTo_append, hsends,
      ih _ hpeer.2, reduceOption_cons, List.filter_append]

/-- Whatever state the driver of the register is in, every page of an unchanged register is handed
    over for a peer that stays alive, in order and within a bounded number of ticks, but for the
    pages whose payload is not encoded; and nothing else is, round by round. -/
theorem register_handed_to_peer (hhosts : FoldedHosts) (hordered : KeyOrdered scan)
    (hdecodes : Decodes resourcePages scan) {peer : NodeId} (cursor : PageCursor)
    {ticks : List (SortedMap NodeId Bool)} (hpeer : ∀ sessions ∈ ticks, peer ∈ alivePeers sessions)
    (hlength : 2 * (scan.length / 16 + 1) + 32 ≤ ticks.length) :
    ∃ pages, PageRow resourcePages scan none pages ∧
      pages.flatMap SyncPage.records = recordsOf resourcePages scan ∧
      pages.filter resourceEncodes <:+: resourcePagesTo peer (resourceRun scan cursor ticks) ∧
      ∃ started rounds, resourcePagesTo peer (resourceRun scan cursor ticks) <+:
          (started ++ (List.replicate rounds pages).flatten).filter resourceEncodes ∧
        Remaining resourcePages scan cursor.page started := by
  obtain ⟨pages, hrow, hrecords, hcovers, started, rounds, hprefix, hstarted⟩ :=
    cursor.walk_covers hordered hdecodes
      (ticks.map fun sessions => peersFingerprint (alivePeers sessions))
      (by rwa [List.length_map])
  rw [resourcePagesTo_run hhosts hordered hdecodes cursor ticks hpeer]
  exact ⟨pages, hrow, hrecords, hcovers.filter _, started, rounds, hprefix.filter _, hstarted⟩

/-! ## The membership lane -/

/-- A page whose payload is encoded. -/
def membershipEncodes (page : SyncPage NodeDescriptor) : Bool := (membershipPayload page).isOk

/-- What the ticks of a driver hand over. -/
def membershipRun : SyncCursor → List SyncInputs → List (NodeId × Bytes)
  | _, [] => []
  | cursor, inputs :: rest =>
    (syncTick inputs cursor).sends ++ membershipRun (syncTick inputs cursor).state rest

/-- The pages of descriptors in the payloads that are handed over for a peer. -/
def membershipPagesTo (peer : NodeId) (sends : List (NodeId × Bytes)) :
    List (SyncPage NodeDescriptor) :=
  (handedTo peer sends).filterMap fun payload =>
    (acceptMembershipPage [payload]).toOption.join

/-- What a tick finds is in order: the cluster has members, the snapshot if there is one is
    encoded, and the descriptors are as given. -/
structure SyncInputs.Ready (inputs : SyncInputs) (scan : List (Bytes × Bytes)) : Prop where
  published : inputs.published = .ok ()
  hasMembers : inputs.hasMembers = .ok true
  snapshot : ∃ found, inputs.snapshot = .ok found ∧ ∀ snapshot ∈ found, ∃ encoded payload,
    snapshot.encoded = .ok encoded ∧ SyncPayload.encode (.snapshot encoded) = .ok payload
  scan : inputs.scan = scan

/-- The fingerprint of the alive peers that a tick finds. -/
def SyncInputs.peersFp (inputs : SyncInputs) : UInt64 := peersFingerprint (alivePeers inputs.sessions)

variable {scan : List (Bytes × Bytes)} {page : SyncPage NodeDescriptor}

variable {inputs : SyncInputs} {cursor : SyncCursor}

/-- A tick that encodes its page pushes it. -/
theorem syncTick_of_encodes (h : inputs.Ready scan)
    (hpage : emitted membershipPages scan cursor.pages.page = .ok page)
    (hencodes : membershipEncodes page = true) :
    ∃ payload found, membershipPayload page = .ok payload ∧
      (∀ snapshot ∈ found, ∃ encoded payload, snapshot.encoded = .ok encoded ∧
        SyncPayload.encode (.snapshot encoded) = .ok payload) ∧
      syncTick inputs cursor = pushTick (alivePeers inputs.sessions) page payload found cursor := by
  obtain ⟨found, hfound, hsnapshots⟩ := h.snapshot
  have hemit : SyncPage.emit membershipPages inputs.scan cursor.pages.page defaultPageLimit =
      .ok page := by
    rw [h.scan]
    exact hpage
  cases hpayload : membershipPayload page with
  | error error =>
    rw [membershipEncodes, hpayload] at hencodes
    cases hencodes
  | ok payload =>
    refine ⟨payload, found, rfl, hsnapshots, ?_⟩
    simp only [syncTick, h.published, h.hasMembers, hfound, hemit, hpayload, Result.ok_bind]
    rfl

variable {found : Option FoundSnapshot}

omit [DefaultHasher] [DnsName] in
/-- The snapshot that is due, if any, is a payload without a page. -/
theorem snapshotPayload_eq_ok (cursor : SyncCursor) (h : ∀ snapshot ∈ found, ∃ encoded payload,
      snapshot.encoded = .ok encoded ∧ SyncPayload.encode (.snapshot encoded) = .ok payload) :
    ∃ bytes, cursor.snapshotPayload found = .ok bytes ∧
      ∀ payload ∈ bytes, ∃ encoded, SyncPayload.encode (.snapshot encoded) = .ok payload := by
  cases found with
  | none => exact ⟨none, rfl, by simp⟩
  | some snapshot =>
    obtain ⟨encoded, payload, hencoded, hpayload⟩ := h snapshot rfl
    simp only [SyncCursor.snapshotPayload]
    by_cases hdue : cursor.snapshotDue snapshot = true
    · refine ⟨some payload, ?_, ?_⟩
      · rw [if_pos hdue, hencoded, Result.ok_bind, hpayload]
        rfl
      · intro bytes hbytes
        cases hbytes
        exact ⟨encoded, hpayload⟩
    · exact ⟨none, by rw [if_neg hdue], by simp⟩

omit [DefaultHasher] in
theorem membershipPagesTo_append (peer : NodeId) (sends sends' : List (NodeId × Bytes)) :
    membershipPagesTo peer (sends ++ sends') =
      membershipPagesTo peer sends ++ membershipPagesTo peer sends' := by
  simp [membershipPagesTo, handedTo_append]

omit [DefaultHasher] in
theorem membershipPagesTo_snapshot {bytes : Option Bytes}
    (h : ∀ payload ∈ bytes, ∃ encoded, SyncPayload.encode (.snapshot encoded) = .ok payload) :
    membershipPagesTo peer (bytes.map fun payload => (peer, payload)).toList = [] := by
  cases bytes with
  | none => rfl
  | some payload =>
    obtain ⟨encoded, hencoded⟩ := h payload rfl
    rw [Option.map_some, Option.toList_some, membershipPagesTo, handedTo_singleton]
    simp [acceptMembershipPage_of_snapshot hencoded, Except.toOption]

omit [DefaultHasher] [DnsName] in
theorem pages_snapshotTurn (cursor : SyncCursor) (found : Option FoundSnapshot) :
    (cursor.snapshotTurn found).pages = cursor.pages := by
  cases found with
  | none => rfl
  | some snapshot =>
    simp only [SyncCursor.snapshotTurn]
    split <;> rfl

/-- A push moves the cursor of the pages, and hands over the snapshot and the page that are due. -/
theorem pushTick_eq (peers : List NodeId) (page : SyncPage NodeDescriptor) (payload : Bytes)
    (cursor : SyncCursor) (h : ∀ snapshot ∈ found, ∃ encoded payload,
      snapshot.encoded = .ok encoded ∧ SyncPayload.encode (.snapshot encoded) = .ok payload) :
    ∃ bytes : Option Bytes,
      (∀ payload ∈ bytes, ∃ encoded, SyncPayload.encode (.snapshot encoded) = .ok payload) ∧
      (pushTick peers page payload found cursor).state.pages =
        cursor.pages.after membershipPages (peersFingerprint peers) page ∧
      (pushTick peers page payload found cursor).sends = peers.flatMap fun peer =>
        (bytes.map fun bytes => (peer, bytes)).toList ++
          (cursor.pages.taken membershipPages (peersFingerprint peers) page).toList.map fun _ =>
            (peer, payload) := by
  obtain ⟨bytes, hbytes, hsnapshots⟩ := snapshotPayload_eq_ok { cursor with
    pages := cursor.pages.turn (page.fingerprint membershipPages) (peersFingerprint peers)
      page.cursor } h
  refine ⟨bytes, hsnapshots, ?_, ?_⟩
  · by_cases hdue : cursor.pages.due (page.fingerprint membershipPages) (peersFingerprint peers) = true
    · simp only [pushTick, hbytes, hdue, if_true, pages_snapshotTurn, PageCursor.after]
    · simp only [pushTick, hbytes, hdue, if_false, pages_snapshotTurn, PageCursor.after,
        Bool.false_eq_true]
  · by_cases hdue : cursor.pages.due (page.fingerprint membershipPages) (peersFingerprint peers) = true
    · simp [pushTick, hbytes, hdue, PageCursor.taken]
    · simp [pushTick, hbytes, hdue, PageCursor.taken]

/-- A tick that encodes its page moves the cursor of the pages. -/
theorem syncTick_pages (h : inputs.Ready scan)
    (hpage : emitted membershipPages scan cursor.pages.page = .ok page)
    (hencodes : membershipEncodes page = true) :
    (syncTick inputs cursor).state.pages =
      cursor.pages.after membershipPages inputs.peersFp page := by
  obtain ⟨payload, found, hpayload, hsnapshots, htick⟩ := syncTick_of_encodes h hpage hencodes
  obtain ⟨-, -, hstate, -⟩ := pushTick_eq (alivePeers inputs.sessions) page payload cursor hsnapshots
  rw [htick, hstate]
  rfl

/-- The pages that a tick hands over for a peer if it encodes its page. -/
theorem syncTick_hands (hhosts : FoldedHosts) (h : inputs.Ready scan)
    (hpeer : peer ∈ alivePeers inputs.sessions)
    (hpage : emitted membershipPages scan cursor.pages.page = .ok page)
    (hencodes : membershipEncodes page = true) :
    membershipPagesTo peer (syncTick inputs cursor).sends =
      (cursor.pages.taken membershipPages inputs.peersFp page).toList := by
  obtain ⟨payload, found, hpayload, hsnapshots, htick⟩ := syncTick_of_encodes h hpage hencodes
  obtain ⟨bytes, hbytes, -, hsends⟩ :=
    pushTick_eq (alivePeers inputs.sessions) page payload cursor hsnapshots
  rw [htick, hsends, SyncInputs.peersFp]
  have hown : ∀ other : NodeId, ∀ send ∈ (bytes.map fun bytes => (other, bytes)).toList ++
      (cursor.pages.taken membershipPages (peersFingerprint (alivePeers inputs.sessions))
        page).toList.map (fun _ => (other, payload)), send.1 = other := by
    intro other send hsend
    obtain hsend | hsend := List.mem_append.mp hsend
    · obtain ⟨sent, -, rfl⟩ := Option.map_eq_some_iff.mp (Option.mem_toList.mp hsend)
      rfl
    · obtain ⟨taken, -, rfl⟩ := List.mem_map.mp hsend
      rfl
  have hpages : ∀ taken : Option (SyncPage NodeDescriptor), (∀ sent ∈ taken, sent = page) →
      membershipPagesTo peer (taken.toList.map fun _ => (peer, payload)) = taken.toList := by
    intro taken htaken
    cases taken with
    | none => rfl
    | some sent =>
      obtain rfl := htaken sent rfl
      rw [Option.toList_some, List.map_singleton, membershipPagesTo, handedTo_singleton]
      simp [acceptMembershipPage_of_payload hhosts hpayload, Except.toOption]
  rw [membershipPagesTo, handedTo_flatMap (nodup_alivePeers inputs.sessions) hpeer hown,
    ← membershipPagesTo, membershipPagesTo_append, membershipPagesTo_snapshot hbytes,
    List.nil_append]
  apply hpages
  intro sent hsent
  unfold PageCursor.taken at hsent
  split at hsent
  · cases hsent
    rfl
  · cases hsent

/-! ## Runs of the membership lane -/

section Runs

variable {scan : List (Bytes × Bytes)} {pages : List (SyncPage NodeDescriptor)}

variable {inputs : List SyncInputs}

variable {state : Rounds.State (SyncPage NodeDescriptor)}

/-- A tick before a page that is encoded is a turn of the walker. -/
theorem syncTick_turn (hrow : PageRow membershipPages scan none pages) {cursor : SyncCursor}
    (hwalks : cursor.pages.Walks membershipPages scan state) {tick : SyncInputs}
    (hready : tick.Ready scan)
    (hnext : ∀ page ∈ (state.rest ++ pages).head?, membershipEncodes page = true) :
    ∃ kick, (syncTick tick cursor).state.pages.Walks membershipPages scan
        (Rounds.turn pages 32 state kick).2 ∧
      (FoldedHosts → ∀ peer ∈ alivePeers tick.sessions,
        membershipPagesTo peer (syncTick tick cursor).sends =
          (Rounds.turn pages 32 state kick).1.toList) := by
  obtain ⟨page, hpage, state', hturn, hafter⟩ := PageCursor.turn_refines hrow hwalks tick.peersFp
  have hencodes : membershipEncodes page = true :=
    hnext page (PageCursor.Walks.next hrow hwalks hpage)
  refine ⟨cursor.pages.kicked membershipPages tick.peersFp page, ?_, ?_⟩
  · rw [hturn, syncTick_pages hready hpage hencodes]
    exact hafter
  · intro hhosts peer hpeer
    rw [hturn, syncTick_hands hhosts hready hpeer hpage hencodes]

/-- Ticks before pages that are all encoded are a run of the walker. -/
theorem membershipPagesTo_run (hhosts : FoldedHosts)
    (hrow : PageRow membershipPages scan none pages)
    (hpages : ∀ page ∈ pages, membershipEncodes page = true) {peer : NodeId} (cursor : SyncCursor)
    (hwalks : cursor.pages.Walks membershipPages scan state)
    (hstarted : ∀ page ∈ state.rest, membershipEncodes page = true)
    (hready : ∀ tick ∈ inputs, tick.Ready scan)
    (hpeer : ∀ tick ∈ inputs, peer ∈ alivePeers tick.sessions) :
    ∃ kicks, kicks.length = inputs.length ∧ membershipPagesTo peer (membershipRun cursor inputs) =
      (Rounds.run pages 32 state kicks).reduceOption := by
  induction inputs generalizing cursor state with
  | nil => exact ⟨[], rfl, rfl⟩
  | cons tick inputs ih =>
    rw [List.forall_mem_cons] at hready hpeer
    have hnext : ∀ page ∈ (state.rest ++ pages).head?, membershipEncodes page = true := by
      intro page hpage
      obtain hmem | hmem := List.mem_append.mp (List.mem_of_mem_head? hpage)
      · exact hstarted page hmem
      · exact hpages page hmem
    obtain ⟨kick, hafter, hhanded⟩ := syncTick_turn hrow hwalks hready.1 hnext
    obtain ⟨kicks, hlength, hrun⟩ := ih (syncTick tick cursor).state hafter
      (fun page hpage => (Rounds.mem_rest_turn hpage).elim (hstarted page) (hpages page))
      hready.2 hpeer.2
    refine ⟨kick :: kicks, by simp [hlength], ?_⟩
    rw [membershipRun, membershipPagesTo_append, hhanded hhosts peer hpeer.1, hrun, Rounds.run,
      reduceOption_cons]

/-- Where every page is encoded, every page of unchanged descriptors is handed over for a peer that
    stays alive, in order and within a bounded number of ticks. -/
theorem descriptors_handed_to_peer (hhosts : FoldedHosts) (hordered : KeyOrdered scan)
    (hdecodes : Decodes membershipPages scan)
    (hencodes : ∀ cursor page, emitted membershipPages scan cursor = .ok page →
      membershipEncodes page = true) {peer : NodeId} (cursor : SyncCursor) {inputs : List SyncInputs}
    (hready : ∀ tick ∈ inputs, tick.Ready scan)
    (hpeer : ∀ tick ∈ inputs, peer ∈ alivePeers tick.sessions)
    (hlength : 2 * (scan.length / 16 + 1) + 32 ≤ inputs.length) :
    ∃ pages, PageRow membershipPages scan none pages ∧
      pages.flatMap SyncPage.records = recordsOf membershipPages scan ∧
      pages <:+: membershipPagesTo peer (membershipRun cursor inputs) := by
  obtain ⟨pages, hrow, hrecords, hcount⟩ := exists_pageRow hordered hdecodes none
  rw [behind_none] at hrecords
  obtain ⟨state, hwalks, hrest⟩ := cursor.pages.exists_walks hordered hdecodes
  obtain ⟨kicks, hkicks, hrun⟩ := membershipPagesTo_run hhosts hrow
    (hrow.forall_mem hencodes) cursor hwalks (hwalks.remaining.forall_mem hencodes) hready hpeer
  refine ⟨pages, hrow, hrecords, ?_⟩
  rw [hrun]
  exact Rounds.taken_covers hrow.ne_nil state kicks (by omega)

end Runs

end Lanes

/-! ## Small catalogs -/

/-- A hasher that counts what is written. -/
@[reducible] def DefaultHasher.counting : DefaultHasher := ⟨fun written => UInt64.ofNat written.length⟩

/-- The table of one live session. -/
def sampleSessions : SortedMap NodeId Bool := SortedMap.empty.insert sampleNode true

/-- A register of one record. -/
theorem exists_sampleRegister :
    letI := DnsName.hostNames
    ∃ record scan, KeyOrdered scan ∧ Decodes resourcePages scan ∧ scan.length = 1 ∧
      recordsOf resourcePages scan = [record] := by
  let _ := DnsName.hostNames
  obtain ⟨record, bytes, -, -, hencode⟩ := exists_sampleEncoding
  have hdecode : resourcePages.decodeRecord bytes = .ok record :=
    ResourceRecord.decode_encode foldedHosts_hostNames hencode
  refine ⟨record, [([0], bytes)], by simp [KeyOrdered], ?_, rfl, ?_⟩
  · intro entry hentry
    rw [List.mem_singleton.mp hentry]
    exact ⟨record, hdecode⟩
  · simp [recordsOf, selected, hdecode, Except.toOption]

theorem sampleNode_mem_sampleSessions : sampleNode ∈ alivePeers sampleSessions := by decide

/-- A register of one record is handed over by a driver that starts. -/
theorem register_handed_sample :
    letI := DnsName.hostNames
    letI := DefaultHasher.counting
    ∃ record scan pages, PageRow resourcePages scan none pages ∧
      pages.flatMap SyncPage.records = [record] ∧
      pages.filter resourceEncodes <:+:
        resourcePagesTo sampleNode (resourceRun scan .start (List.replicate 34 sampleSessions)) := by
  let _ := DnsName.hostNames
  let _ := DefaultHasher.counting
  obtain ⟨record, scan, hordered, hdecodes, hone, hrecord⟩ := exists_sampleRegister
  have hpeer : ∀ sessions ∈ List.replicate 34 sampleSessions, sampleNode ∈ alivePeers sessions := by
    intro sessions hsessions
    rw [List.eq_of_mem_replicate hsessions]
    exact sampleNode_mem_sampleSessions
  obtain ⟨pages, hrow, hrecords, hhanded, -⟩ :=
    register_handed_to_peer foldedHosts_hostNames hordered hdecodes .start hpeer (by simp [hone])
  exact ⟨record, scan, pages, hrow, hrecords.trans hrecord, hhanded⟩

/-- A tick that finds members, one session and no snapshot. -/
def sampleTick (scan : List (Bytes × Bytes)) : SyncInputs :=
  ⟨sampleSessions, .ok (), .ok true, .ok none, scan⟩

theorem ready_sampleTick (scan : List (Bytes × Bytes)) : (sampleTick scan).Ready scan :=
  ⟨rfl, rfl, ⟨none, rfl, by simp⟩, rfl⟩

/-- The page of the sample descriptor, and the page behind it. -/
def sampleDescriptorPage (present : Bool) : @SyncPage (@NodeDescriptor .hostNames) :=
  ⟨if present then [sampleDescriptor 1 false] else [], none, by cases present <;> decide,
    by cases present <;> decide⟩

/-- A catalog of one descriptor is handed over by a driver that starts. -/
theorem descriptors_handed_sample :
    letI := DnsName.hostNames
    letI := DefaultHasher.counting
    ∃ scan pages, PageRow membershipPages scan none pages ∧
      pages.flatMap SyncPage.records = [sampleDescriptor 1 false] ∧
      pages <:+: membershipPagesTo sampleNode
        (membershipRun .start (List.replicate 34 (sampleTick scan))) := by
  let _ := DnsName.hostNames
  let _ := DefaultHasher.counting
  obtain ⟨bytes, hencode⟩ := exists_sampleBytes (sampleDescriptor 1 false) (List.mem_cons_self ..)
  have hdecode : membershipPages.decodeRecord bytes = .ok (sampleDescriptor 1 false) :=
    NodeDescriptor.decode_encode foldedHosts_hostNames hencode
  have hdecodes : Decodes membershipPages [([0], bytes)] := by
    intro entry hentry
    rw [List.mem_singleton.mp hentry]
    exact ⟨_, hdecode⟩
  have hencodes : ∀ cursor page, emitted membershipPages [([0], bytes)] cursor = .ok page →
      membershipEncodes page = true := by
    intro cursor page hpage
    have hemitted : emitted membershipPages [([0], bytes)] cursor =
        .ok (sampleDescriptorPage (!skipped cursor [0])) := by
      unfold emitted SyncPage.emit scanPaged scanLoop
      cases skipped cursor [0] with
      | true => rfl
      | false =>
        rw [if_neg (by simp), hdecode]
        rfl
    obtain rfl := Except.ok.inj (hemitted.symm.trans hpage)
    cases skipped cursor [0] <;> decide +kernel
  have hready : ∀ tick ∈ List.replicate 34 (sampleTick [([0], bytes)]), tick.Ready [([0], bytes)] := by
    intro tick htick
    rw [List.eq_of_mem_replicate htick]
    exact ready_sampleTick _
  have hpeer : ∀ tick ∈ List.replicate 34 (sampleTick [([0], bytes)]),
      sampleNode ∈ alivePeers tick.sessions := by
    intro tick htick
    rw [List.eq_of_mem_replicate htick]
    exact sampleNode_mem_sampleSessions
  obtain ⟨pages, hrow, hrecords, hhanded⟩ := descriptors_handed_to_peer foldedHosts_hostNames
    (by simp [KeyOrdered]) hdecodes hencodes .start hready hpeer (by simp)
  refine ⟨[([0], bytes)], pages, hrow, ?_, hhanded⟩
  rw [hrecords]
  simp [recordsOf, selected, hdecode, Except.toOption]

end Radiata
