import Radiata.ForStd.SortedMap
import Radiata.Native.Packet
import Radiata.Native.SyncPage

/-!
# The anti-entropy driver

`resource_sync_tick` (`src/resource/sync.rs`), `sync_tick` (`src/membership/sync.rs`) and what they
share (`src/sync_common.rs`): one tick of the driver pages the local records from a cursor and
pushes the page over every authenticated session. A round starts when the first page or the set of
peers has changed or after some quiet ticks; the pages in the middle of a round are always sent.

A payload is handed to `send_payload` as a fire-and-forget request. What becomes of the request (a
full routing queue drops it, the peer may refuse it, its pump may fail) is not part of the driver.
-/

namespace Radiata

variable [DefaultHasher]

/-! ## Peers -/

/-- `alive_peers`: the peers whose session is alive, in the order of the table. -/
def alivePeers (sessions : SortedMap NodeId Bool) : List NodeId :=
  (sessions.toList.filter Prod.snd).map Prod.fst

/-- `peers_fingerprint` -/
def peersFingerprint (peers : List NodeId) : UInt64 :=
  DefaultHasher.finish (.size peers.length :: peers.map fun peer => .text peer.asStr)

/-! ## Bodies -/

def maxSyncBytes : Nat := 256 * 1024

def maxSyncChunks : Nat := 4096

/-- The loop of `drain_body` over the chunks that are left. -/
def drainChunks (context : String) : List Bytes → Nat → Bytes → Result Bytes
  | [], _, bytes => .ok bytes
  | chunk :: rest, chunks, bytes =>
    if maxSyncChunks < chunks + 1 ∨ maxSyncBytes < bytes.length + chunk.length then
      .error (.resourceExhausted context)
    else drainChunks context rest (chunks + 1) (bytes ++ chunk)

/-- `drain_body` -/
def drainBody (chunks : List Bytes) (context : String) : Result Bytes :=
  drainChunks context chunks 0 []

/-! ## Cursors -/

/-- `ResourceSyncCursor`, and the part of `SyncCursor` about pages. -/
structure PageCursor where
  pageFingerprint : UInt64
  peersFingerprint : UInt64
  ticksSinceSend : UInt32
  page : Option Bytes
  deriving DecidableEq

/-- `RESOURCE_PAGE_RESEND_TICKS` and `PAGE_RESEND_TICKS` -/
def pageResendTicks : UInt32 := 32

/-- `u32::saturating_add(1)` -/
def tickAfter (ticks : UInt32) : UInt32 := if ticks = 0xFFFFFFFF then ticks else ticks + 1

namespace PageCursor

/-- The cursor of a driver that has not sent anything. -/
def start : PageCursor := ⟨0, 0, 0, none⟩

/-- Whether a tick sends its page. -/
def due (cursor : PageCursor) (pageFingerprint peersFingerprint : UInt64) : Bool :=
  match cursor.page with
  | none =>
    pageFingerprint != cursor.pageFingerprint || peersFingerprint != cursor.peersFingerprint ||
      decide (pageResendTicks ≤ cursor.ticksSinceSend)
  | some _ => true

/-- The cursor after the decision of a tick: it moves if the page is sent, and the fingerprint of
    a page is kept at the start of a round only. -/
def turn (cursor : PageCursor) (pageFingerprint peersFingerprint : UInt64) (next : Option Bytes) :
    PageCursor where
  pageFingerprint := if cursor.page.isNone then pageFingerprint else cursor.pageFingerprint
  peersFingerprint := peersFingerprint
  ticksSinceSend := cursor.ticksSinceSend
  page := if cursor.due pageFingerprint peersFingerprint then next else cursor.page

/-- A page was sent. -/
def sent (cursor : PageCursor) : PageCursor := { cursor with ticksSinceSend := 0 }

/-- Nothing was due. -/
def rested (cursor : PageCursor) : PageCursor :=
  { cursor with ticksSinceSend := tickAfter cursor.ticksSinceSend }

end PageCursor

/-- What a tick answers, what it hands to `send_payload`, and the state it leaves. -/
structure Ticked (σ : Type) where
  answer : Result Unit
  sends : List (NodeId × Bytes)
  state : σ

section Lanes

variable [DnsName]

/-! ## The resource lane -/

/-- The payload of a page of the resource register. -/
def resourcePayload (page : SyncPage ResourceRecord) : Result Bytes := do
  encodeResourcePayload (← page.encode resourcePages)

/-- `resource_sync_tick` over the entries of the register. The page is encoded after the cursor
    has moved. -/
def resourceSyncTick (sessions : SortedMap NodeId Bool) (scan : List (Bytes × Bytes))
    (cursor : PageCursor) : Ticked PageCursor :=
  let peers := alivePeers sessions
  if peers = [] then ⟨.ok (), [], cursor⟩
  else
    match SyncPage.emit resourcePages scan cursor.page defaultPageLimit with
    | .error error => ⟨.error error, [], cursor⟩
    | .ok page =>
      let pageFp := page.fingerprint resourcePages
      let peersFp := peersFingerprint peers
      let turned := cursor.turn pageFp peersFp page.cursor
      if cursor.due pageFp peersFp then
        match resourcePayload page with
        | .error error => ⟨.error error, [], turned.sent⟩
        | .ok payload => ⟨.ok (), peers.map fun peer => (peer, payload), turned.sent⟩
      else ⟨.ok (), [], turned.rested⟩

/-- The page that `ResourceSyncConsumer::accept` applies. -/
def acceptResourcePage (chunks : List Bytes) : Result (SyncPage ResourceRecord) := do
  let bytes ← drainBody chunks "resource sync body"
  SyncPage.decode resourcePages (← decodeResourcePayload bytes)

/-! ## The membership lane -/

/-- `SyncCursor` -/
structure SyncCursor where
  snapshotRev : UInt64
  ticksSinceSnapshotSend : UInt32
  pages : PageCursor
  deriving DecidableEq

/-- `SNAPSHOT_RESEND_TICKS` -/
def snapshotResendTicks : UInt32 := 8

/-- The snapshot that a tick finds: its revision and its encoding. -/
structure FoundSnapshot where
  revision : UInt64
  encoded : Result Bytes

/-- What `sync_tick` finds before it pages. -/
structure SyncInputs where
  sessions : SortedMap NodeId Bool
  /-- The outcome of `ensure_local_descriptor`. -/
  published : Result Unit
  /-- `has_more_than_bindings(store, 1)` -/
  hasMembers : Result Bool
  /-- The snapshot of `refresh_issuer_snapshot`, or the latest that is stored. -/
  snapshot : Result (Option FoundSnapshot)
  /-- The entries of the descriptors. -/
  scan : List (Bytes × Bytes)

/-- The payload of a page of descriptors. -/
def membershipPayload (page : SyncPage NodeDescriptor) : Result Bytes := do
  SyncPayload.encode (.page (← page.encode membershipPages))

namespace SyncCursor

def start : SyncCursor := ⟨0, 0, .start⟩

/-- The snapshot is sent when its revision has changed and on a slow cadence otherwise. -/
def snapshotDue (cursor : SyncCursor) (snapshot : FoundSnapshot) : Bool :=
  snapshot.revision != cursor.snapshotRev ||
    decide (snapshotResendTicks ≤ cursor.ticksSinceSnapshotSend)

/-- The cursor after the decision about the snapshot. -/
def snapshotTurn (cursor : SyncCursor) : Option FoundSnapshot → SyncCursor
  | none => cursor
  | some snapshot =>
    if cursor.snapshotDue snapshot then
      { cursor with snapshotRev := snapshot.revision, ticksSinceSnapshotSend := 0 }
    else { cursor with ticksSinceSnapshotSend := tickAfter cursor.ticksSinceSnapshotSend }

/-- The payload of the snapshot, if it is due. -/
def snapshotPayload (cursor : SyncCursor) : Option FoundSnapshot → Result (Option Bytes)
  | none => .ok none
  | some snapshot =>
    if cursor.snapshotDue snapshot then do
      return some (← SyncPayload.encode (.snapshot (← snapshot.encoded)))
    else .ok none

end SyncCursor

/-- The part of `sync_tick` after its page and the payload of that are there. -/
def pushTick (peers : List NodeId) (page : SyncPage NodeDescriptor) (payload : Bytes)
    (snapshot : Option FoundSnapshot) (cursor : SyncCursor) : Ticked SyncCursor :=
  let pageFp := page.fingerprint membershipPages
  let peersFp := peersFingerprint peers
  let turned := { cursor with pages := cursor.pages.turn pageFp peersFp page.cursor }
  match turned.snapshotPayload snapshot with
  | .error error => ⟨.error error, [], turned.snapshotTurn snapshot⟩
  | .ok snapshotBytes =>
    let left := turned.snapshotTurn snapshot
    if cursor.pages.due pageFp peersFp then
      ⟨.ok (), peers.flatMap fun peer =>
        (snapshotBytes.map fun bytes => (peer, bytes)).toList ++ [(peer, payload)],
        { left with pages := left.pages.sent }⟩
    else
      ⟨.ok (), peers.flatMap fun peer => (snapshotBytes.map fun bytes => (peer, bytes)).toList,
        { left with pages := left.pages.rested }⟩

/-- `sync_tick`: here the page is encoded before the cursor moves. -/
def syncTick (inputs : SyncInputs) (cursor : SyncCursor) : Ticked SyncCursor :=
  let found : Result (Option (Option FoundSnapshot × SyncPage NodeDescriptor × Bytes)) := do
    inputs.published
    if !(← inputs.hasMembers) then return none
    let snapshot ← inputs.snapshot
    let page ← SyncPage.emit membershipPages inputs.scan cursor.pages.page defaultPageLimit
    return some (snapshot, page, ← membershipPayload page)
  match found with
  | .error error => ⟨.error error, [], cursor⟩
  | .ok none => ⟨.ok (), [], cursor⟩
  | .ok (some (snapshot, page, payload)) =>
    pushTick (alivePeers inputs.sessions) page payload snapshot cursor

/-- The payload that `MembershipSyncConsumer::accept` reads. -/
def acceptSyncPayload (chunks : List Bytes) : Result SyncPayload := do
  SyncPayload.decode (← drainBody chunks "membership sync body")

/-- The page of descriptors that `accept_payload` applies, if the payload is one. -/
def acceptMembershipPage (chunks : List Bytes) : Result (Option (SyncPage NodeDescriptor)) := do
  match ← acceptSyncPayload chunks with
  | .page encoded => return some (← SyncPage.decode membershipPages encoded)
  | .snapshot _ => return none

end Lanes

end Radiata
