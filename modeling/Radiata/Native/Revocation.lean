import Radiata.Native.SessionTable

/-!
# Revocation and sessions

`src/runtime/supervisor.rs`, `src/identity/revocation.rs`, `src/session/driver.rs`: a node with its
identity bindings and revocations, the handshakes under way, the call of `revoke_node` and the
session table. A step is what happens between two suspension points: one read of a snapshot, one
commit, one access to the session table.

The supervisor runs one command at a time. Other operations of the node may bind an identity that
has no binding, and may freeze the store or thaw it. The store is reduced to the two families that
the check and the revocation read, and a handshake to its reads and its admission.
-/

namespace Radiata

/-! ## Sessions of a peer -/

namespace SessionEnd

/-- The table holds a live session. -/
def Live (node : SessionEnd) : Prop :=
  ∃ entry, node.entry = some entry ∧ entry.connection ∈ node.alive

/-- `retire_session`: the entry leaves the table and its flag is cleared. -/
def retireSession (node : SessionEnd) : SessionEnd :=
  { node with entry := none, alive := node.retirePrevious }

end SessionEnd

/-! ## Handshakes -/

/-- The functions of the driver that establish a session: `respond` in both modes,
    `initiate_member` and `join`. -/
inductive HandshakeRoute where
  | respondMember
  | respondJoin
  | dialMember
  | dialJoin
  deriving DecidableEq, Repr

def HandshakeRoute.direction : HandshakeRoute → DialDirection
  | respondMember => .incoming
  | respondJoin => .incoming
  | dialMember => .outgoing
  | dialJoin => .outgoing

def HandshakeRoute.isJoin : HandshakeRoute → Bool
  | respondJoin => true
  | dialJoin => true
  | _ => false

/-- How far a handshake is. -/
inductive HandshakeStage where
  | hello
  /-- The responder has checked the key of the hello. -/
  | screened
  /-- `trusted_binding` has read the binding. -/
  | bound
  /-- The last check of the revocation is passed. -/
  | checked
  /-- The admission was decided on a snapshot. -/
  | committing
  | established
  deriving DecidableEq, Repr

structure HandshakeAttempt where
  route : HandshakeRoute
  peer : NodeId
  key : PublicKey
  connection : Connection
  stage : HandshakeStage
  deriving DecidableEq

/-- The handshake does not look at the revocations again. -/
def HandshakeAttempt.Passed (attempt : HandshakeAttempt) : Prop :=
  attempt.stage = .checked ∨ attempt.stage = .committing ∨ attempt.stage = .established

/-! ## The node -/

/-- Where a call of `revoke_node` is. -/
inductive RevokeStage where
  | idle
  | reading (subject : NodeId) (key : PublicKey)
  | committing (subject : NodeId) (key : PublicKey)
  | rereading (subject : NodeId) (key : PublicKey)
  | retiring (subject : NodeId) (key : PublicKey)
  deriving DecidableEq

structure RevocationNode where
  bindings : NodeId → Option PublicKey
  revocations : NodeId → Option PublicKey
  /-- `is_blocked` -/
  frozen : Bool
  table : NodeId → SessionEnd
  attempts : List HandshakeAttempt
  revoke : RevokeStage
  /-- The calls of `revoke_node` that have returned `Ok`. -/
  answered : List (NodeId × PublicKey)

namespace RevocationNode

/-- A node before its first session, with the bindings it has stored. -/
def start (bindings : NodeId → Option PublicKey) : RevocationNode where
  bindings := bindings
  revocations := fun _ => none
  frozen := false
  table := fun _ => .empty
  attempts := []
  revoke := .idle
  answered := []

def withEnd (s : RevocationNode) (peer : NodeId) (node : SessionEnd) : RevocationNode :=
  { s with table := Function.update s.table peer node }

def bind (s : RevocationNode) (node : NodeId) (key : PublicKey) : RevocationNode :=
  { s with bindings := Function.update s.bindings node (some key) }

/-- The commit of `revoke_binding_ctx` is applied. -/
def record (s : RevocationNode) (subject : NodeId) (key : PublicKey) : RevocationNode :=
  { s with revocations := Function.update s.revocations subject (some key) }

/-- `revoke_node` returns `Ok`. -/
def answer (s : RevocationNode) (subject : NodeId) (key : PublicKey) : RevocationNode :=
  { s with revoke := .idle, answered := (subject, key) :: s.answered }

/-- `is_revoked_ctx` -/
def isRevoked (s : RevocationNode) (subject : NodeId) (key : PublicKey) : Prop :=
  s.revocations subject = some key

/-- The conditions of the commit of `revoke_binding_ctx`: the exact binding is there and no
    revocation is. -/
def Accepts (s : RevocationNode) (subject : NodeId) (key : PublicKey) : Prop :=
  s.bindings subject = some key ∧ s.revocations subject = none

/-- What `revoke_binding_ctx` makes of its first snapshot. -/
def decide (s : RevocationNode) (subject : NodeId) (key : PublicKey) : RevocationNode :=
  match s.bindings subject with
  -- `NotFound`
  | none => { s with revoke := .idle }
  | some bound =>
    -- `Conflict`
    if bound ≠ key then { s with revoke := .idle }
    else
      match s.revocations subject with
      | some revoked => if revoked = key then s.answer subject key else { s with revoke := .idle }
      | none => { s with revoke := .committing subject key }

/-- What it makes of the snapshot after a conflict. -/
def reread (s : RevocationNode) (subject : NodeId) (key : PublicKey) : RevocationNode :=
  if s.revocations subject = some key then s.answer subject key else { s with revoke := .idle }

/-- A handshake goes on. -/
inductive Advances (s : RevocationNode) (attempt : HandshakeAttempt) :
    HandshakeAttempt → RevocationNode → Prop where
  /-- `respond` checks the key of the hello; a join has no other check. -/
  | screenMember : attempt.route = .respondMember → attempt.stage = .hello →
      ¬ s.isRevoked attempt.peer attempt.key →
      Advances s attempt { attempt with stage := .screened } s
  | screenJoin : attempt.route = .respondJoin → attempt.stage = .hello →
      ¬ s.isRevoked attempt.peer attempt.key → Advances s attempt { attempt with stage := .checked } s
  /-- `join` checks the key of the issuer. -/
  | checkIssuer : attempt.route = .dialJoin → attempt.stage = .hello →
      ¬ s.isRevoked attempt.peer attempt.key → Advances s attempt { attempt with stage := .checked } s
  /-- `trusted_binding` reads the binding, which must be the key of the hello. -/
  | bindResponder : attempt.route = .respondMember → attempt.stage = .screened →
      s.bindings attempt.peer = some attempt.key →
      Advances s attempt { attempt with stage := .bound } s
  | bindInitiator (key : PublicKey) : attempt.route = .dialMember → attempt.stage = .hello →
      s.bindings attempt.peer = some key →
      Advances s attempt { attempt with key := key, stage := .bound } s
  | checkBinding : attempt.stage = .bound → ¬ s.isRevoked attempt.peer attempt.key →
      Advances s attempt { attempt with stage := .checked } s
  /-- `commit_admission` and `adopt_admission` need a peer without a binding, or with the one of
      the same admission. -/
  | decideAdmission : attempt.route.isJoin = true → attempt.stage = .checked →
      s.bindings attempt.peer = none ∨ s.bindings attempt.peer = some attempt.key →
      Advances s attempt { attempt with stage := .committing } s
  | admitted : attempt.route.isJoin = true → attempt.stage = .committing →
      s.bindings attempt.peer = none →
      Advances s attempt { attempt with stage := .established } (s.bind attempt.peer attempt.key)
  /-- The admission is stored already, or its commit is believed. -/
  | believed : attempt.route.isJoin = true → attempt.stage = .committing →
      Advances s attempt { attempt with stage := .established } s
  | proved : attempt.route.isJoin = false → attempt.stage = .checked →
      Advances s attempt { attempt with stage := .established } s

/-- The steps of the node `localId`. -/
inductive Step (localId : NodeId) (s : RevocationNode) : RevocationNode → Prop where
  /-- `require_unblocked`, then the hello. -/
  | greet (attempt : HandshakeAttempt) : s.frozen = false → attempt.stage = .hello →
      Step localId s { s with attempts := attempt :: s.attempts }
  | advance (before after : List HandshakeAttempt) (attempt next : HandshakeAttempt)
      (t : RevocationNode) : s.attempts = before ++ attempt :: after → s.Advances attempt next t →
      Step localId s { t with attempts := before ++ next :: after }
  /-- A handshake fails or its deadline passes. -/
  | fail (before after : List HandshakeAttempt) (attempt : HandshakeAttempt) :
      s.attempts = before ++ attempt :: after → Step localId s { s with attempts := before ++ after }
  /-- `run_session` registers an established session. -/
  | register (before after : List HandshakeAttempt) (attempt : HandshakeAttempt) :
      s.attempts = before ++ attempt :: after → attempt.stage = .established →
      Step localId s ({ s with attempts := before ++ after }.withEnd attempt.peer
        ((s.table attempt.peer).register localId attempt.peer attempt.connection
          attempt.route.direction))
  | teardown (peer : NodeId) (connection : Connection) : connection ∈ (s.table peer).serving →
      Step localId s (s.withEnd peer ((s.table peer).teardown connection))
  /-- `disconnect_peer` -/
  | disconnect (peer : NodeId) : s.revoke = .idle →
      Step localId s (s.withEnd peer (s.table peer).retireSession)
  | revokeStart (subject : NodeId) (key : PublicKey) : s.revoke = .idle → s.frozen = false →
      subject ≠ localId → Step localId s { s with revoke := .reading subject key }
  | revokeRead (subject : NodeId) (key : PublicKey) : s.revoke = .reading subject key →
      Step localId s (s.decide subject key)
  | revokeCommitted (subject : NodeId) (key : PublicKey) : s.revoke = .committing subject key →
      s.frozen = false → s.Accepts subject key →
      Step localId s { s.record subject key with revoke := .retiring subject key }
  /-- `Conflict` and `Aborted` -/
  | revokeRefused (subject : NodeId) (key : PublicKey) : s.revoke = .committing subject key →
      s.frozen = false → Step localId s { s with revoke := .rereading subject key }
  /-- `Unknown` or an error of the provider: the call fails, and the commit may be applied. -/
  | revokeLost (subject : NodeId) (key : PublicKey) (freezes : Bool) :
      s.revoke = .committing subject key → s.frozen = false → s.Accepts subject key →
      Step localId s { s.record subject key with revoke := .idle, frozen := freezes }
  | revokeFailed (subject : NodeId) (key : PublicKey) (freezes : Bool) :
      s.revoke = .committing subject key →
      Step localId s { s with revoke := .idle, frozen := freezes }
  | revokeReread (subject : NodeId) (key : PublicKey) : s.revoke = .rereading subject key →
      Step localId s (s.reread subject key)
  | revokeRetire (subject : NodeId) (key : PublicKey) : s.revoke = .retiring subject key →
      Step localId s
        ((s.withEnd subject (s.table subject).retireSession).answer subject key)
  /-- Another operation of the node adopts or admits a binding. -/
  | bind (node : NodeId) (key : PublicKey) : s.bindings node = none → Step localId s (s.bind node key)
  /-- Another operation of the node freezes or thaws the store. -/
  | slot (frozen : Bool) : Step localId s { s with frozen := frozen }
  /-- The process starts again. -/
  | restart : Step localId s
      { s with frozen := false, table := fun _ => .empty, attempts := [], revoke := .idle }

/-- The runs of a node that has stored some bindings. -/
def runs (localId : NodeId) (bindings : NodeId → Option PublicKey) :
    TransitionSystem RevocationNode where
  init := fun s => s = start bindings
  next := Step localId

end RevocationNode

end Radiata
