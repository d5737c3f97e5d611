import Radiata.ForStd.System
import Radiata.Native.WallTime

/-!
# Join credentials

`src/identity/credential.rs`: the receiver holds at most one credential generation in memory.
`src/session/driver.rs`: a join attempt reserves the generation, runs the handshake with a copy
of the secret, commits the admission and delivers the grant; then it consumes the generation,
or releases it on every failure and when it is dropped.

A generation is known by its `serial`, the number of generations before it; the code has the
random generation id only. The log records when a generation was replaced and when an admission
under it became durable, and `owner` is the attempt that made the latest reservation. An
attempt can be dropped while its transaction is under way, and the transaction may still become
durable afterwards.
-/

namespace Radiata

/-- `GenerationState` -/
inductive GenerationState where
  | active
  | reserved
  | consumed
  deriving DecidableEq, Repr

/-- `ActiveGeneration` -/
structure ActiveGeneration where
  serial : Nat
  credential : Option Bytes
  generationId : Bytes
  expiresAt : SystemTime
  state : GenerationState

/-- `ActiveGeneration::live` -/
def ActiveGeneration.live (generation : ActiveGeneration) (now : SystemTime) : Result Unit :=
  if generation.state = .consumed then .error (.authenticationFailed "join credential consumed")
  else if generation.expiresAt.nanos ≤ now.nanos then
    .error (.authenticationFailed "join credential expired")
  else .ok ()

/-- `JoinCredentialIssuer`; `issued` counts its generations. -/
structure JoinCredentialIssuer where
  generation : Option ActiveGeneration
  issued : Nat

/-- `LIFETIME`: ten minutes. -/
def credentialLifetime : Duration := ⟨600 * nanosPerSecond, by decide⟩

namespace JoinCredentialIssuer

def new : JoinCredentialIssuer := ⟨none, 0⟩

/-- `replace`, with the secret and the id from the entropy source. -/
def replace (issuer : JoinCredentialIssuer) (secret generationId : Bytes) (now : SystemTime) :
    Result JoinCredentialIssuer :=
  match now.checkedAdd credentialLifetime with
  | none => .error (.internal "join credential expiry")
  | some expiresAt =>
    .ok ⟨some ⟨issuer.issued, some secret, generationId, expiresAt, .active⟩, issuer.issued + 1⟩

/-- `issue` -/
def issue (issuer : JoinCredentialIssuer) (secret generationId : Bytes) (now : SystemTime) :
    Result JoinCredentialIssuer :=
  match issuer.generation with
  | some generation =>
    if (generation.live now).isOk then .error (.conflict "join credential active")
    else issuer.replace secret generationId now
  | none => issuer.replace secret generationId now

/-- `rotate` -/
def rotate (issuer : JoinCredentialIssuer) (secret generationId : Bytes) (now : SystemTime) :
    Result JoinCredentialIssuer :=
  issuer.replace secret generationId now

/-- `active_credential` -/
def activeCredential (issuer : JoinCredentialIssuer) (now : SystemTime) : Result Bytes :=
  match issuer.generation with
  | none => .error (.authenticationFailed "join credential absent")
  | some generation => do
    generation.live now
    match generation.credential with
    | none => .error (.authenticationFailed "join credential consumed")
    | some secret => return secret

/-- `reserve` -/
def reserve (issuer : JoinCredentialIssuer) (now : SystemTime) : Result JoinCredentialIssuer :=
  match issuer.generation with
  | none => .error (.authenticationFailed "join credential absent")
  | some generation => do
    generation.live now
    match generation.state with
    | .active => return { issuer with generation := some { generation with state := .reserved } }
    | .reserved => .error (.conflict "join credential reserved")
    | .consumed => .error (.authenticationFailed "join credential consumed")

/-- `release` -/
def release (issuer : JoinCredentialIssuer) : Result JoinCredentialIssuer :=
  match issuer.generation with
  | none => .error (.authenticationFailed "join credential absent")
  | some generation =>
    if generation.state = .reserved then
      .ok { issuer with generation := some { generation with state := .active } }
    else .error (.conflict "join credential not reserved")

/-- `consume` -/
def consume (issuer : JoinCredentialIssuer) : Result JoinCredentialIssuer :=
  match issuer.generation with
  | none => .error (.authenticationFailed "join credential absent")
  | some generation =>
    if generation.state = .reserved then
      .ok { issuer with
        generation := some { generation with credential := none, state := .consumed } }
    else .error (.conflict "join credential not reserved")

/-- The state of a generation while it is the current one. -/
def stateOf (issuer : JoinCredentialIssuer) (serial : Nat) : Option GenerationState :=
  match issuer.generation with
  | none => none
  | some generation => if generation.serial = serial then some generation.state else none

end JoinCredentialIssuer

/-! ## Join attempts -/

/-- What an attempt copies under the lock of the issuer. -/
structure HeldCredential where
  serial : Nat
  generationId : Bytes
  secret : Bytes

/-- The part of `respond_inner` under the lock of the issuer. -/
def JoinCredentialIssuer.beginAttempt (issuer : JoinCredentialIssuer) (hint : Option Bytes)
    (now : SystemTime) : JoinCredentialIssuer × Result HeldCredential :=
  match issuer.generation with
  | none => (issuer, .error (.authenticationFailed "join credential"))
  | some generation =>
    if hint ≠ some generation.generationId then
      (issuer, .error (.authenticationFailed "join credential generation"))
    else
      match issuer.reserve now with
      | .error _ => (issuer, .error (.authenticationFailed "join credential"))
      | .ok reserved =>
        match reserved.activeCredential now with
        | .error _ => (reserved, .error (.authenticationFailed "join credential"))
        | .ok secret => (reserved, .ok ⟨generation.serial, generation.generationId, secret⟩)

/-- The program counter of an attempt. -/
inductive JoinAttempt where
  | arriving (hint : Option Bytes)
  /-- The guard is armed and no transaction is under way. -/
  | reserved (held : HeldCredential)
  /-- The transaction of `commit_admission` is under way. -/
  | committing (held : HeldCredential)
  /-- The admission is durable and the grant is to be delivered. -/
  | committed (held : HeldCredential)
  /-- `consume` was refused and the guard is to be dropped. -/
  | dropping (held : HeldCredential)
  /-- The guard is gone and the transaction is still under way. -/
  | orphaned (held : HeldCredential)
  | ended

/-- The generation an attempt has reserved. -/
def JoinAttempt.held : JoinAttempt → Option HeldCredential
  | .arriving _ => none
  | .reserved held => some held
  | .committing held => some held
  | .committed held => some held
  | .dropping held => some held
  | .orphaned held => some held
  | .ended => none

/-- An attempt whose guard is released or dropped. -/
def JoinAttempt.released : JoinAttempt → Option JoinAttempt
  | .reserved _ => some .ended
  | .committing held => some (.orphaned held)
  | .committed _ => some .ended
  | .dropping _ => some .ended
  | _ => none

inductive JoinEvent where
  | replaced (serial : Nat)
  | committed (serial : Nat)
  deriving DecidableEq

/-- An issuer with its join attempts. -/
structure JoinSystem where
  issuer : JoinCredentialIssuer
  attempts : List JoinAttempt
  log : List JoinEvent
  owner : Option Nat

inductive JoinAction where
  | issue
  | rotate
  | arrive
  | reserve (k : Nat)
  | submit (k : Nat)
  | durable (k : Nat)
  | refuse (k : Nat)
  | consume (k : Nat)
  | release (k : Nat)

/-- The attempt that takes a step. -/
def JoinAction.attempt : JoinAction → Option Nat
  | .issue => none
  | .rotate => none
  | .arrive => none
  | .reserve k => some k
  | .submit k => some k
  | .durable k => some k
  | .refuse k => some k
  | .consume k => some k
  | .release k => some k

namespace JoinSystem

def init : JoinSystem := ⟨.new, [], [], none⟩

def setAttempt (s : JoinSystem) (k : Nat) (attempt : JoinAttempt) : JoinSystem :=
  { s with attempts := s.attempts.set k attempt }

/-- A new generation takes the place of the present one. -/
def replaceWith (s : JoinSystem) (issuer : JoinCredentialIssuer) : JoinSystem :=
  { s with
    issuer := issuer
    log := s.log ++ (s.issuer.generation.map fun generation => .replaced generation.serial).toList }

/-- What an attempt goes on with after it has tried to reserve. -/
def afterBegin (s : JoinSystem) (k : Nat) (hint : Option Bytes) (now : SystemTime) : JoinSystem :=
  match s.issuer.beginAttempt hint now with
  | (issuer, .ok held) => { s.setAttempt k (.reserved held) with issuer, owner := some k }
  | (issuer, .error _) => { s.setAttempt k .ended with issuer }

/-- The steps of the attempts and of the operator. -/
inductive Step (s : JoinSystem) : JoinAction → JoinSystem → Prop where
  | issue (secret generationId : Bytes) (now : SystemTime) (issuer : JoinCredentialIssuer) :
      s.issuer.issue secret generationId now = .ok issuer → Step s .issue (s.replaceWith issuer)
  | rotate (secret generationId : Bytes) (now : SystemTime) (issuer : JoinCredentialIssuer) :
      s.issuer.rotate secret generationId now = .ok issuer → Step s .rotate (s.replaceWith issuer)
  | arrive (hint : Option Bytes) :
      Step s .arrive { s with attempts := s.attempts ++ [.arriving hint] }
  | reserve (k : Nat) (hint : Option Bytes) (now : SystemTime) :
      s.attempts[k]? = some (.arriving hint) → Step s (.reserve k) (s.afterBegin k hint now)
  | submit (k : Nat) (held : HeldCredential) :
      s.attempts[k]? = some (.reserved held) → Step s (.submit k) (s.setAttempt k (.committing held))
  | durable (k : Nat) (held : HeldCredential) :
      s.attempts[k]? = some (.committing held) →
      Step s (.durable k) { s.setAttempt k (.committed held) with
        log := s.log ++ [.committed held.serial] }
  | durableOrphan (k : Nat) (held : HeldCredential) :
      s.attempts[k]? = some (.orphaned held) →
      Step s (.durable k) { s.setAttempt k .ended with log := s.log ++ [.committed held.serial] }
  | refuse (k : Nat) (held : HeldCredential) :
      s.attempts[k]? = some (.committing held) → Step s (.refuse k) (s.setAttempt k (.reserved held))
  | refuseOrphan (k : Nat) (held : HeldCredential) :
      s.attempts[k]? = some (.orphaned held) → Step s (.refuse k) (s.setAttempt k .ended)
  | consume (k : Nat) (held : HeldCredential) (issuer : JoinCredentialIssuer) :
      s.attempts[k]? = some (.committed held) → s.issuer.consume = .ok issuer →
      Step s (.consume k) { s.setAttempt k .ended with issuer }
  | consumeRefused (k : Nat) (held : HeldCredential) (error : Error) :
      s.attempts[k]? = some (.committed held) → s.issuer.consume = .error error →
      Step s (.consume k) (s.setAttempt k (.dropping held))
  /-- The guard is released after an error or dropped; a refusal of `release` is ignored. -/
  | release (k : Nat) (attempt after : JoinAttempt) :
      s.attempts[k]? = some attempt → attempt.released = some after →
      Step s (.release k) { s.setAttempt k after with issuer := s.issuer.release.toOption.getD s.issuer }

/-- The runs of an issuer. -/
def runs : TransitionSystem JoinSystem where
  init := fun s => s = init
  next := fun s t => ∃ action, Step s action t

end JoinSystem

end Radiata
