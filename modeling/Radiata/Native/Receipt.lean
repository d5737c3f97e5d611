import Radiata.Native.Provider
import Radiata.Native.WallTime

/-!
# The receipt engine

`src/storage/receipt.rs`: every engine transaction ends with a permanent used-id
marker; receipts are referenced by edge records counted in a head record, and a
receipt without references is anchored at a wall time, retained, and forgotten.

A builder reads one immutable snapshot and either settles its outcome or submits
a prepared transaction; `Attempt` keeps the outcome it makes of the commit. Reads
of a snapshot do not fail here, and key capacities do not overflow (an identifier
has 25 bytes).
-/

namespace Radiata

/-- `ReceiptIdentity`: a transaction and its operation digest. -/
structure ReceiptIdentity where
  transaction : TransactionId
  operationDigest : Digest
  deriving DecidableEq, Inhabited

/-- The opaque token of an owner record. -/
structure ReceiptReferenceToken where
  digest : Digest
  deriving DecidableEq, Inhabited

inductive ReceiptReferenceChange where
  | addSelf (tokens : List ReceiptReferenceToken)
  | add (target : ReceiptIdentity) (tokens : List ReceiptReferenceToken)
  | remove (target : ReceiptIdentity) (tokens : List ReceiptReferenceToken)
  deriving DecidableEq

structure GroupedReceiptChange where
  target : Option ReceiptIdentity
  remove : Bool
  tokens : List ReceiptReferenceToken
  deriving DecidableEq

inductive ReceiptReferenceOutcome where
  | applied (receipt : CommitReceipt)
  | aborted
  | conflict
  | unknown (identity : ReceiptIdentity)
  deriving DecidableEq

inductive ReceiptCleanupOutcome where
  | referenced
  | anchored (receipt : CommitReceipt)
  | retained
  | forgotten (receipt : CommitReceipt)
  | aborted
  | conflict
  | unknown (identity : ReceiptIdentity)
  deriving DecidableEq

/-! ## Keys and values of the internal namespace -/

def usedIdTag : Bytes := 0x01 :: Bytes.utf8 "used-id\x00"
def referenceHeadTag : Bytes := 0x02 :: Bytes.utf8 "reference-head\x00"
def referenceEdgeTag : Bytes := 0x03 :: Bytes.utf8 "reference-edge\x00"
def eligibilityAnchorTag : Bytes := 0x04 :: Bytes.utf8 "eligibility-anchor\x00"
def edgeDelimiter : UInt8 := 0
def referenceTokenWidth : Nat := 32

def activeMarkerValue : Bytes := []
def forgottenMarkerValue : Bytes := 0x01 :: Bytes.utf8 "forgotten\x00"

def internalNamespaceText : Bytes := Bytes.utf8 "radiata.woooo.tech/metadata/receipt-internal-v1"

def recordReferenceDomain : Bytes :=
  Bytes.utf8 "radiata.woooo.tech/receipt-reference/metadata-record/v1\x00"

/-- `tagged_transaction_key` -/
def taggedTransactionKey (tag : Bytes) (transaction : TransactionId) : StoreKey :=
  ⟨tag ++ transaction.asStr⟩

def usedIdKey (transaction : TransactionId) : StoreKey :=
  taggedTransactionKey usedIdTag transaction

def referenceHeadKey (transaction : TransactionId) : StoreKey :=
  taggedTransactionKey referenceHeadTag transaction

def eligibilityAnchorKey (transaction : TransactionId) : StoreKey :=
  taggedTransactionKey eligibilityAnchorTag transaction

/-- `reference_edge_prefix`: the length of the identifier separates it from the token. -/
def referenceEdgePrefix (transaction : TransactionId) : Bytes :=
  referenceEdgeTag ++ Bytes.toBE 2 transaction.asStr.length ++ transaction.asStr ++ [edgeDelimiter]

def referenceEdgeKey (transaction : TransactionId) (token : ReceiptReferenceToken) : StoreKey :=
  ⟨referenceEdgePrefix transaction ++ token.digest.asBytes⟩

def encodeReferenceCount (count : UInt64) : StoreValue := ⟨u64ToBEBytes count⟩

/-- `decode_reference_count`: eight bytes, not zero. -/
def decodeReferenceCount (value : StoreValue) : Result UInt64 :=
  if value.asBytes.length ≠ 8 then .error storageCorrupt
  else
    let count := UInt64.ofNat (Bytes.ofBE value.asBytes)
    if count = 0 then .error storageCorrupt else .ok count

def incrementReferenceCount (count : UInt64) : Result UInt64 :=
  match checkedAdd count 1 with
  | some next => .ok next
  | none => .error (.resourceExhausted "receipt reference count")

def markerValue (bytes : Bytes) : StoreValue := ⟨bytes⟩

/-! ## Snapshots -/

/-- An immutable snapshot of a store. -/
structure StoreSnapshot [DnsName] where
  revision : StoreRevision
  entries : Entries

namespace StoreSnapshot

variable [DnsName]

def get (snapshot : StoreSnapshot) (namespaceTag : StoreNamespace) (key : StoreKey) :
    Option StoreValue :=
  snapshot.entries.get ⟨namespaceTag, key⟩

/-- The entries of one namespace whose key starts with `keyPrefix`, in key order. -/
def scan (snapshot : StoreSnapshot) (namespaceTag : StoreNamespace) (keyPrefix : Bytes) :
    List StoreEntry :=
  snapshot.entries.toList.filterMap fun (entry, value) =>
    if entry.namespaceTag = namespaceTag ∧ keyPrefix <+: entry.key.asBytes then
      some ⟨entry.namespaceTag, entry.key, value⟩
    else none

end StoreSnapshot

section Engine

variable [DnsName]

def internalNamespace : Result StoreNamespace := QualifiedTag.parse internalNamespaceText

/-- `operation_uses_reserved_namespace` -/
def operationUsesReservedNamespace : StoreOperation → Bool
  | .check namespaceTag _ _ => namespaceTag.asStr == internalNamespaceText
  | .put namespaceTag _ _ _ => namespaceTag.asStr == internalNamespaceText
  | .delete namespaceTag _ _ => namespaceTag.asStr == internalNamespaceText
  | .forgetReceipt _ _ => true

/-- `ReceiptReferenceToken::for_record` -/
def ReceiptReferenceToken.forRecord (namespaceTag : StoreNamespace) (key : StoreKey) :
    ReceiptReferenceToken :=
  ⟨sha256 (recordReferenceDomain ++ Bytes.toBE 8 namespaceTag.asStr.length ++ namespaceTag.asStr
    ++ Bytes.toBE 8 key.asBytes.length ++ key.asBytes)⟩

/-- A transaction with its permanent used-id marker. -/
structure PreparedTransaction where
  transaction : StoreTransaction
  deriving DecidableEq

/-- `prepare_internal_transaction` -/
def prepareInternalTransaction (id : TransactionId) (baseRevision : StoreRevision)
    (operations : List StoreOperation) : Result PreparedTransaction := do
  let internal ← internalNamespace
  let transaction ← StoreTransaction.new id baseRevision
    (operations ++ [.put internal (usedIdKey id) .absent (markerValue activeMarkerValue)])
  return ⟨transaction⟩

/-- What a builder does with its snapshot: it settles, or it submits a transaction
    and makes an outcome of the commit. -/
inductive Attempt (ω : Type) where
  | settled (outcome : ω)
  | submit (prepared : PreparedTransaction) (finish : CommitOutcome → ω)

/-! ## Reading the reference index -/

inductive LiveMarker where
  | active (value : StoreValue)
  | forgotten
  deriving DecidableEq

/-- `verify_live_marker` -/
def verifyLiveMarker (snapshot : StoreSnapshot) (namespaceTag : StoreNamespace)
    (transaction : TransactionId) : Result LiveMarker :=
  match snapshot.get namespaceTag (usedIdKey transaction) with
  | some value =>
    if value.asBytes = activeMarkerValue then .ok (.active value)
    else if value.asBytes = forgottenMarkerValue then .ok .forgotten
    else .error storageCorrupt
  | none => .error storageCorrupt

/-- One iteration of the scan in `audit_reference_index`. -/
def auditEntry (namespaceTag : StoreNamespace) (keyPrefix : Bytes) (count : UInt64)
    (entry : StoreEntry) : Result UInt64 :=
  if entry.namespaceTag ≠ namespaceTag ∨ ¬ keyPrefix <+: entry.key.asBytes
      ∨ entry.key.asBytes.length ≠ keyPrefix.length + referenceTokenWidth
      ∨ entry.value.asBytes ≠ [] then
    .error storageCorrupt
  else incrementReferenceCount count

/-- The head check of `audit_reference_index`. -/
def auditHead (count : UInt64) : Option StoreValue → Result Unit
  | none => if count ≠ 0 then .error storageCorrupt else .ok ()
  | some value => do
    let recorded ← decodeReferenceCount value
    if recorded ≠ count then .error storageCorrupt else .ok ()

/-- `audit_reference_index`: counts the edges and compares with head and anchor. -/
def auditReferenceIndex (snapshot : StoreSnapshot) (namespaceTag : StoreNamespace)
    (transaction : TransactionId) (head anchor : Option StoreValue) : Result UInt64 := do
  let keyPrefix := referenceEdgePrefix transaction
  let count ← (snapshot.scan namespaceTag keyPrefix).foldlM (auditEntry namespaceTag keyPrefix) 0
  auditHead count head
  if count ≠ 0 ∧ anchor.isSome then throw storageCorrupt
  return count

structure ReceiptReferenceState where
  headKey : StoreKey
  anchorKey : StoreKey
  edgeKey : Option StoreKey
  head : Option StoreValue
  edge : Option StoreValue
  anchor : Option StoreValue
  auditedCount : UInt64

/-- `load_reference_state` -/
def loadReferenceState (snapshot : StoreSnapshot) (namespaceTag : StoreNamespace)
    (transaction : TransactionId) (edgeToken : Option ReceiptReferenceToken) :
    Result ReceiptReferenceState := do
  let headKey := referenceHeadKey transaction
  let head := snapshot.get namespaceTag headKey
  let edgeKey := edgeToken.map (referenceEdgeKey transaction)
  let edge := edgeKey.bind (snapshot.get namespaceTag)
  let anchorKey := eligibilityAnchorKey transaction
  let anchor := snapshot.get namespaceTag anchorKey
  let auditedCount ← auditReferenceIndex snapshot namespaceTag transaction head anchor
  return { headKey, anchorKey, edgeKey, head, edge, anchor, auditedCount }

/-! ## Grouped changes -/

/-- Inserting the tokens of one change into the set of tokens seen. -/
def insertTokens : List ReceiptReferenceToken → List Digest → Result (List Digest)
  | [], seen => .ok seen
  | token :: tokens, seen =>
    if token.digest ∈ seen then .error (.invalidInput "receipt reference change token")
    else insertTokens tokens (token.digest :: seen)

/-- The receipt a group is about. -/
def GroupedReceiptChange.targetId (selfId : TransactionId) (group : GroupedReceiptChange) :
    TransactionId :=
  (group.target.map ReceiptIdentity.transaction).getD selfId

/-- The group of one change. A change that names the fresh transaction is a self
    reference. -/
def ReceiptReferenceChange.toGroup (selfId : TransactionId) :
    ReceiptReferenceChange → GroupedReceiptChange
  | .addSelf tokens => ⟨none, false, tokens⟩
  | .add target tokens => ⟨if target.transaction = selfId then none else some target, false, tokens⟩
  | .remove target tokens =>
    ⟨if target.transaction = selfId then none else some target, true, tokens⟩

/-- One iteration of `group_receipt_changes`. -/
def groupReceiptChange (selfId : TransactionId)
    (state : List GroupedReceiptChange × List Digest) (change : ReceiptReferenceChange) :
    Result (List GroupedReceiptChange × List Digest) := do
  let group := change.toGroup selfId
  if group.tokens.isEmpty then
    throw (.invalidInput "receipt reference change tokens")
  let tokensSeen ← insertTokens group.tokens state.2
  if group.target.isNone ∧ group.remove then
    throw (.invalidInput "receipt reference change target")
  if state.1.any (fun earlier => earlier.targetId selfId = group.targetId selfId) then
    throw (.invalidInput "receipt reference change target")
  return (state.1 ++ [group], tokensSeen)

/-- `group_receipt_changes` -/
def groupReceiptChanges (selfId : TransactionId) (changes : List ReceiptReferenceChange) :
    Result (List GroupedReceiptChange) := do
  let (groups, _) ← changes.foldlM (groupReceiptChange selfId) ([], [])
  return groups

/-- `build_self_reference_operations` -/
def buildSelfReferenceOperations (snapshot : StoreSnapshot) (namespaceTag : StoreNamespace)
    (selfId : TransactionId) (tokens : List ReceiptReferenceToken) (additional : UInt64) :
    Result (List StoreOperation) := do
  if (snapshot.get namespaceTag (usedIdKey selfId)).isSome then
    throw (.conflict "receipt reference target")
  let head := snapshot.get namespaceTag (referenceHeadKey selfId)
  let _ ← auditReferenceIndex snapshot namespaceTag selfId head none
  if head.isSome then
    throw (.conflict "receipt reference target")
  return .put namespaceTag (referenceHeadKey selfId) .absent (encodeReferenceCount additional) ::
    tokens.map fun token => .put namespaceTag (referenceEdgeKey selfId token) .absent ⟨[]⟩

/-- The remove branch of `build_receipt_change_operations`. -/
def buildRemoveOperations (namespaceTag : StoreNamespace) (transaction : TransactionId)
    (edges : List (ReceiptReferenceToken × Option StoreValue)) (head : Option StoreValue)
    (count additional : UInt64) : Result (List StoreOperation) := do
  if edges.any (fun edge => edge.2.isNone) then
    throw (.conflict "receipt reference token")
  let some head := head | throw storageCorrupt
  if count < additional then
    throw storageCorrupt
  let remaining := count - additional
  let deletes ← edges.mapM fun (token, edge) =>
    match edge with
    | none => throw (.conflict "receipt reference token")
    | some edge => pure (StoreOperation.delete namespaceTag (referenceEdgeKey transaction token)
        edge.digest)
  return deletes ++
    [if remaining = 0 then .delete namespaceTag (referenceHeadKey transaction) head.digest
     else .put namespaceTag (referenceHeadKey transaction) (.exact head.digest)
       (encodeReferenceCount remaining)]

/-- The expectation that a value is as it was read. -/
def expectationOf : Option StoreValue → StoreExpectation
  | some value => .exact value.digest
  | none => .absent

/-- The delete of an existing anchor, whose wall time must decode. -/
def deleteAnchor (namespaceTag : StoreNamespace) (anchorKey : StoreKey) :
    Option StoreValue → Result (List StoreOperation)
  | none => .ok []
  | some anchor => do
    let _ ← decodeWallTime anchor.asBytes
    return [.delete namespaceTag anchorKey anchor.digest]

/-- The add branch of `build_receipt_change_operations`: the anchor is deleted with
    the first reference. -/
def buildAddOperations (namespaceTag : StoreNamespace) (transaction : TransactionId)
    (edges : List (ReceiptReferenceToken × Option StoreValue)) (head anchor : Option StoreValue)
    (count additional : UInt64) : Result (List StoreOperation) := do
  let some next := checkedAdd count additional
    | throw (.resourceExhausted "receipt reference count")
  let puts ← edges.mapM fun (token, edge) =>
    match edge with
    | some _ => throw (.conflict "receipt reference token")
    | none => pure (StoreOperation.put namespaceTag (referenceEdgeKey transaction token) .absent ⟨[]⟩)
  let operations := .put namespaceTag (referenceHeadKey transaction) (expectationOf head)
    (encodeReferenceCount next) :: puts
  let anchorDelete ← deleteAnchor namespaceTag (eligibilityAnchorKey transaction) anchor
  return operations ++ anchorDelete

/-- `build_receipt_change_operations` -/
def buildReceiptChangeOperations (snapshot : StoreSnapshot) (namespaceTag : StoreNamespace)
    (selfId : TransactionId) (group : GroupedReceiptChange) : Result (List StoreOperation) := do
  let some additional := u64TryFrom group.tokens.length
    | throw (.resourceExhausted "receipt reference count")
  match group.target with
  | none =>
    buildSelfReferenceOperations snapshot namespaceTag selfId group.tokens additional
  | some target =>
    match ← verifyLiveMarker snapshot namespaceTag target.transaction with
    | .forgotten => throw (.conflict "receipt reference target")
    | .active _ =>
      let head := snapshot.get namespaceTag (referenceHeadKey target.transaction)
      let anchor := snapshot.get namespaceTag (eligibilityAnchorKey target.transaction)
      let edges := group.tokens.map fun token =>
        (token, snapshot.get namespaceTag (referenceEdgeKey target.transaction token))
      let count ← auditReferenceIndex snapshot namespaceTag target.transaction head anchor
      if group.remove then
        buildRemoveOperations namespaceTag target.transaction edges head count additional
      else
        buildAddOperations namespaceTag target.transaction edges head anchor count additional

/-- The operations of all groups, in order. -/
def buildGroupOperations (snapshot : StoreSnapshot) (namespaceTag : StoreNamespace)
    (selfId : TransactionId) (groups : List GroupedReceiptChange) :
    Result (List StoreOperation) := do
  let built ← groups.mapM (buildReceiptChangeOperations snapshot namespaceTag selfId)
  return built.flatten

/-! ## Builders -/

/-- `prepare_transaction` -/
def prepareTransaction (id : TransactionId) (baseRevision : StoreRevision)
    (callerOperations : List StoreOperation) : Result PreparedTransaction := do
  if callerOperations.any operationUsesReservedNamespace then
    throw (.invalidInput "metadata storage reserved namespace")
  prepareInternalTransaction id baseRevision callerOperations

/-- `prepare_transaction_with_receipt_changes` -/
def prepareTransactionWithReceiptChanges (snapshot : StoreSnapshot) (id : TransactionId)
    (callerOperations : List StoreOperation) (changes : List ReceiptReferenceChange) :
    Result PreparedTransaction := do
  if callerOperations.any operationUsesReservedNamespace then
    throw (.invalidInput "metadata storage reserved namespace")
  let internal ← internalNamespace
  let groups ← groupReceiptChanges id changes
  let built ← buildGroupOperations snapshot internal id groups
  prepareInternalTransaction id snapshot.revision (callerOperations ++ built)

/-- `map_reference_outcome` -/
def mapReferenceOutcome : CommitOutcome → ReceiptReferenceOutcome
  | .committed receipt => .applied receipt
  | .aborted => .aborted
  | .conflict => .conflict
  | .unknown transaction operationDigest => .unknown ⟨transaction, operationDigest⟩

/-- The count after one addition to the head of `add_receipt_reference`. -/
def nextReferenceCount : Option StoreValue → Result UInt64
  | some value => do
    let count ← decodeReferenceCount value
    incrementReferenceCount count
  | none => .ok 1

/-- `add_receipt_reference` -/
def addReceiptReference (snapshot : StoreSnapshot) (target : ReceiptIdentity)
    (token : ReceiptReferenceToken) (operationId : TransactionId) :
    Result (Attempt ReceiptReferenceOutcome) := do
  let internal ← internalNamespace
  match ← verifyLiveMarker snapshot internal target.transaction with
  | .forgotten => return .settled .conflict
  | .active _ =>
    let state ← loadReferenceState snapshot internal target.transaction (some token)
    let some edgeKey := state.edgeKey | throw storageCorrupt
    if state.edge.isSome then
      return .settled .conflict
    let nextCount ← nextReferenceCount state.head
    let anchorDelete ← deleteAnchor internal state.anchorKey state.anchor
    let prepared ← prepareInternalTransaction operationId snapshot.revision
      ([.put internal state.headKey (expectationOf state.head) (encodeReferenceCount nextCount),
        .put internal edgeKey .absent ⟨[]⟩] ++ anchorDelete)
    return .submit prepared mapReferenceOutcome

/-- `remove_receipt_reference` -/
def removeReceiptReference (snapshot : StoreSnapshot) (target : ReceiptIdentity)
    (token : ReceiptReferenceToken) (operationId : TransactionId) :
    Result (Attempt ReceiptReferenceOutcome) := do
  let internal ← internalNamespace
  match ← verifyLiveMarker snapshot internal target.transaction with
  | .forgotten => return .settled .conflict
  | .active _ =>
    let state ← loadReferenceState snapshot internal target.transaction (some token)
    let some edgeKey := state.edgeKey | throw storageCorrupt
    let some edge := state.edge | return .settled .conflict
    let some head := state.head | throw storageCorrupt
    let count ← decodeReferenceCount head
    let operations := [
      StoreOperation.delete internal edgeKey edge.digest,
      if count = 1 then .delete internal state.headKey head.digest
      else .put internal state.headKey (.exact head.digest) (encodeReferenceCount (count - 1))]
    let prepared ← prepareInternalTransaction operationId snapshot.revision operations
    return .submit prepared mapReferenceOutcome

/-- The outcome `cleanup_receipt` makes of its commit. -/
def mapCleanupOutcome (anchoring : Bool) : CommitOutcome → ReceiptCleanupOutcome
  | .committed receipt => if anchoring then .anchored receipt else .forgotten receipt
  | .aborted => .aborted
  | .conflict => .conflict
  | .unknown transaction operationDigest => .unknown ⟨transaction, operationDigest⟩

/-- `cleanup_receipt` with the clock reading `now`: anchors an unreferenced receipt,
    or forgets it once it has been anchored for the retention interval. -/
def cleanupReceipt (snapshot : StoreSnapshot) (receiptRetention : Duration) (now : SystemTime)
    (target : ReceiptIdentity) (operationId : TransactionId) :
    Result (Attempt ReceiptCleanupOutcome) := do
  let internal ← internalNamespace
  match ← verifyLiveMarker snapshot internal target.transaction with
  | .forgotten => return .settled .conflict
  | .active activeMarker =>
    let state ← loadReferenceState snapshot internal target.transaction none
    if state.auditedCount ≠ 0 then
      return .settled .referenced
    match state.anchor with
    | none =>
      let prepared ← prepareInternalTransaction operationId snapshot.revision [
        .check internal state.headKey .absent,
        .put internal state.anchorKey .absent ⟨encodeWallTime now⟩]
      return .submit prepared (mapCleanupOutcome true)
    | some anchor =>
      let anchoredAt ← decodeWallTime anchor.asBytes
      let some deadline := anchoredAt.checkedAdd receiptRetention | return .settled .retained
      if now.nanos < deadline.nanos then
        return .settled .retained
      let prepared ← prepareInternalTransaction operationId snapshot.revision [
        .check internal state.headKey .absent,
        .delete internal state.anchorKey anchor.digest,
        .put internal (usedIdKey target.transaction) (.exact activeMarker.digest)
          (markerValue forgottenMarkerValue),
        .forgetReceipt target.transaction target.operationDigest]
      return .submit prepared (mapCleanupOutcome false)

end Engine

end Radiata
