import Radiata.ForStd.Cbor
import Radiata.ForStd.ConditionalStore
import Radiata.Native.Signature

/-!
# Identity records

`src/identity/records.rs`, `src/identity/leave.rs`, `src/identity/trust.rs`,
`src/identity/revocation.rs`: the records of the identity layer and the keys they are stored
under, one family to a namespace.

A stored value is the record it encodes; a value that is no record of its family is `bytes`.
Distinct records have distinct encodings, so an expected digest is here the expected record.
The references of records to receipts live in the reserved namespace and are left out, with the
fields (transaction and base revision of an intent) that only they use.
-/

namespace Radiata

abbrev GenerationId := ByteValue 16
abbrev AdmissionId := ByteValue 16

def keyOperationPrefix : Bytes := Bytes.utf8 "keyop_"

abbrev KeyOperationId := CanonicalId keyOperationPrefix "key operation id"

/-- The handle of a key at its provider. -/
structure KeyHandle where
  asBytes : Bytes
  nonempty : asBytes ≠ []

instance : DecidableEq KeyHandle := fun a b =>
  decidable_of_iff (a.asBytes = b.asBytes) <| by
    constructor
    · intro h
      cases a; cases b; simp_all
    · exact congrArg KeyHandle.asBytes

/-- The handle of one byte. -/
def KeyHandle.ofByte (byte : UInt8) : KeyHandle := ⟨[byte], List.cons_ne_nil byte []⟩

/-- What a journaled transaction is for. The texts of distinct purposes are distinct. -/
inductive JournalPurpose where
  | localIdentity
  | clusterGenesis
  | admission (generation : GenerationId)
  | adoption (admission : AdmissionId)
  | keyDeletion (handle : KeyHandle)
  deriving DecidableEq

/-! ## Records -/

structure LocalIdentityV1 where
  node : NodeId
  publicKey : PublicKey
  operation : KeyOperationId
  handle : KeyHandle
  deriving DecidableEq

structure KeyCreationIntentV1 where
  operation : KeyOperationId
  intendedNode : NodeId
  purpose : JournalPurpose
  deriving DecidableEq

structure KeyDeletionIntentV1 where
  operation : KeyOperationId
  handle : KeyHandle
  purpose : JournalPurpose
  deriving DecidableEq

structure KeyDeletedV1 where
  operation : KeyOperationId
  handle : KeyHandle
  deriving DecidableEq

structure IdentityBindingV1 where
  node : NodeId
  publicKey : PublicKey
  deriving DecidableEq

structure ClusterGenesisV1 where
  cluster : ClusterId
  creator : NodeId
  creatorKey : PublicKey
  signature : Signature
  deriving DecidableEq

structure LocalClusterPointerV1 where
  cluster : ClusterId
  genesisDigest : Digest
  deriving DecidableEq

structure CredentialUseV1 where
  cluster : ClusterId
  issuer : NodeId
  generation : GenerationId
  admission : AdmissionId
  subject : NodeId
  subjectKey : PublicKey
  deriving DecidableEq

structure AdmissionGrantV1 where
  cluster : ClusterId
  admission : AdmissionId
  subject : NodeId
  subjectKey : PublicKey
  issuer : NodeId
  generation : GenerationId
  signature : Signature
  deriving DecidableEq

structure LeaveIntentV1 where
  formerNode : NodeId
  formerKey : PublicKey
  formerHandle : KeyHandle
  replacementNode : NodeId
  replacementOperation : KeyOperationId
  deriving DecidableEq

structure TrustBinding where
  node : NodeId
  key : PublicKey
  deriving DecidableEq

structure TrustSnapshotV1 where
  cluster : ClusterId
  revision : UInt64
  version : UInt16
  issuer : NodeId
  issuerKey : PublicKey
  bindings : List TrustBinding
  deriving DecidableEq

/-- A stored node descriptor: what its writer compares, and the other fields as they are encoded. -/
structure DescriptorRecord where
  node : NodeId
  revision : UInt64
  removed : Bool
  fields : Bytes
  deriving DecidableEq

/-! ## Signed bodies -/

def clusterGenesisDomain : Bytes := Bytes.utf8 "radiata.woooo.tech/crypto/cluster-genesis-v1"
def admissionGrantDomain : Bytes := Bytes.utf8 "radiata.woooo.tech/crypto/admission-grant-v1"

def clusterGenesisSchema : Bytes := Bytes.utf8 "radiata.woooo.tech/schemas/cluster-genesis-v1"
def admissionGrantSchema : Bytes := Bytes.utf8 "radiata.woooo.tech/schemas/admission-grant-v1"

namespace ClusterGenesisV1

/-- The fields of the signed body. -/
def bodyFields (genesis : ClusterGenesisV1) : Bytes :=
  Cbor.encodeStr clusterGenesisSchema ++ Cbor.encodeU64 1 ++ Cbor.encodeStr genesis.cluster.asStr
    ++ Cbor.encodeStr genesis.creator.asStr ++ Cbor.encodeBytes genesis.creatorKey.asBytes

def signedBody (genesis : ClusterGenesisV1) : Bytes := Cbor.encodeArray 5 ++ genesis.bodyFields

def encode (genesis : ClusterGenesisV1) : Bytes :=
  Cbor.encodeArray 6 ++ genesis.bodyFields ++ Cbor.encodeBytes genesis.signature.asBytes

def digest (genesis : ClusterGenesisV1) : Digest := bodyDigest genesis.encode

def verify [Ed25519] (genesis : ClusterGenesisV1) : Result Unit :=
  verifyStrict clusterGenesisDomain genesis.signedBody genesis.creatorKey genesis.signature
    "cluster genesis signature"

end ClusterGenesisV1

namespace AdmissionGrantV1

def encodeSignedBody (cluster : ClusterId) (admission : AdmissionId) (subject : NodeId)
    (subjectKey : PublicKey) (issuer : NodeId) (generation : GenerationId) : Bytes :=
  Cbor.encodeArray 8 ++ Cbor.encodeStr admissionGrantSchema ++ Cbor.encodeU64 1
    ++ Cbor.encodeStr cluster.asStr ++ Cbor.encodeBytes admission.asBytes
    ++ Cbor.encodeStr subject.asStr ++ Cbor.encodeBytes subjectKey.asBytes
    ++ Cbor.encodeStr issuer.asStr ++ Cbor.encodeBytes generation.asBytes

def signedBody (grant : AdmissionGrantV1) : Bytes :=
  encodeSignedBody grant.cluster grant.admission grant.subject grant.subjectKey grant.issuer
    grant.generation

def verify [Ed25519] (grant : AdmissionGrantV1) (issuerKey : PublicKey) : Result Unit :=
  verifyStrict admissionGrantDomain grant.signedBody issuerKey grant.signature
    "admission grant signature"

end AdmissionGrantV1

/-! ## The store -/

/-- The keys of the metadata families. -/
inductive MetadataKey where
  | localIdentity
  | keyCreationIntent (operation : KeyOperationId)
  | keyDeletionIntent (handle : KeyHandle)
  | keyDeleted (handle : KeyHandle)
  | identityBinding (node : NodeId)
  | clusterGenesis (cluster : ClusterId)
  | localClusterPointer
  | credentialUse (issuer : NodeId) (generation : GenerationId)
  | admissionGrant (admission : AdmissionId)
  | trustSnapshot (issuer : NodeId) (revision : UInt64)
  | trustBinding (node : NodeId)
  | revocation (node : NodeId)
  | leaveIntent
  | nodeDescriptor (node : NodeId)
  | resourceRecord (key : Bytes)
  | routeTrace (key : Bytes)
  | pendingTransaction (purpose : JournalPurpose)
  deriving DecidableEq

inductive MetadataRecord where
  | localIdentity (record : LocalIdentityV1)
  | keyCreationIntent (record : KeyCreationIntentV1)
  | keyDeletionIntent (record : KeyDeletionIntentV1)
  | keyDeleted (record : KeyDeletedV1)
  | identityBinding (record : IdentityBindingV1)
  | clusterGenesis (record : ClusterGenesisV1)
  | localClusterPointer (record : LocalClusterPointerV1)
  | credentialUse (record : CredentialUseV1)
  | admissionGrant (record : AdmissionGrantV1)
  | trustSnapshot (record : TrustSnapshotV1)
  | trustBinding (key : PublicKey)
  | revocation (key : PublicKey)
  | leaveIntent (record : LeaveIntentV1)
  | nodeDescriptor (record : DescriptorRecord)
  /-- A journal record, which names its transaction. -/
  | pendingTransaction (transaction : TransactionId)
  | bytes (value : Bytes)
  deriving DecidableEq

namespace MetadataRecord

/-! What `decode` of a family makes of a value. -/

def asLocalIdentity : MetadataRecord → Option LocalIdentityV1
  | localIdentity record => some record
  | _ => none

def asKeyCreationIntent : MetadataRecord → Option KeyCreationIntentV1
  | keyCreationIntent record => some record
  | _ => none

def asKeyDeletionIntent : MetadataRecord → Option KeyDeletionIntentV1
  | keyDeletionIntent record => some record
  | _ => none

def asKeyDeleted : MetadataRecord → Option KeyDeletedV1
  | keyDeleted record => some record
  | _ => none

def asIdentityBinding : MetadataRecord → Option IdentityBindingV1
  | identityBinding record => some record
  | _ => none

def asClusterGenesis : MetadataRecord → Option ClusterGenesisV1
  | clusterGenesis record => some record
  | _ => none

def asLocalClusterPointer : MetadataRecord → Option LocalClusterPointerV1
  | localClusterPointer record => some record
  | _ => none

def asCredentialUse : MetadataRecord → Option CredentialUseV1
  | credentialUse record => some record
  | _ => none

def asAdmissionGrant : MetadataRecord → Option AdmissionGrantV1
  | admissionGrant record => some record
  | _ => none

def asTrustBinding : MetadataRecord → Option PublicKey
  | trustBinding key => some key
  | _ => none

def asRevocation : MetadataRecord → Option PublicKey
  | revocation key => some key
  | _ => none

def asLeaveIntent : MetadataRecord → Option LeaveIntentV1
  | leaveIntent record => some record
  | _ => none

def asNodeDescriptor : MetadataRecord → Option DescriptorRecord
  | nodeDescriptor record => some record
  | _ => none

def asPendingTransaction : MetadataRecord → Option TransactionId
  | pendingTransaction transaction => some transaction
  | _ => none

end MetadataRecord

abbrev RecordStore := Store MetadataKey MetadataRecord

abbrev RecordAction := StoreAction MetadataKey MetadataRecord

end Radiata
