import Radiata.ForStd.Hmac
import Radiata.Native.Identity
import Radiata.Native.Provider

/-!
# Signatures and credential proofs

`src/identity/signature.rs` and `src/protocol/credential.rs`: the signed message of a
canonical body (its domain followed by the digest of the body), strict verification,
and the role-separated proofs that two endpoints derive from a join credential.

Ed25519 itself is a parameter.
-/

namespace Radiata

/-! ## Signatures -/

/-- The signature crate: `VerifyingKey::from_bytes` and `verify_strict`. -/
class Ed25519 where
  accepts : PublicKey → Bytes → Signature → Bool

def bodyDigest (canonicalBody : Bytes) : Digest := sha256 canonicalBody

def signatureMessage (domain canonicalBody : Bytes) : Bytes :=
  domain ++ (bodyDigest canonicalBody).asBytes

def verifyStrict [Ed25519] (domain canonicalBody : Bytes) (publicKey : PublicKey)
    (signature : Signature) (context : String) : Result Unit :=
  Except.rejectIf (¬ Ed25519.accepts publicKey (signatureMessage domain canonicalBody) signature)
    (.authenticationFailed context)

/-- Messages of one domain over bodies with distinct digests are distinct, and messages of
    distinct domains of one length are. -/
theorem signatureMessage_inj {domain domain' body body' : Bytes} (hlen : domain.length = domain'.length)
    (h : signatureMessage domain body = signatureMessage domain' body') :
    domain = domain' ∧ bodyDigest body = bodyDigest body' := by
  obtain ⟨hdomain, hdigest⟩ := List.append_inj h hlen
  exact ⟨hdomain, Digest.ext_asBytes hdigest⟩

/-! ## Credential proofs -/

def responderKeyInfo : Bytes := Bytes.utf8 "radiata.woooo.tech/crypto/bootstrap-v1-responder"
def initiatorKeyInfo : Bytes := Bytes.utf8 "radiata.woooo.tech/crypto/bootstrap-v1-initiator"

def roleKeyLen : Nat := 32
abbrev proofLen : Nat := 32

inductive ProofRole where
  | responder
  | initiator
  deriving DecidableEq

def ProofRole.info : ProofRole → Bytes
  | responder => responderKeyInfo
  | initiator => initiatorKeyInfo

/-- The body of a join credential. -/
abbrev CredentialSecret := ByteValue 32

abbrev CredentialProof := ByteValue 32

def roleKey (channelBinding : ByteValue 32) (secret : CredentialSecret) (info : Bytes) :
    Result Bytes :=
  Except.okOr (.internal "credential proof kdf")
    (Sha256.hkdfExpand (Sha256.hkdfExtract channelBinding.asBytes secret.asBytes) info roleKeyLen)

def deriveProof (role : ProofRole) (channelBinding : ByteValue 32) (secret : CredentialSecret)
    (transcriptDigest : Digest) : Result CredentialProof := do
  let key ← roleKey channelBinding secret role.info
  return ⟨Sha256.hmac key transcriptDigest.asBytes, Sha256.length_hmac _ _⟩

def verifyProof (role : ProofRole) (channelBinding : ByteValue 32) (secret : CredentialSecret)
    (transcriptDigest : Digest) (expected : CredentialProof) : Result Bool := do
  let key ← roleKey channelBinding secret role.info
  return decide (Sha256.hmac key transcriptDigest.asBytes = expected.asBytes)

/-- A proof is always derived, and it is the one that verifies. -/
theorem exists_deriveProof (role : ProofRole) (channelBinding : ByteValue 32)
    (secret : CredentialSecret) (digest : Digest) :
    ∃ proof, deriveProof role channelBinding secret digest = .ok proof ∧
      verifyProof role channelBinding secret digest proof = .ok true := by
  have hkey : ∃ key, roleKey channelBinding secret role.info = .ok key := by
    rw [roleKey, roleKeyLen, Sha256.hkdfExpand_block]
    exact ⟨_, rfl⟩
  obtain ⟨key, hkey⟩ := hkey
  refine ⟨⟨Sha256.hmac key digest.asBytes, Sha256.length_hmac _ _⟩, ?_, ?_⟩
  · rw [deriveProof, hkey]
    rfl
  · rw [verifyProof, hkey]
    exact congrArg Except.ok (decide_eq_true rfl)

end Radiata
