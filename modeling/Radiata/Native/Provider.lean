import Radiata.ForStd.List
import Radiata.ForStd.Sha256
import Radiata.ForStd.SortedMap
import Radiata.Native.Identity
import Radiata.Native.Tag
import Mathlib.Data.Sum.Order

/-!
# The storage provider interface

`src/provider.rs`: revisions, namespaced keys and values, conditional
operations, transactions with their operation digest, and the outcomes a
provider answers with. `conditionMatches` is the one definition of an operation's
condition that every adapter shares.

Allocation failures (`try_reserve_exact`) are not modelled.
-/

namespace Radiata

/-! ## Machine integers -/

/-- `u64::to_be_bytes` -/
def u64ToBEBytes (n : UInt64) : Bytes := Bytes.toBE 8 n.toNat

/-- `u64::checked_add` -/
def checkedAdd (a b : UInt64) : Option UInt64 :=
  if a.toNat + b.toNat < 2 ^ 64 then some (a + b) else none

/-- `u64::try_from(usize)` -/
def u64TryFrom (n : Nat) : Option UInt64 :=
  if n < 2 ^ 64 then some (UInt64.ofNat n) else none

@[simp] theorem length_u64ToBEBytes (n : UInt64) : (u64ToBEBytes n).length = 8 :=
  Bytes.length_toBE 8 n.toNat

theorem u64ToBEBytes_inj {m n : UInt64} (h : u64ToBEBytes m = u64ToBEBytes n) : m = n :=
  UInt64.toNat_inj.mp (Bytes.toBE_inj (by simpa using m.toNat_lt) (by simpa using n.toNat_lt) h)

theorem checkedAdd_eq_some {a b c : UInt64} :
    checkedAdd a b = some c ↔ c.toNat = a.toNat + b.toNat := by
  simp only [checkedAdd]
  split
  · rename_i hlt
    have hsum : (a + b).toNat = a.toNat + b.toNat := by
      rw [UInt64.toNat_add, Nat.mod_eq_of_lt hlt]
    rw [Option.some.injEq, ← UInt64.toNat_inj, hsum]
    exact eq_comm
  · rename_i hge
    have := c.toNat_lt
    simp only [reduceCtorEq, false_iff]
    omega

theorem u64TryFrom_eq_some {n : Nat} {c : UInt64} :
    u64TryFrom n = some c ↔ c.toNat = n := by
  simp only [u64TryFrom]
  split
  · rename_i hlt
    have hn : (UInt64.ofNat n).toNat = n := by simpa using Nat.mod_eq_of_lt hlt
    rw [Option.some.injEq, ← UInt64.toNat_inj, hn]
    exact eq_comm
  · rename_i hge
    have := c.toNat_lt
    simp only [reduceCtorEq, false_iff]
    omega

/-! ## Revisions, namespaces, keys and values -/

/-- A nonempty opaque revision. -/
structure StoreRevision where
  asBytes : Bytes
  nonempty : asBytes ≠ []

instance : DecidableEq StoreRevision := fun a b =>
  decidable_of_iff (a.asBytes = b.asBytes) <| by
    constructor
    · intro h
      cases a; cases b; simp_all
    · exact congrArg StoreRevision.asBytes

namespace StoreRevision

def new (value : Bytes) : Result StoreRevision :=
  if h : value ≠ [] then .ok ⟨value, h⟩ else .error (.invalidInput "store revision")

/-- The revision of a generation counter. -/
def ofGeneration (generation : UInt64) : StoreRevision :=
  ⟨u64ToBEBytes generation, Bytes.toBE_ne_nil 7 _⟩

theorem new_asBytes (r : StoreRevision) : new r.asBytes = .ok r := by
  simp [new, r.nonempty]

theorem asBytes_of_new {value : Bytes} {r : StoreRevision} (h : new value = .ok r) :
    r.asBytes = value := by
  simp only [new] at h
  split at h
  · cases h; rfl
  · cases h

theorem ext_asBytes {a b : StoreRevision} (h : a.asBytes = b.asBytes) : a = b := by
  cases a; cases b; simp_all

theorem new_u64ToBEBytes (generation : UInt64) :
    new (u64ToBEBytes generation) = .ok (ofGeneration generation) :=
  new_asBytes (ofGeneration generation)

theorem ofGeneration_inj {m n : UInt64} (h : ofGeneration m = ofGeneration n) : m = n :=
  u64ToBEBytes_inj (congrArg StoreRevision.asBytes h)

end StoreRevision

/-- A plain wrapper over a validated tag. -/
abbrev StoreNamespace [DnsName] := QualifiedTag

/-- A key inside a namespace. -/
structure StoreKey where
  asBytes : Bytes
  deriving DecidableEq

theorem StoreKey.ext_asBytes {a b : StoreKey} (h : a.asBytes = b.asBytes) : a = b := by
  cases a; cases b; simp_all

instance : LinearOrder StoreKey := LinearOrder.lift' StoreKey.asBytes (fun _ _ => StoreKey.ext_asBytes)

def storeValueDomain : Bytes := Bytes.utf8 "radiata/store-value/v1\x00"
def storeTransactionDomain : Bytes := Bytes.utf8 "radiata/store-transaction/v1\x00"

/-- `Sha256::digest` as a `Digest` value. -/
def sha256 (message : Bytes) : Digest := ⟨Sha256.hash message, Sha256.length_hash message⟩

/-- `update_length`: a 128-bit big-endian length. -/
def updateLength (value : Nat) : Bytes := Bytes.toBE 16 value

/-- `update_bytes`: a length-prefixed byte string. -/
def updateBytes (value : Bytes) : Bytes := updateLength value.length ++ value

def digestStoreValue (value : Bytes) : Digest := sha256 (storeValueDomain ++ updateBytes value)

/-- A stored value. The source caches its digest; it is a function of the bytes. -/
structure StoreValue where
  asBytes : Bytes
  deriving DecidableEq

def StoreValue.digest (value : StoreValue) : Digest := digestStoreValue value.asBytes

/-- The key of an entry: a namespace and a key in it. -/
structure EntryKey [DnsName] where
  namespaceTag : StoreNamespace
  key : StoreKey
  deriving DecidableEq

/-- The order of `(StoreNamespace, StoreKey)` pairs: namespace first. -/
instance [DnsName] : LinearOrder EntryKey :=
  LinearOrder.lift' (fun k : EntryKey => toLex (k.namespaceTag, k.key)) (by
    intro a b h
    have hpair := toLex_inj.mp h
    cases a; cases b
    simp_all)

theorem EntryKey.lt_iff [DnsName] {a b : EntryKey} :
    a < b ↔ a.namespaceTag < b.namespaceTag ∨ a.namespaceTag = b.namespaceTag ∧ a.key < b.key :=
  Prod.Lex.toLex_lt_toLex (x := (a.namespaceTag, a.key)) (y := (b.namespaceTag, b.key))

/-- `StoreEntry` -/
structure StoreEntry [DnsName] where
  namespaceTag : StoreNamespace
  key : StoreKey
  value : StoreValue
  deriving DecidableEq

/-! ## Operations -/

inductive StoreExpectation where
  | absent
  | exact (digest : Digest)
  deriving DecidableEq

inductive StoreOperation [DnsName] where
  | check (namespaceTag : StoreNamespace) (key : StoreKey) (expected : StoreExpectation)
  | put (namespaceTag : StoreNamespace) (key : StoreKey) (expected : StoreExpectation)
      (value : StoreValue)
  | delete (namespaceTag : StoreNamespace) (key : StoreKey) (expected : Digest)
  | forgetReceipt (transaction : TransactionId) (expectedOperationDigest : Digest)
  deriving DecidableEq

/-- What an operation acts on: an entry or a receipt. -/
inductive StoreOperationIdentity [DnsName] where
  | key (entry : EntryKey)
  | receipt (transaction : TransactionId)
  deriving DecidableEq

namespace StoreOperationIdentity

variable [DnsName]

/-- The derived order: every entry before every receipt. -/
def toLexSum : StoreOperationIdentity → EntryKey ⊕ₗ TransactionId
  | key entry => Sum.inlₗ entry
  | receipt transaction => Sum.inrₗ transaction

theorem toLexSum_injective : Function.Injective toLexSum := by
  intro a b h
  cases a <;> cases b <;> simp_all [toLexSum]

instance : LinearOrder StoreOperationIdentity := LinearOrder.lift' toLexSum toLexSum_injective

end StoreOperationIdentity

section Operations

variable [DnsName]

def StoreOperation.identity : StoreOperation → StoreOperationIdentity
  | .check namespaceTag key _ => .key ⟨namespaceTag, key⟩
  | .put namespaceTag key _ _ => .key ⟨namespaceTag, key⟩
  | .delete namespaceTag key _ => .key ⟨namespaceTag, key⟩
  | .forgetReceipt transaction _ => .receipt transaction

/-- `validate_distinct_operations`: sort the identities and compare neighbours. -/
def validateDistinctOperations (operations : List StoreOperation) : Result Unit :=
  let identities := (operations.map StoreOperation.identity).insertionSort (· ≤ ·)
  if identities.allAdjacent (fun a b => a ≠ b) then .ok ()
  else .error (.invalidInput "storage transaction operations")

theorem validateDistinctOperations_eq_ok {operations : List StoreOperation} :
    validateDistinctOperations operations = .ok () ↔
      (operations.map StoreOperation.identity).Nodup := by
  rw [← List.allAdjacent_insertionSort_iff_nodup (fun a b => a ≠ b) (by simp)]
  simp only [validateDistinctOperations]
  split
  · rename_i h; exact iff_of_true rfl h
  · rename_i h; exact iff_of_false (by simp) h

def updateNamespaceAndKey (namespaceTag : StoreNamespace) (key : StoreKey) : Bytes :=
  updateBytes namespaceTag.asStr ++ updateBytes key.asBytes

def updateExpectation : StoreExpectation → Bytes
  | .absent => [0]
  | .exact digest => 1 :: digest.asBytes

def updateOperation : StoreOperation → Bytes
  | .check namespaceTag key expected =>
    0 :: updateNamespaceAndKey namespaceTag key ++ updateExpectation expected
  | .put namespaceTag key expected value =>
    1 :: updateNamespaceAndKey namespaceTag key ++ updateExpectation expected
      ++ updateBytes value.asBytes
  | .delete namespaceTag key expected =>
    2 :: updateNamespaceAndKey namespaceTag key ++ expected.asBytes
  | .forgetReceipt transaction expectedOperationDigest =>
    3 :: updateBytes transaction.asStr ++ expectedOperationDigest.asBytes

/-- The byte string `digest_store_operations` feeds to the hash. -/
def storeOperationsPreimage (baseRevision : StoreRevision) (operations : List StoreOperation) :
    Bytes :=
  storeTransactionDomain ++ updateBytes baseRevision.asBytes ++ updateLength operations.length
    ++ operations.flatMap updateOperation

def digestStoreOperations (baseRevision : StoreRevision) (operations : List StoreOperation) :
    Digest :=
  sha256 (storeOperationsPreimage baseRevision operations)

end Operations

/-- A conditional transaction. The fields are private in the source and only
    `StoreTransaction.new` builds one; the adapters nevertheless recheck the digest. -/
structure StoreTransaction [DnsName] where
  id : TransactionId
  operationDigest : Digest
  baseRevision : StoreRevision
  operations : List StoreOperation
  deriving DecidableEq

namespace StoreTransaction

variable [DnsName]

def new (id : TransactionId) (baseRevision : StoreRevision) (operations : List StoreOperation) :
    Result StoreTransaction := do
  if operations.isEmpty then
    throw (.invalidInput "storage transaction operations")
  validateDistinctOperations operations
  return {
    id := id
    operationDigest := digestStoreOperations baseRevision operations
    baseRevision := baseRevision
    operations := operations }

def computedOperationDigest (transaction : StoreTransaction) : Digest :=
  digestStoreOperations transaction.baseRevision transaction.operations

/-- What `new` builds, and when. -/
theorem new_eq_ok {id : TransactionId} {baseRevision : StoreRevision}
    {operations : List StoreOperation} {transaction : StoreTransaction} :
    new id baseRevision operations = .ok transaction ↔
      operations ≠ [] ∧ (operations.map StoreOperation.identity).Nodup ∧
      transaction =
        ⟨id, digestStoreOperations baseRevision operations, baseRevision, operations⟩ := by
  simp only [new]
  cases operations with
  | nil => simp [List.isEmpty]
  | cons operation rest =>
    rw [← validateDistinctOperations_eq_ok]
    simp only [List.isEmpty_cons, Bool.false_eq_true, ↓reduceIte, Result.pure_eq_ok,
      ne_eq, reduceCtorEq, not_false_eq_true, true_and]
    cases hv : validateDistinctOperations (operation :: rest) with
    | error e => simp
    | ok u => simp [eq_comm]

end StoreTransaction

/-! ## Outcomes -/

structure CommitReceipt where
  transaction : TransactionId
  operationDigest : Digest
  committedRevision : StoreRevision
  deriving DecidableEq

inductive CommitOutcome where
  | committed (receipt : CommitReceipt)
  | aborted
  | conflict
  | unknown (transaction : TransactionId) (operationDigest : Digest)
  deriving DecidableEq

inductive ReconcileOutcome where
  | committed (receipt : CommitReceipt)
  | aborted
  | digestConflict
  | unknown
  deriving DecidableEq

/-! ## Conditions -/

abbrev Entries [DnsName] := SortedMap EntryKey StoreValue
abbrev Receipts := SortedMap TransactionId CommitReceipt

def expectationMatches (value : Option StoreValue) (expected : StoreExpectation) : Bool :=
  match value, expected with
  | none, .absent => true
  | some value, .exact digest => value.digest == digest
  | _, _ => false

/-- Evaluates one conditional operation against the current entries and receipts. -/
def conditionMatches [DnsName] (entries : Entries) (receipts : Receipts) :
    StoreOperation → Bool
  | .check namespaceTag key expected => expectationMatches (entries.get ⟨namespaceTag, key⟩) expected
  | .put namespaceTag key expected _ => expectationMatches (entries.get ⟨namespaceTag, key⟩) expected
  | .delete namespaceTag key expected =>
    (entries.get ⟨namespaceTag, key⟩).any (fun value => value.digest == expected)
  | .forgetReceipt transaction expectedOperationDigest =>
    (receipts.get transaction).any (fun receipt => receipt.operationDigest == expectedOperationDigest)

end Radiata
