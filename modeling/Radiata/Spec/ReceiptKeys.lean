import Radiata.Native.Receipt

/-!
# Keys of the internal namespace

The records a receipt owns (its used-id marker, reference head, eligibility
anchor and reference edges) have pairwise different keys, and a key determines
its owner. The reserved namespace of the caller check is the one the engine
writes to.

## Key results

- `RecordKind.key_inj` / `record_inj`: a key determines its kind and its owner
- `isEdge_iff`: the keys that the scan for reference edges finds
- `namespace_ne_of_not_reserved`: a caller never writes to the internal namespace
-/

namespace Radiata

/-! ## Key layout -/

theorem length_referenceEdgePrefix (transaction : TransactionId) :
    (referenceEdgePrefix transaction).length = 44 := by
  have htag : referenceEdgeTag.length = 16 := by decide
  simp [referenceEdgePrefix, htag, transaction.length_asStr]

theorem length_referenceEdgeKey (transaction : TransactionId) (token : ReceiptReferenceToken) :
    (referenceEdgeKey transaction token).asBytes.length
      = (referenceEdgePrefix transaction).length + referenceTokenWidth := by
  simp [referenceEdgeKey, referenceTokenWidth, token.digest.width]

variable {t t' : TransactionId}

theorem taggedTransactionKey_inj {tag : Bytes}
    (h : taggedTransactionKey tag t = taggedTransactionKey tag t') : t = t' := by
  simp only [taggedTransactionKey, StoreKey.mk.injEq, List.append_cancel_left_eq] at h
  exact CanonicalId.ext_asStr h

theorem referenceEdgePrefix_inj (h : referenceEdgePrefix t = referenceEdgePrefix t') : t = t' := by
  simp only [referenceEdgePrefix, t.length_asStr, t'.length_asStr, List.append_cancel_right_eq,
    List.append_cancel_left_eq] at h
  exact CanonicalId.ext_asStr h

theorem referenceEdgeKey_inj {token token' : ReceiptReferenceToken}
    (h : referenceEdgeKey t token = referenceEdgeKey t' token') : t = t' ∧ token = token' := by
  simp only [referenceEdgeKey, StoreKey.mk.injEq] at h
  obtain ⟨hpre, hdigest⟩ := List.append_inj h (by simp only [length_referenceEdgePrefix])
  refine ⟨referenceEdgePrefix_inj hpre, ?_⟩
  cases token
  cases token'
  exact congrArg ReceiptReferenceToken.mk (Digest.ext_asBytes hdigest)

/-! ## Records -/

/-- The kind of a record. -/
inductive RecordKind where
  | marker
  | head
  | anchor
  | edge (token : ReceiptReferenceToken)
  deriving DecidableEq

/-- The key of a record. -/
def RecordKind.key (t : TransactionId) : RecordKind → StoreKey
  | marker => usedIdKey t
  | head => referenceHeadKey t
  | anchor => eligibilityAnchorKey t
  | edge token => referenceEdgeKey t token

/-- A record key determines the receipt and the kind. -/
theorem RecordKind.key_inj {kind kind' : RecordKind} (h : kind.key t = kind'.key t') :
    t = t' ∧ kind = kind' := by
  have hbytes := congrArg StoreKey.asBytes h
  cases kind with
  | marker =>
    cases kind' with
    | marker => exact ⟨taggedTransactionKey_inj h, rfl⟩
    | _ => cases hbytes
  | head =>
    cases kind' with
    | head => exact ⟨taggedTransactionKey_inj h, rfl⟩
    | _ => cases hbytes
  | anchor =>
    cases kind' with
    | anchor => exact ⟨taggedTransactionKey_inj h, rfl⟩
    | _ => cases hbytes
  | edge token =>
    cases kind' with
    | edge token' =>
      obtain ⟨ht, htoken⟩ := referenceEdgeKey_inj h
      exact ⟨ht, by rw [htoken]⟩
    | _ => cases hbytes

/-- A key with the edge prefix of a receipt is the key of one of its edges, if it is
    a record key at all. -/
theorem RecordKind.edge_of_prefix {kind : RecordKind}
    (h : referenceEdgePrefix t <+: (kind.key t').asBytes) :
    t' = t ∧ ∃ token, kind = edge token := by
  obtain ⟨rest, hrest⟩ := h
  cases kind with
  | edge token =>
    have hlen : (referenceEdgePrefix t).length = (referenceEdgePrefix t').length := by
      simp only [length_referenceEdgePrefix]
    exact ⟨(referenceEdgePrefix_inj (List.append_inj hrest hlen).1).symm, token, rfl⟩
  | _ => cases hrest

theorem internalNamespaceText_eq : ∃ rest,
    internalNamespaceText = builtinDomain ++ slash :: rest :=
  ⟨Bytes.utf8 "metadata/receipt-internal-v1", by decide⟩

/-- The host-name grammar accepts the reserved text. -/
theorem exists_internalNamespace_hostNames :
    ∃ internal, @internalNamespace .hostNames = .ok internal :=
  Result.exists_of_isSome_toOption (by decide)

variable [DnsName]

/-- The entry of a record. -/
def record (internal : StoreNamespace) (t : TransactionId) (kind : RecordKind) : EntryKey :=
  ⟨internal, kind.key t⟩

variable {internal : StoreNamespace}

theorem record_inj {kind kind' : RecordKind}
    (h : record internal t kind = record internal t' kind') : t = t' ∧ kind = kind' :=
  RecordKind.key_inj (congrArg EntryKey.key h)

/-- The entries under the edge keys of a receipt. -/
def isEdge (internal : StoreNamespace) (t : TransactionId) (k : EntryKey) : Bool :=
  k.namespaceTag = internal ∧ referenceEdgePrefix t <+: k.key.asBytes
    ∧ k.key.asBytes.length = (referenceEdgePrefix t).length + referenceTokenWidth

theorem isEdge_iff {k : EntryKey} :
    isEdge internal t k = true ↔ ∃ token, k = record internal t (.edge token) := by
  simp only [isEdge, decide_eq_true_eq]
  constructor
  · rintro ⟨hns, ⟨rest, hrest⟩, hlen⟩
    have hwidth : rest.length = 32 := by
      rw [← hrest, List.length_append] at hlen
      simpa [referenceTokenWidth] using hlen
    refine ⟨⟨⟨rest, hwidth⟩⟩, ?_⟩
    obtain ⟨namespaceTag, key⟩ := k
    simp only at hns hrest
    subst hns
    exact congrArg (EntryKey.mk namespaceTag) (StoreKey.ext_asBytes hrest.symm)
  · rintro ⟨token, rfl⟩
    exact ⟨rfl, ⟨token.digest.asBytes, rfl⟩, length_referenceEdgeKey t token⟩

theorem isEdge_record {kind : RecordKind} (h : isEdge internal t (record internal t' kind) = true) :
    t' = t ∧ ∃ token, kind = .edge token := by
  obtain ⟨token, htoken⟩ := isEdge_iff.mp h
  obtain ⟨ht, hkind⟩ := record_inj htoken
  exact ⟨ht, token, hkind⟩

theorem isEdge_edge (internal : StoreNamespace) (t : TransactionId)
    (token : ReceiptReferenceToken) : isEdge internal t (record internal t (.edge token)) = true :=
  isEdge_iff.mpr ⟨token, rfl⟩

/-! ## The reserved namespace -/

/-- The engine's namespace carries the reserved text. -/
theorem asStr_of_internalNamespace (h : internalNamespace = .ok internal) :
    internal.asStr = internalNamespaceText := by
  obtain ⟨rest, hrest⟩ := internalNamespaceText_eq
  rw [internalNamespace, hrest] at h
  rw [hrest]
  exact QualifiedTag.asStr_of_parse_lowercase h (by decide) (by decide)

/-- A caller operation that passes the reserved check acts on another namespace. -/
theorem namespace_ne_of_not_reserved (h : internalNamespace = .ok internal) {op : StoreOperation}
    (hop : operationUsesReservedNamespace op = false) :
    ∃ k : EntryKey, op.identity = .key k ∧ k.namespaceTag ≠ internal := by
  have hne : ∀ namespaceTag : StoreNamespace,
      (namespaceTag.asStr == internalNamespaceText) = false → namespaceTag ≠ internal := by
    rintro namespaceTag hneq rfl
    rw [asStr_of_internalNamespace h] at hneq
    simp at hneq
  cases op with
  | check namespaceTag key expected | put namespaceTag key expected value
  | delete namespaceTag key expected => exact ⟨_, rfl, hne _ hop⟩
  | forgetReceipt _ _ => cases hop

end Radiata
