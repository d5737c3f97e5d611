import Radiata.ForStd.Saturating
import Radiata.Native.Descriptor
import Radiata.Native.MetadataRecord

/-!
# The local descriptor

`src/membership.rs`, `src/membership/sync.rs`, `src/runtime/supervisor.rs`: the two ways in which
a node comes to a new revision of its own descriptor. A metadata patch edits the stored
descriptor; `ensure_local_descriptor` builds one from the identity and the listening endpoints.
Both hand it to `store_descriptor_ctx`.
-/

namespace Radiata

open Except (rejectIf)

variable [DnsName]

/-- `LabelSet::remove` -/
def LabelSet.remove (set : LabelSet) (key : LabelKey) : LabelSet :=
  ⟨set.entries.erase key, (List.length_filter_le ..).trans set.bounded⟩

namespace NodeDescriptor

/-- `NodeDescriptorV1::new`, which every caller gives version 1. -/
def new (node : NodeId) (publicKey : PublicKey) (endpoints : List Endpoint) (revision : UInt64)
    (removed : Bool) : NodeDescriptor :=
  ⟨node, publicKey, endpoints, .empty, revision, removed, 1, rfl⟩

section New

variable (node : NodeId) (publicKey : PublicKey) (endpoints : List Endpoint) (revision : UInt64)
  (removed : Bool)

@[simp] theorem new_node : (new node publicKey endpoints revision removed).node = node := rfl

@[simp] theorem new_revision :
    (new node publicKey endpoints revision removed).revision = revision := rfl

@[simp] theorem new_removed :
    (new node publicKey endpoints revision removed).removed = removed := rfl

@[simp] theorem new_labels :
    (new node publicKey endpoints revision removed).labels = .empty := rfl

end New

/-- `with_labels` -/
def withLabels (descriptor : NodeDescriptor) (labels : LabelSet) : NodeDescriptor :=
  { descriptor with labels := labels }

end NodeDescriptor

/-! ## Metadata patches -/

/-- `PatchParts` -/
structure PatchParts where
  addEndpoints : List Endpoint
  removeEndpoints : List Endpoint
  setLabels : List (LabelKey × LabelValue)
  removeLabels : List LabelKey

/-- One turn of the loop over the added endpoints. -/
def addEndpoint (endpoints : List Endpoint) (endpoint : Endpoint) : Result (List Endpoint) :=
  if endpoint ∈ endpoints then .error (.conflict "node metadata endpoint")
  else .ok (endpoints ++ [endpoint])

/-- One turn of the loop over the removed endpoints: the first occurrence goes. -/
def removeEndpoint (endpoints : List Endpoint) (endpoint : Endpoint) : Result (List Endpoint) :=
  if endpoint ∈ endpoints then .ok (endpoints.erase endpoint)
  else .error (.notFound "node metadata endpoint")

/-- One turn of the loop over the labels to set, which replaces a label of the key. -/
def setLabel (labels : LabelSet) (label : LabelKey × LabelValue) : Result LabelSet :=
  (labels.remove label.1).insert label.1 label.2

/-- One turn of the loop over the labels to remove. -/
def removeLabel (labels : LabelSet) (key : LabelKey) : Result LabelSet :=
  if labels.entries.contains key then .ok (labels.remove key)
  else .error (.notFound "node metadata label")

/-- `apply_metadata_patch` -/
def applyMetadataPatch (descriptor : NodeDescriptor) (parts : PatchParts) :
    Result NodeDescriptor := do
  let endpoints ← parts.addEndpoints.foldlM addEndpoint descriptor.endpoints
  let endpoints ← parts.removeEndpoints.foldlM removeEndpoint endpoints
  let labels ← parts.setLabels.foldlM setLabel descriptor.labels
  let labels ← parts.removeLabels.foldlM removeLabel labels
  return (NodeDescriptor.new descriptor.node descriptor.publicKey endpoints
    (descriptor.revision + 1) false).withLabels labels

/-! ## The listening endpoints -/

/-- The published endpoints stay: they are the same, or there are no candidates. -/
def keepsEndpoints (current : NodeDescriptor) (endpoints : List Endpoint) : Bool :=
  current.endpoints = endpoints ∨ endpoints = []

/-- The revision of the descriptor that follows the one read. -/
def localRevision (existing : Option NodeDescriptor) : UInt64 :=
  existing.elim 1 (·.revision.saturatingAdd 1)

/-- The descriptor that `ensure_local_descriptor` hands to the store, if any. -/
def ensureLocalDescriptor (identity : LocalIdentityV1) (endpoints : List Endpoint)
    (entries : Entries) : Result (Option NodeDescriptor) := do
  let existing ← readDescriptor entries identity.node
  if existing.any (keepsEndpoints · endpoints) then return none
  return some (.new identity.node identity.publicKey endpoints (localRevision existing) false)

end Radiata
