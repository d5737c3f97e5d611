import Radiata.Native.LocalDescriptor
import Radiata.Spec.DescriptorConverge

/-!
# Revisions of the local descriptor

A metadata patch carries everything over that it does not edit. `ensure_local_descriptor` starts
from an empty label set instead: a republication of endpoints loses the labels that were set
before.

## Key results

- `applyMetadataPatch_keeps`: what a metadata patch leaves alone
- `republication_keeps_metadata_iff`: when a republication leaves the metadata alone
-/

namespace Radiata

section LocalDescriptor

variable [DnsName]

/-- Two descriptors that differ in the endpoints and the revision at most. -/
structure SameMetadata (old new : NodeDescriptor) : Prop where
  node : new.node = old.node
  publicKey : new.publicKey = old.publicKey
  labels : new.labels = old.labels
  removed : new.removed = old.removed
  version : new.version = old.version

/-! ## Metadata patches -/

variable {labels result : LabelSet} {key : LabelKey}

/-- Setting a label leaves the labels of other keys alone. -/
theorem setLabel_keeps {label : LabelKey × LabelValue} (h : setLabel labels label = .ok result)
    (hkey : key ≠ label.1) :
    result.entries.get key = labels.entries.get key := by
  rw [LabelSet.insert_eq_ok h, SortedMap.get_insert_ne _ _ hkey]
  exact SortedMap.get_erase_ne _ hkey

/-- Removing a label leaves the labels of other keys alone. -/
theorem removeLabel_keeps {removed : LabelKey} (h : removeLabel labels removed = .ok result)
    (hkey : key ≠ removed) :
    result.entries.get key = labels.entries.get key := by
  unfold removeLabel at h
  split at h
  · cases h
    exact SortedMap.get_erase_ne _ hkey
  · cases h

theorem foldlM_setLabel_keeps {edits : List (LabelKey × LabelValue)}
    (h : edits.foldlM setLabel labels = .ok result) (hkey : ∀ edit ∈ edits, key ≠ edit.1) :
    result.entries.get key = labels.entries.get key := by
  induction edits generalizing labels with
  | nil =>
    cases h
    rfl
  | cons edit rest ih =>
    obtain ⟨next, hnext, h⟩ := Result.bind_eq_ok.mp h
    have hrest := ih h fun other hother => hkey other (List.mem_cons_of_mem _ hother)
    rw [hrest]
    exact setLabel_keeps hnext (hkey edit (List.mem_cons_self ..))

theorem foldlM_removeLabel_keeps {edits : List LabelKey}
    (h : edits.foldlM removeLabel labels = .ok result) (hkey : key ∉ edits) :
    result.entries.get key = labels.entries.get key := by
  induction edits generalizing labels with
  | nil =>
    cases h
    rfl
  | cons edit rest ih =>
    rw [List.mem_cons, not_or] at hkey
    obtain ⟨next, hnext, h⟩ := Result.bind_eq_ok.mp h
    rw [ih h hkey.2]
    exact removeLabel_keeps hnext hkey.1

variable {descriptor : NodeDescriptor}

/-- A metadata patch keeps the node, its key and the labels of the keys it does not name. -/
theorem applyMetadataPatch_keeps {updated : NodeDescriptor} {parts : PatchParts}
    (h : applyMetadataPatch descriptor parts = .ok updated) :
    updated.node = descriptor.node ∧ updated.publicKey = descriptor.publicKey ∧
      updated.revision = descriptor.revision + 1 ∧ updated.removed = false ∧
      ∀ key, (∀ edit ∈ parts.setLabels, key ≠ edit.1) → key ∉ parts.removeLabels →
        updated.labels.entries.get key = descriptor.labels.entries.get key := by
  obtain ⟨added, -, h⟩ := Result.bind_eq_ok.mp h
  obtain ⟨endpoints, -, h⟩ := Result.bind_eq_ok.mp h
  obtain ⟨labels, hset, h⟩ := Result.bind_eq_ok.mp h
  obtain ⟨remaining, hremoved, h⟩ := Result.bind_eq_ok.mp h
  cases h
  refine ⟨rfl, rfl, rfl, rfl, fun key hkey hkept => ?_⟩
  show remaining.entries.get key = descriptor.labels.entries.get key
  rw [foldlM_removeLabel_keeps hremoved hkept, foldlM_setLabel_keeps hset hkey]

/-! ## Republications -/

variable {identity : LocalIdentityV1} {endpoints : List Endpoint}

/-- What `ensure_local_descriptor` hands to the store: the endpoints, and nothing of what is
    stored but the revision. -/
theorem ensureLocalDescriptor_eq_some {entries : Entries}
    (h : ensureLocalDescriptor identity endpoints entries = .ok (some descriptor)) :
    ∃ revision, descriptor = .new identity.node identity.publicKey endpoints revision false := by
  obtain ⟨existing, -, h⟩ := Result.bind_eq_ok.mp h
  split at h
  · cases h
  · cases h
    exact ⟨_, rfl⟩

variable {stored : NodeDescriptor}

/-- A stored descriptor under its key. -/
theorem readDescriptor_eq_some {node : NodeId} {key : EntryKey} {entries : Entries}
    (hkey : descriptorKey node = .ok key) (h : readDescriptor entries node = .ok (some stored)) :
    ∃ value, entries.get key = some value ∧ decodeDescriptor value.asBytes = .ok stored := by
  simp only [readDescriptor, hkey, Result.ok_bind] at h
  cases hvalue : entries.get key with
  | none =>
    rw [hvalue] at h
    cases h
  | some value =>
    rw [hvalue] at h
    obtain ⟨decoded, hdecoded, h⟩ := Result.bind_eq_ok.mp h
    cases h
    exact ⟨value, rfl, hdecoded⟩

variable {pinned : NodeId → Prop} {origin : ReferenceState} {s : PageSystem NodeDescriptor Error}
  {before : Entries} {i : Nat} {transaction : StoreTransaction} {receipt : CommitReceipt}

/-- A committed republication: what the store has afterwards, and what it had. -/
theorem republication_effect (hhosts : FoldedHosts)
    (hs : (PageSystem.runs (descriptorCalls pinned) origin).Reachable s)
    (hensure : ensureLocalDescriptor identity endpoints before = .ok (some descriptor))
    (hcall : s.system.calls[i]? = some (.prepared descriptor transaction))
    (hcommitted : (s.system.store.commit transaction).1 = .ok (.committed receipt))
    (hstored : readDescriptor s.system.store.entries identity.node = .ok (some stored)) :
    ∃ revision, readDescriptor (s.system.store.commit transaction).2.entries identity.node =
        .ok (some (.new identity.node identity.publicKey endpoints revision false)) ∧
      stored.revision.toNat < revision.toNat ∧ stored.removed = false := by
  obtain ⟨revision, rfl⟩ := ensureLocalDescriptor_eq_some hensure
  obtain ⟨key, value, hdecide, hputs⟩ :=
    (PageSystem.sound_of_reachable hs).commit_installed hcall hcommitted
  have hreplaces := storeDescriptor_put hhosts hdecide
  have hkey : descriptorKey identity.node = .ok key := hreplaces.own
  -- The commit puts the descriptor in the place of the stored one.
  have hafter := hputs key (Or.inl ⟨identity.node, hkey⟩)
  rw [if_pos rfl] at hafter
  obtain ⟨old, hold, hdecoded⟩ := readDescriptor_eq_some hkey hstored
  obtain ⟨existing, hexisting, hless, hremoved⟩ := hreplaces.later old hold
  obtain rfl : stored = existing := Except.ok.inj (hdecoded.symm.trans hexisting)
  refine ⟨revision, readDescriptor_of_get hkey hafter hreplaces.written,
    UInt64.lt_iff_toNat_lt.mp hless, ?_⟩
  -- A removal marker is not replaced by a live descriptor.
  cases hmarker : stored.removed with
  | false => rfl
  | true => exact absurd (hremoved hmarker) Bool.false_ne_true

/-- In every run of a node, whatever the call read before and whatever else was committed in
    between: a committed republication is a later revision with its endpoints, and it has the
    metadata of the descriptor it replaces exactly if that one carries no labels and is of the
    local identity. -/
theorem republication_keeps_metadata_iff (hhosts : FoldedHosts)
    (hs : (PageSystem.runs (descriptorCalls pinned) origin).Reachable s)
    (hensure : ensureLocalDescriptor identity endpoints before = .ok (some descriptor))
    (hcall : s.system.calls[i]? = some (.prepared descriptor transaction))
    (hcommitted : (s.system.store.commit transaction).1 = .ok (.committed receipt))
    (hstored : readDescriptor s.system.store.entries identity.node = .ok (some stored)) :
    ∃ new, readDescriptor (s.system.store.commit transaction).2.entries identity.node =
        .ok (some new) ∧ stored.revision.toNat < new.revision.toNat ∧ new.endpoints = endpoints ∧
      (SameMetadata stored new ↔ stored.node = identity.node ∧
        stored.publicKey = identity.publicKey ∧ stored.labels = .empty) := by
  obtain ⟨revision, hafter, hless, hlive⟩ :=
    republication_effect hhosts hs hensure hcall hcommitted hstored
  refine ⟨_, hafter, hless, rfl, ?_⟩
  constructor
  · intro hsame
    exact ⟨hsame.node.symm, hsame.publicKey.symm, hsame.labels.symm⟩
  · intro ⟨hnode, hpublicKey, hlabels⟩
    exact ⟨hnode.symm, hpublicKey.symm, hlabels.symm, hlive.symm, stored.supported.symm⟩

/-! ## Republications of a stored descriptor -/

/-- A store with one descriptor. -/
def descriptorStore (key : EntryKey) (bytes : Bytes) : ReferenceState :=
  ⟨0, SortedMap.empty.insert key ⟨bytes⟩, .empty⟩

/-- A live descriptor can be republished with other endpoints. -/
theorem exists_republication (hhosts : FoldedHosts) {key : EntryKey} {bytes newBytes : Bytes}
    (hkey : descriptorKey identity.node = .ok key) (hstored : stored.encode = .ok bytes)
    (hlive : stored.removed = false) (hchanges : keepsEndpoints stored endpoints = false)
    (hrevision : stored.revision.toNat + 1 < 2 ^ 64)
    (hnew : (NodeDescriptor.new identity.node identity.publicKey endpoints
      (localRevision (some stored)) false).encode = .ok newBytes) :
    ∃ s descriptor transaction receipt,
      (PageSystem.runs (descriptorCalls fun _ => False) (descriptorStore key bytes)).Reachable s ∧
      ensureLocalDescriptor identity endpoints s.system.store.entries = .ok (some descriptor) ∧
      s.system.calls[0]? = some (.prepared descriptor transaction) ∧
      (s.system.store.commit transaction).1 = .ok (.committed receipt) ∧
      readDescriptor s.system.store.entries identity.node = .ok (some stored) := by
  obtain ⟨internal, hinternal⟩ := exists_internalNamespace hkey
  have hexternal : key.namespaceTag.asStr ≠ internalNamespaceText := by
    rw [(descriptorKey_eq_ok hkey).1]
    decide
  have hmarker : (⟨internal, usedIdKey firstTransaction⟩ : EntryKey) ≠ key := by
    intro heq
    exact hexternal (heq ▸ asStr_of_internalNamespace hinternal)
  have hfound : (descriptorStore key bytes).entries.get key = some ⟨bytes⟩ :=
    SortedMap.get_insert_self ..
  have hdecoded := NodeDescriptor.decode_encode hhosts hstored
  have hread := readDescriptor_of_get hkey hfound hdecoded
  have hensure : ensureLocalDescriptor identity endpoints (descriptorStore key bytes).entries =
      .ok (some (.new identity.node identity.publicKey endpoints (localRevision (some stored))
        false)) := by
    simp [ensureLocalDescriptor, hread, hchanges]
  -- The new revision is the next one, so the store takes it.
  have hless : ¬ localRevision (some stored) ≤ stored.revision := by
    have hone : (1 : UInt64).toNat = 1 := rfl
    rw [UInt64.le_iff_toNat_le, localRevision, Option.elim_some, UInt64.toNat_saturatingAdd]
    omega
  have hdecide : storeDescriptor (.new identity.node identity.publicKey endpoints
      (localRevision (some stored)) false) (descriptorStore key bytes).entries =
      .ok (.put key ⟨newBytes⟩) := by
    simp [storeDescriptor, hkey, storeConflict, hfound, hdecoded, descriptorConflict, hless, hlive,
      hnew]
  generalize NodeDescriptor.new identity.node identity.publicKey endpoints
    (localRevision (some stored)) false = descriptor at hensure hdecide
  obtain ⟨prepared, receipt, after, hput, hcommit, -⟩ :=
    PageSystem.exists_commit (descriptorStore key bytes) firstTransaction ⟨newBytes⟩ hinternal
      hexternal rfl ((SortedMap.get_insert_ne _ _ hmarker).trans rfl) (show 0 + 1 < 2 ^ 64 by decide)
  have hinit : (PageSystem.runs (descriptorCalls fun _ => False)
      (descriptorStore key bytes)).Reachable ⟨⟨descriptorStore key bytes, []⟩, []⟩ := .init rfl
  have hreached : (PageSystem.runs (descriptorCalls fun _ => False)
      (descriptorStore key bytes)).Reachable ⟨⟨descriptorStore key bytes,
        [PutSystem.afterRead (descriptorCalls fun _ => False).toPutProtocol
          (descriptorStore key bytes) descriptor firstTransaction]⟩, []⟩ :=
    PageSystem.reach_read_of_started (hinit.step (PageSystem.Step.start _ trivial)) (by simp) rfl
  have hprepared : PutSystem.afterRead (descriptorCalls fun _ => False).toPutProtocol
      (descriptorStore key bytes) descriptor firstTransaction =
      .prepared descriptor prepared.transaction := by
    simp only [PutSystem.afterRead, descriptorCalls, hdecide, hput]
  rw [hprepared] at hreached
  exact ⟨_, descriptor, prepared.transaction, receipt, hreached, hensure, rfl, by rw [hcommit],
    hread⟩

end LocalDescriptor

/-! ## A label and a new endpoint -/

/-- The identity of a node. -/
def sampleLocalIdentity : LocalIdentityV1 where
  node := sampleNode
  publicKey := .fill 7
  operation := .ofDigits 0 0
  handle := .ofByte 1

theorem exists_localKey : ∃ key, @descriptorKey .hostNames sampleLocalIdentity.node = .ok key :=
  exists_sampleKey

/-- The republication of a descriptor without labels keeps everything else. -/
theorem unlabelled_republication :
    letI := DnsName.hostNames
    ∃ (s : PageSystem NodeDescriptor Error) (transaction : StoreTransaction)
      (receipt : CommitReceipt) (endpoint : Endpoint) (new : NodeDescriptor),
      (s.system.store.commit transaction).1 = .ok (.committed receipt) ∧
      readDescriptor (s.system.store.commit transaction).2.entries sampleNode = .ok (some new) ∧
      new.endpoints = [endpoint] ∧ SameMetadata (sampleDescriptor 1 false) new := by
  let _ := DnsName.hostNames
  obtain ⟨key, hkey⟩ := exists_localKey
  obtain ⟨_, h⟩ := Result.exists_of_isSome_toOption (r := do
    let endpoint ← Endpoint.parse (Bytes.utf8 "wss://edge:9000")
    let _ ← (sampleDescriptor 1 false).encode
    (NodeDescriptor.new sampleLocalIdentity.node sampleLocalIdentity.publicKey [endpoint]
      (localRevision (some (sampleDescriptor 1 false))) false).encode) (by decide +kernel)
  obtain ⟨endpoint, -, h⟩ := Result.bind_eq_ok.mp h
  obtain ⟨bytes, hbytes, hnew⟩ := Result.bind_eq_ok.mp h
  obtain ⟨s, descriptor, transaction, receipt, hs, hensure, hcall, hcommitted, hread⟩ :=
    exists_republication foldedHosts_hostNames hkey hbytes rfl rfl (by decide) hnew
  obtain ⟨new, hafter, -, hendpoints, hsame⟩ := republication_keeps_metadata_iff
    foldedHosts_hostNames hs hensure hcall hcommitted hread
  exact ⟨s, transaction, receipt, endpoint, new, hcommitted, hafter, hendpoints,
    hsame.mpr ⟨rfl, rfl, rfl⟩⟩

/-- The patch that sets one label. -/
def labelPatch [DnsName] (key : LabelKey) (value : LabelValue) : PatchParts :=
  ⟨[], [], [(key, value)], []⟩

/-- A patch that sets one label leaves a set with that label. -/
theorem get_labelPatch [DnsName] {descriptor updated : NodeDescriptor} {key : LabelKey}
    {value : LabelValue} (h : applyMetadataPatch descriptor (labelPatch key value) = .ok updated) :
    updated.labels.entries.get key = some value := by
  obtain ⟨added, -, h⟩ := Result.bind_eq_ok.mp h
  obtain ⟨endpoints, -, h⟩ := Result.bind_eq_ok.mp h
  obtain ⟨labels, hset, h⟩ := Result.bind_eq_ok.mp h
  obtain ⟨remaining, hremoved, h⟩ := Result.bind_eq_ok.mp h
  obtain ⟨inserted, hinserted, hset⟩ := Result.bind_eq_ok.mp hset
  cases hset
  cases hremoved
  cases h
  show labels.entries.get key = some value
  rw [LabelSet.insert_eq_ok hinserted]
  exact SortedMap.get_insert_self ..

/-- A label is set at the second revision and lost at the third, with a new endpoint. -/
theorem republication_loses_label :
    letI := DnsName.hostNames
    ∃ (label : LabelKey) (value : LabelValue) (endpoint : Endpoint) (origin : ReferenceState)
      (s : PageSystem NodeDescriptor Error) (updated descriptor new : NodeDescriptor)
      (transaction : StoreTransaction) (receipt : CommitReceipt),
      applyMetadataPatch (sampleDescriptor 1 false) (labelPatch label value) = .ok updated ∧
      (PageSystem.runs (descriptorCalls fun _ => False) origin).Reachable s ∧
      readDescriptor s.system.store.entries sampleNode = .ok (some updated) ∧
      ensureLocalDescriptor sampleLocalIdentity [endpoint] s.system.store.entries =
        .ok (some descriptor) ∧
      s.system.calls[0]? = some (.prepared descriptor transaction) ∧
      (s.system.store.commit transaction).1 = .ok (.committed receipt) ∧
      readDescriptor (s.system.store.commit transaction).2.entries sampleNode = .ok (some new) ∧
      updated.labels.entries.get label = some value ∧ new.labels.entries.get label = none := by
  let _ := DnsName.hostNames
  obtain ⟨key, hkey⟩ := exists_localKey
  obtain ⟨_, h⟩ := Result.exists_of_isSome_toOption (r := do
    let label ← LabelKey.parse (Bytes.utf8 "example.org/labels/zone")
    let value ← LabelValue.parse (Bytes.utf8 "north")
    let updated ← applyMetadataPatch (sampleDescriptor 1 false) (labelPatch label value)
    let endpoint ← Endpoint.parse (Bytes.utf8 "wss://edge:9000")
    Except.rejectIf (keepsEndpoints updated [endpoint] = true ∨ updated.revision ≠ 2)
      (.conflict "node descriptor revision")
    let _ ← updated.encode
    (NodeDescriptor.new sampleLocalIdentity.node sampleLocalIdentity.publicKey [endpoint]
      (localRevision (some updated)) false).encode) (by decide +kernel)
  obtain ⟨label, -, h⟩ := Result.bind_eq_ok.mp h
  obtain ⟨value, -, h⟩ := Result.bind_eq_ok.mp h
  obtain ⟨updated, hupdated, h⟩ := Result.bind_eq_ok.mp h
  obtain ⟨endpoint, -, h⟩ := Result.bind_eq_ok.mp h
  obtain ⟨hchanges, h⟩ := Except.seq_eq_ok.mp h
  obtain ⟨bytes, hbytes, hnew⟩ := Result.bind_eq_ok.mp h
  rw [Except.rejectIf_eq_ok, not_or, not_not, Bool.not_eq_true] at hchanges
  obtain ⟨hchanges, hrevision⟩ := hchanges
  have hlive : updated.removed = false := (applyMetadataPatch_keeps hupdated).2.2.2.1
  obtain ⟨s, descriptor, transaction, receipt, hs, hensure, hcall, hcommitted, hread⟩ :=
    exists_republication foldedHosts_hostNames hkey hbytes hlive hchanges
      (by rw [hrevision]; decide) hnew
  obtain ⟨revision, hafter, -⟩ :=
    republication_effect foldedHosts_hostNames hs hensure hcall hcommitted hread
  exact ⟨label, value, endpoint, _, s, updated, descriptor, _, transaction, receipt, hupdated, hs,
    hread, hensure, hcall, hcommitted, hafter, get_labelPatch hupdated, rfl⟩

end Radiata
