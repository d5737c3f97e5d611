import Radiata.Spec.RegisterCorrect

/-!
# The cluster of a stored record

The calls of the node itself write records of its own cluster. A page is checked record by record
against the key of the writer alone, so what a page brings into the register is of the node's
cluster as long as no loop comes to an admitted record of another one.

## Key results

- `stored_clusters_local`: the register in runs without admitted foreign records
- `foreign_record_installed`: a page with a foreign record
-/

namespace Radiata

section Cluster

variable [DnsName] [Ed25519]

/-- The register of a node of a cluster: its own calls write records of the cluster. -/
def clusterCalls (cluster : ClusterId) : PageProtocol RegisterOperation ResourceRecord :=
  registerCalls False fun operation => operation.subject.cluster = cluster

/-- No loop over a page is at a record of another cluster that it lets through. -/
def NoForeign (cluster : ClusterId) (s : PageSystem RegisterOperation ResourceRecord) : Prop :=
  ∀ task ∈ s.tasks, ∀ item rest, task.rest = item :: rest → task.waiting = none →
    task.stopped = false → admitsRecord item s.system.store.entries = true →
    item.subject.cluster = cluster

/-- The runs whose steps are all taken from such states. -/
def guardedRuns (cluster : ClusterId) (origin : ReferenceState) :
    TransitionSystem (PageSystem RegisterOperation ResourceRecord) :=
  (PageSystem.runs (clusterCalls cluster) origin).restrict fun s _ => NoForeign cluster s

/-- Every record in a register names the cluster. -/
def AllLocal (cluster : ClusterId) (entries : Entries) : Prop :=
  ∀ name key value record, recordKey name = .ok key → entries.get key = some value →
    ResourceRecord.decode value.asBytes = .ok record → record.cluster = cluster

variable {cluster : ClusterId} {origin : ReferenceState}
  {s t : PageSystem RegisterOperation ResourceRecord}

/-- Every call is for a record of the cluster, and so is everything a page has installed. -/
structure CallsLocal (cluster : ClusterId) (s : PageSystem RegisterOperation ResourceRecord) :
    Prop where
  calls : ∀ operation ∈ s.system.operations, operation.subject.cluster = cluster
  applied : ∀ task ∈ s.tasks, ∀ item ∈ task.applied, item.subject.cluster = cluster

theorem CallsLocal.of_start (h : CallsLocal cluster s) {operation : RegisterOperation}
    (hlocal : operation.subject.cluster = cluster) :
    ∀ other ∈ (s.system.start operation).operations, other.subject.cluster = cluster := by
  intro other hother
  simp only [PutSystem.operations, PutSystem.start, List.map_append, List.mem_append] at hother
  rcases hother with hbefore | hnew
  · exact h.calls other hbefore
  · rw [List.mem_singleton.mp hnew]
    exact hlocal

theorem CallsLocal.step (h : CallsLocal cluster s) (hguard : NoForeign cluster s)
    (hstep : PageSystem.Step (clusterCalls cluster) s t) : CallsLocal cluster t := by
  cases hstep with
  | start operation hissued => exact ⟨h.of_start hissued, h.applied⟩
  | work system hwork =>
    refine ⟨fun operation hmem => h.calls operation ?_, h.applied⟩
    rw [← hwork.operations_eq]
    exact hmem
  | receive page =>
    refine ⟨h.calls, fun task htask item hitem => ?_⟩
    rcases List.mem_append.mp htask with hold | hnew
    · exact h.applied task hold item hitem
    · rw [List.mem_singleton.mp hnew] at hitem
      cases hitem
  | skip k old next rest hold hstopped hwaiting hrest hadmits =>
    refine ⟨h.calls, fun task htask item hitem => ?_⟩
    rcases List.mem_or_eq_of_mem_set htask with hmem | rfl
    · exact h.applied task hmem item hitem
    · exact h.applied old (List.mem_of_getElem? hold) item hitem
  | call k old next rest hold hstopped hwaiting hrest hadmits =>
    have hmem := List.mem_of_getElem? hold
    refine ⟨h.of_start (hguard old hmem next rest hrest hwaiting hstopped hadmits),
      fun task htask item hitem => ?_⟩
    rcases List.mem_or_eq_of_mem_set htask with hother | rfl
    · exact h.applied task hother item hitem
    · exact h.applied old hmem item hitem
  | resume k old i next rest outcome hold hwaiting hrest hcall =>
    refine ⟨h.calls, fun task htask item hitem => ?_⟩
    rcases List.mem_or_eq_of_mem_set htask with hmem | rfl
    · exact h.applied task hmem item hitem
    · have hcalled : next ∈ s.system.operations :=
        List.mem_map.mpr ⟨_, List.mem_of_getElem? hcall, rfl⟩
      have hbefore := h.applied old (List.mem_of_getElem? hold)
      replace hitem : item ∈ if (clusterCalls cluster).counts outcome then old.applied ++ [next]
        else old.applied := hitem
      split at hitem
      · rcases List.mem_append.mp hitem with hold | hnew
        · exact hbefore item hold
        · rw [List.mem_singleton.mp hnew]
          exact h.calls next hcalled
      · exact hbefore item hitem

theorem callsLocal_of_reachable (h : (guardedRuns cluster origin).Reachable s) :
    CallsLocal cluster s := by
  refine h.invariant (P := CallsLocal cluster) ?_ ?_
  · rintro s rfl
    exact ⟨fun _ h => absurd h List.not_mem_nil, fun _ h => absurd h List.not_mem_nil⟩
  · intro s t _ hs hstep
    exact hs.step hstep.2 hstep.1

/-- In a run in which no loop is ever at an admitted record of another cluster, the register holds
    records of the cluster, pages install nothing else, and only records of the cluster replace
    others. -/
theorem stored_clusters_local (hhosts : FoldedHosts) (horigin : AllLocal cluster origin.entries)
    (h : (guardedRuns cluster origin).Reachable s) :
    AllLocal cluster s.system.store.entries ∧
      (∀ task ∈ s.tasks, ∀ item ∈ task.applied, item.subject.cluster = cluster) ∧
      ∀ t, PageSystem.Step (clusterCalls cluster) s t → ∀ name key, recordKey name = .ok key →
        t.system.store.entries.get key = s.system.store.entries.get key ∨
        ∃ value record, t.system.store.entries.get key = some value ∧
          ResourceRecord.decode value.asBytes = .ok record ∧ record.cluster = cluster := by
  have hlocal := callsLocal_of_reachable h
  have hs := h.of_restrict
  have hfrom := (PageSystem.holds_of_reachable (atLeast_rule hhosts origin)
    (fromCalls_origin origin) hs).1
  refine ⟨fun name key value record hkey hvalue hdecode => ?_, hlocal.applied,
    fun t hstep name key hkey => ?_⟩
  · rcases hfrom name key value hkey hvalue with hbefore | ⟨operation, hmem, -, hwritten⟩
    · exact horigin name key value record hkey hbefore hdecode
    · obtain rfl : operation.subject = record := Except.ok.inj (hwritten.symm.trans hdecode)
      exact hlocal.calls operation hmem
  · rcases register_step hhosts hs hstep hkey with
      hsame | ⟨operation, hmem, value, -, hvalue, hwritten, -⟩
    · exact Or.inl hsame
    · exact Or.inr ⟨value, operation.subject, hvalue, hwritten, hlocal.calls operation hmem⟩

/-- A writer that has a descriptor, and nothing else. -/
def writerReplica (key : EntryKey) (bytes : Bytes) : ReferenceState :=
  ⟨0, SortedMap.empty.insert key ⟨bytes⟩, .empty⟩

theorem allLocal_writerReplica {node : NodeId} {key : EntryKey} (hkey : descriptorKey node = .ok key)
    (bytes : Bytes) : AllLocal cluster (writerReplica key bytes).entries := by
  intro name other value record hother hvalue
  have hapart : other ≠ key := by
    intro heq
    have htext := (recordKey_eq_ok hother).1
    rw [heq, (descriptorKey_eq_ok hkey).1] at htext
    exact absurd htext (by decide)
  have hnone : (writerReplica key bytes).entries.get other = none :=
    (SortedMap.get_insert_ne _ _ hapart).trans rfl
  rw [hnone] at hvalue
  cases hvalue

/-- A page with a record that its writer signed puts it into an empty register. -/
theorem exists_applied (hhosts : FoldedHosts) {record : ResourceRecord} {bytes : Bytes}
    {key writer : EntryKey} {descriptor : NodeDescriptor} {descriptorBytes : Bytes}
    {ok : PageSystem RegisterOperation ResourceRecord → Prop}
    (hok : ∀ s, (∀ task ∈ s.tasks, ∀ item ∈ task.rest, item = .record record) → ok s)
    (hkey : recordKey record.name = .ok key) (hbytes : record.encode = .ok bytes)
    (hwriter : descriptorKey record.writer = .ok writer)
    (hdescriptor : descriptor.encode = .ok descriptorBytes) (hlive : descriptor.removed = false)
    (hverify : (record.verify descriptor.publicKey).isOk = true) :
    ∃ s, ((PageSystem.runs (clusterCalls cluster)
        (writerReplica writer descriptorBytes)).restrict fun s _ => ok s).Reachable s ∧
      s.system.store.entries.get key = some ⟨bytes⟩ ∧
      ∃ task ∈ s.tasks, task.applied = [.record record] := by
  obtain ⟨internal, hinternal⟩ := exists_internalNamespace hwriter
  have hmarker : (⟨internal, usedIdKey firstTransaction⟩ : EntryKey) ≠ writer := by
    intro heq
    have htext := (descriptorKey_eq_ok hwriter).1
    rw [← heq, asStr_of_internalNamespace hinternal] at htext
    exact absurd htext (by decide)
  have hapart : key ≠ writer := by
    intro heq
    have htext := (recordKey_eq_ok hkey).1
    rw [heq, (descriptorKey_eq_ok hwriter).1] at htext
    exact absurd htext (by decide)
  have hempty : (writerReplica writer descriptorBytes).entries.get key = none :=
    (SortedMap.get_insert_ne _ _ hapart).trans rfl
  have hadmits : (clusterCalls cluster).admits (.record record)
      (writerReplica writer descriptorBytes).entries = true := by
    show admitsRecord (.record record) (writerReplica writer descriptorBytes).entries = true
    have hread := readDescriptor_of_get hwriter
      (show (writerReplica writer descriptorBytes).entries.get writer = _ from
        SortedMap.get_insert_self ..) (NodeDescriptor.decode_encode hhosts hdescriptor)
    simp only [admitsRecord, writerKey, hread, Result.ok_bind, hlive]
    exact hverify
  have hdecide : (clusterCalls cluster).decide (.record record)
      (writerReplica writer descriptorBytes).entries = .ok (.put key ⟨bytes⟩) := by
    show commitRecord record (writerReplica writer descriptorBytes).entries = _
    simp only [commitRecord, hkey, Result.ok_bind, hempty, putRecord, hbytes]
    rfl
  have hinit : ((PageSystem.runs (clusterCalls cluster)
      (writerReplica writer descriptorBytes)).restrict fun s _ => ok s).Reachable
        ⟨⟨writerReplica writer descriptorBytes, []⟩, []⟩ := .init rfl
  -- The loop has nothing but the record in hand from its first state to its last.
  have hreceived := hinit.step ⟨PageSystem.Step.receive [.record record],
    hok _ fun task htask => absurd htask List.not_mem_nil⟩
  have hcalled := hreceived.step ⟨PageSystem.Step.call 0 _ (.record record) [] rfl rfl rfl rfl hadmits,
    hok _ (by simp [PageTask.receive])⟩
  obtain ⟨receipt, after, hpath, hdone⟩ := PageSystem.exists_path_of_started
    ⟨writerReplica writer descriptorBytes, []⟩
    (fun calls => hok ⟨⟨_, calls⟩, [⟨[.record record], [.record record], some 0, [], [], false⟩]⟩
      (by simp)) (by simp) hinternal
    (⟨rfl, (SortedMap.get_insert_ne _ _ hmarker).trans rfl⟩ :
      PageSystem.Lacks (writerReplica writer descriptorBytes) internal firstTransaction)
    (show 0 + 1 < 2 ^ 64 by decide) hdecide
  have hresumed := (hcalled.path hpath).step ⟨PageSystem.Step.resume 0 _ 0 (.record record) [] _
    rfl rfl rfl rfl, hok _ (by simp [PageTask.receive])⟩
  exact ⟨_, hresumed, hdone.put, _, List.mem_singleton_self _, rfl⟩

end Cluster

/-! ## A foreign record -/

def foreignCluster : ClusterId := ⟨Bytes.utf8 "cluster_000000000000000000001", by decide⟩

/-- The writer's signature of a resource. -/
def sampleRecordSignature (cluster : ClusterId) : Signature :=
  let _ := DnsName.hostNames
  sampleSign (sampleDescriptor 1 false).publicKey
    (signatureMessage resourceRecordDomain (sampleFields cluster).wire.toItem.encode)

/-- A sample record verifies under the key of its writer. -/
theorem verify_sampleRecord (cluster : ClusterId) :
    letI := DnsName.hostNames
    letI := sampleScheme
    ∀ record : ResourceRecord, record.toResourceFields = sampleFields cluster →
      record.signature = sampleRecordSignature cluster →
      (record.verify (sampleDescriptor 1 false).publicKey).isOk = true := by
  let _ := DnsName.hostNames
  let _ := sampleScheme
  intro record hfields hsignature
  have hbody := (sampleFields cluster).encodeSignedBody_eq
  rw [if_pos (by have := size_sampleFields cluster; omega)] at hbody
  unfold ResourceRecord.verify
  rw [hfields, hbody, Result.ok_bind, hsignature, sampleRecordSignature, verifyStrict_sampleSign]
  rfl

/-- A node that trusts the writer takes a record of its own cluster from a page. -/
theorem trusting_node_stays_local :
    letI := DnsName.hostNames
    letI := sampleScheme
    ∃ (origin : ReferenceState) (s : PageSystem RegisterOperation ResourceRecord)
      (key : EntryKey) (value : StoreValue) (record : ResourceRecord),
      (guardedRuns sampleCluster origin).Reachable s ∧ recordKey record.name = .ok key ∧
      s.system.store.entries.get key = some value ∧
      ResourceRecord.decode value.asBytes = .ok record ∧
      (∃ task ∈ s.tasks, task.applied = [.record record]) ∧ record.cluster = sampleCluster ∧
      AllLocal sampleCluster s.system.store.entries := by
  let _ := DnsName.hostNames
  let _ := sampleScheme
  obtain ⟨writer, hwriter⟩ := exists_sampleKey
  obtain ⟨descriptorBytes, hdescriptor⟩ :=
    exists_sampleBytes (sampleDescriptor 1 false) (List.mem_cons_self ..)
  obtain ⟨record, bytes, hfields, hsignature, hbytes⟩ := exists_sampleRecord sampleCluster
    (sampleRecordSignature sampleCluster)
  have hname : record.name = (sampleFields sampleCluster).name := congrArg (·.name) hfields
  have hnode : record.writer = sampleNode := congrArg (·.writer) hfields
  have hcluster : record.cluster = sampleCluster := congrArg (·.cluster) hfields
  obtain ⟨key, hkey⟩ : ∃ key, recordKey record.name = .ok key := by
    rw [hname]
    exact Result.exists_of_isSome_toOption (by decide)
  -- Every loop of the run is at the record of the own cluster.
  have hguard : ∀ s : PageSystem RegisterOperation ResourceRecord,
      (∀ task ∈ s.tasks, ∀ item ∈ task.rest, item = .record record) →
      NoForeign sampleCluster s := by
    intro s hrest task htask item rest hhead _ _ _
    rw [hrest task htask item (by simp [hhead])]
    exact hcluster
  obtain ⟨s, hs, hstored, happlied⟩ := exists_applied foldedHosts_hostNames hguard hkey hbytes
    (hnode ▸ hwriter) hdescriptor rfl (verify_sampleRecord _ record hfields hsignature)
  exact ⟨_, s, key, _, record, hs, hkey, hstored,
    ResourceRecord.decode_encode foldedHosts_hostNames hbytes, happlied, hcluster,
    (stored_clusters_local foldedHosts_hostNames
      (allLocal_writerReplica hwriter descriptorBytes) hs).1⟩

/-- A page with a record of another cluster by a trusted writer puts it into the register. -/
theorem foreign_record_installed :
    letI := DnsName.hostNames
    letI := sampleScheme
    ∃ (origin : ReferenceState) (s : PageSystem RegisterOperation ResourceRecord)
      (name : ResourceName) (key : EntryKey) (value : StoreValue) (record : ResourceRecord),
      AllLocal sampleCluster origin.entries ∧
      (PageSystem.runs (clusterCalls sampleCluster) origin).Reachable s ∧
      recordKey name = .ok key ∧ s.system.store.entries.get key = some value ∧
      ResourceRecord.decode value.asBytes = .ok record ∧ record.cluster ≠ sampleCluster := by
  let _ := DnsName.hostNames
  let _ := sampleScheme
  obtain ⟨writer, hwriter⟩ := exists_sampleKey
  obtain ⟨descriptorBytes, hdescriptor⟩ :=
    exists_sampleBytes (sampleDescriptor 1 false) (List.mem_cons_self ..)
  obtain ⟨record, bytes, hfields, hsignature, hbytes⟩ := exists_sampleRecord foreignCluster
    (sampleRecordSignature foreignCluster)
  have hname : record.name = (sampleFields foreignCluster).name := congrArg (·.name) hfields
  have hnode : record.writer = sampleNode := congrArg (·.writer) hfields
  obtain ⟨key, hkey⟩ : ∃ key, recordKey record.name = .ok key := by
    rw [hname]
    exact Result.exists_of_isSome_toOption (by decide)
  obtain ⟨s, hs, hstored, -⟩ := exists_applied foldedHosts_hostNames (fun _ _ => trivial) hkey hbytes
    (hnode ▸ hwriter) hdescriptor rfl (verify_sampleRecord _ record hfields hsignature)
  refine ⟨_, s, record.name, key, _, record, allLocal_writerReplica hwriter descriptorBytes,
    hs.of_restrict, hkey, hstored, ResourceRecord.decode_encode foldedHosts_hostNames hbytes, ?_⟩
  rw [show record.cluster = foreignCluster from congrArg (·.cluster) hfields]
  decide

end Radiata
