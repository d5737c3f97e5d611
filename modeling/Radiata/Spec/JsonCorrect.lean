import Radiata.Native.SerdeJson
import Radiata.Spec.JsonCommit
import Radiata.Spec.RedbCommitUnknown
import Radiata.Spec.RedbCorrect

/-!
# The JSON adapter and the redb adapter are the same store

Without faults and limits the JSON adapter simulates the reference store, and so does
the redb adapter. Every session from a new store therefore gets the same answers from
both, and every scan is the one of the reference store.

## Key results

- `JsonSnapshot.drain_scan`: a scan goes through the entries of the reference store
- `json_simulates_reference`
- `json_redb_same_answers`: sessions of the two adapters have the same answers
-/

namespace Radiata

section Scan

variable [DnsName]

/-- A scan yields the selected entries of its range. -/
theorem JsonScan.drain_eq (scan : JsonScan) {fuel : Nat} (hfuel : scan.range.length ≤ fuel) :
    drain JsonScan.next fuel scan = scan.range.filterMap scan.select := by
  obtain ⟨namespaceTag, keyPrefix, range⟩ := scan
  -- `select` reads the namespace and the prefix only
  have hselect : ∀ rest rest' : List (EntryKey × StoreValue),
      JsonScan.select ⟨namespaceTag, keyPrefix, rest⟩
        = JsonScan.select ⟨namespaceTag, keyPrefix, rest'⟩ := fun _ _ => rfl
  induction fuel generalizing range with
  | zero =>
    have hnil : range = [] := List.eq_nil_of_length_eq_zero (Nat.le_zero.mp hfuel)
    rw [hnil]
    rfl
  | succ fuel ih =>
    induction range with
    | nil => rfl
    | cons entry range ihrange =>
      cases hentry : JsonScan.select ⟨namespaceTag, keyPrefix, entry :: range⟩ entry with
      | none =>
        -- the entry is passed over
        have hskip : drain JsonScan.next (fuel + 1) ⟨namespaceTag, keyPrefix, entry :: range⟩
            = drain JsonScan.next (fuel + 1) ⟨namespaceTag, keyPrefix, range⟩ := by
          have hnext : JsonScan.next ⟨namespaceTag, keyPrefix, entry :: range⟩
              = JsonScan.next ⟨namespaceTag, keyPrefix, range⟩ := by
            simp only [JsonScan.next]
            rw [List.dropWhile_cons_of_pos (by rw [hentry]; rfl)]
            rfl
          rw [drain, hnext, drain]
        have hlength : range.length ≤ fuel + 1 := Nat.le_of_succ_le hfuel
        rw [hskip, ihrange hlength, List.filterMap_cons_none hentry]
        rfl
      | some found =>
        have hnext : JsonScan.next ⟨namespaceTag, keyPrefix, entry :: range⟩
            = (some found, ⟨namespaceTag, keyPrefix, range⟩) := by
          simp only [JsonScan.next]
          rw [List.dropWhile_cons_of_neg (by rw [hentry]; simp)]
          exact congrArg (·, JsonScan.mk namespaceTag keyPrefix range) hentry
        have hlength : range.length ≤ fuel := by simpa using hfuel
        rw [drain, hnext, List.filterMap_cons_some hentry]
        exact congrArg (found :: ·) (ih range hlength)

/-- The range of a scan starts at its prefix; nothing before it is selected. -/
theorem JsonSnapshot.drain_scan (snapshot : JsonSnapshot) (namespaceTag : StoreNamespace)
    (keyPrefix : Bytes) :
    drain JsonScan.next (snapshot.scan namespaceTag keyPrefix).range.length
        (snapshot.scan namespaceTag keyPrefix)
      = StoreSnapshot.scan ⟨snapshot.revision, snapshot.entries⟩ namespaceTag keyPrefix := by
  rw [JsonScan.drain_eq _ le_rfl]
  show (snapshot.entries.entriesFrom ⟨namespaceTag, ⟨keyPrefix⟩⟩).filterMap _ = _
  rw [SortedMap.entriesFrom, List.filterMap_filter, StoreSnapshot.scan]
  apply List.filterMap_congr
  intro entry _
  by_cases hselected : entry.1.namespaceTag = namespaceTag ∧ keyPrefix <+: entry.1.key.asBytes
  · have hfrom : (⟨namespaceTag, ⟨keyPrefix⟩⟩ : EntryKey) ≤ entry.1 := by
      rw [← not_lt, EntryKey.lt_iff]
      rintro (hns | ⟨-, hkey⟩)
      · rw [hselected.1] at hns
        exact absurd hns (lt_irrefl _)
      · exact absurd hkey (not_lt.mpr (Bytes.le_of_isPrefix hselected.2))
    simp [JsonScan.select, JsonSnapshot.scan, hselected, hfrom]
  · have hrefused : entry.1.namespaceTag ≠ namespaceTag ∨ ¬ keyPrefix <+: entry.1.key.asBytes := by
      rw [not_and_or] at hselected
      exact hselected
    have hnone : (snapshot.scan namespaceTag keyPrefix).select entry = none := if_pos hrefused
    have hother : (if entry.1.namespaceTag = namespaceTag ∧ keyPrefix <+: entry.1.key.asBytes then
        some (StoreEntry.mk entry.1.namespaceTag entry.1.key entry.2) else none) = none :=
      if_neg hselected
    refine Eq.trans ?_ hother.symm
    rw [hnone]
    split <;> rfl

end Scan

section Adapter

variable [DnsName]

/-- The directory has no generation. -/
def FreshDirectory (files : Files) : Prop :=
  ∀ name, (generationOf name).isSome = true → files.get name = none

/-- Snapshots that agree with those of the reference store scan exactly. -/
theorem scansExactly_of_forall₂ {A : Adapter} {xs : List A.Snapshot} {ys : List StoreSnapshot}
    (h : List.Forall₂ (Adapter.SnapshotsAgree A referenceAdapter) xs ys) :
    ∀ x ∈ xs, A.ScansExactly x := by
  induction h with
  | nil =>
    intro x hx
    cases hx
  | cons hagree _ ih =>
    intro x hx
    rcases List.mem_cons.mp hx with rfl | hx
    · exact hagree.scansExactly (referenceAdapter_scansExactly _)
    · exact ih x hx

/-- The head shows the reference state, and the directory has no newer generation. -/
def JsonShows (state : Head × Files) (reference : ReferenceState) : Prop :=
  state.1.reference = reference ∧ state.1.Bounds state.2

theorem jsonShows_fresh {files : Files} (h : FreshDirectory files) (storeUuid : StoreUuid) :
    JsonShows (Head.fresh storeUuid, files) (.fresh 0) := by
  refine ⟨rfl, ?_⟩
  intro name generation transaction hname hthere
  rw [h name (by rw [hname]; rfl)] at hthere
  cases hthere

variable [SerdeJson]

/-- The JSON adapter, without faults. -/
def jsonAdapter (storage : JsonStorage) : Adapter where
  State := Head × Files
  Snapshot := JsonSnapshot
  commit := fun (head, files) transaction =>
    let run := Prog.run FsCall.perform (storage.commitInner head transaction) files
    (run.1.1, run.1.2, run.2)
  reconcile := fun (head, _) transaction digest => .ok (head.reconcile transaction digest)
  snapshot := fun (head, _) => head.snapshot
  revision := JsonSnapshot.revision
  get := JsonSnapshot.get
  scan := fun snapshot namespaceTag keyPrefix =>
    drain JsonScan.next (snapshot.scan namespaceTag keyPrefix).range.length
      (snapshot.scan namespaceTag keyPrefix)

/-- The JSON adapter does what the reference store does until it meets a limit. -/
theorem json_simulates_reference (storage : JsonStorage) :
    Adapter.Simulation (jsonAdapter storage) referenceAdapter (fun result => ¬ Exhausted result)
      JsonShows where
  commit := by
    rintro ⟨head, files⟩ reference transaction ⟨rfl, hbounds⟩ hlimit
    obtain ⟨hanswer, hnext, hkept⟩ := run_commitInner hbounds hlimit
    exact ⟨hanswer, hnext, hkept⟩
  reconcile := by
    rintro ⟨head, files⟩ reference transaction digest ⟨rfl, -⟩
    rfl
  snapshot := by
    rintro ⟨head, files⟩ reference ⟨rfl, -⟩
    refine ⟨⟨.ofGeneration head.generation, head.entries⟩, head.reference.snapshot, ?_, rfl, ?_⟩
    · show head.snapshot = _
      rw [Head.snapshot, StoreRevision.new_u64ToBEBytes]
      rfl
    · refine ⟨rfl, fun _ _ => rfl, ?_⟩
      intro namespaceTag keyPrefix
      exact JsonSnapshot.drain_scan _ namespaceTag keyPrefix

/-- Every session from a new store gets the same answers from the two adapters as long as
    no limit of the JSON store is met, and every snapshot taken scans exactly. -/
theorem json_redb_same_answers (hdns : NulFreeHosts) (storage : JsonStorage)
    (storeUuid : StoreUuid) {files : Files} (hfresh : FreshDirectory files)
    (calls : List StoreCall)
    (hlimits : Adapter.Within (fun result => ¬ Exhausted result)
      ((jsonAdapter storage).run ((jsonAdapter storage).start (Head.fresh storeUuid, files))
        calls).1) :
    ((jsonAdapter storage).run ((jsonAdapter storage).start (Head.fresh storeUuid, files)) calls).1
        = (redbAdapter.run (redbAdapter.start .fresh) calls).1 ∧
      (∀ snapshot ∈ ((jsonAdapter storage).run
          ((jsonAdapter storage).start (Head.fresh storeUuid, files)) calls).2.snapshots,
        (jsonAdapter storage).ScansExactly snapshot) ∧
      ∀ snapshot ∈ (redbAdapter.run (redbAdapter.start .fresh) calls).2.snapshots,
        redbAdapter.ScansExactly snapshot := by
  obtain ⟨hjson, hjsonSnapshots⟩ := (json_simulates_reference storage).run_eq
    (b := referenceAdapter.start (.fresh 0)) (jsonShows_fresh hfresh storeUuid)
    List.Forall₂.nil calls hlimits
  obtain ⟨hredb, hredbSnapshots⟩ := (redb_simulates_reference hdns).run_eq
    (a := redbAdapter.start .fresh) (b := referenceAdapter.start (.fresh 0))
    (RedbDatabase.encodes_fresh hdns) List.Forall₂.nil calls (fun _ _ => trivial)
  exact ⟨hjson.trans hredb.symm, scansExactly_of_forall₂ hjsonSnapshots,
    scansExactly_of_forall₂ hredbSnapshots⟩

end Adapter

/-! ## A session -/

/-- The decision to write a generation. -/
def CommitDecision.writes [DnsName] : Result CommitDecision → Bool
  | .ok (.write _) => true
  | _ => false

theorem CommitDecision.eq_write [DnsName] {decision : Result CommitDecision}
    (h : writes decision = true) : ∃ plan, decision = .ok (.write plan) := by
  cases decision with
  | error e => cases h
  | ok decision =>
    cases decision with
    | settled outcome => cases h
    | write plan => exact ⟨plan, rfl⟩

/-- A session of one commit that is carried out, and no other, meets no limit. -/
theorem within_of_prepareCommit [DnsName] [SerdeJson] {storage : JsonStorage} {head : Head}
    {files : Files} {transaction : StoreTransaction} {plan : CommitPlan}
    (hplan : storage.prepareCommit head transaction = .ok (.write plan))
    (hbounds : head.Bounds files) {calls : List StoreCall}
    (hcalls : ∀ other, .commit other ∉ calls) :
    Adapter.Within (fun result => ¬ Exhausted result)
      ((jsonAdapter storage).run ((jsonAdapter storage).start (head, files))
        (.commit transaction :: calls)).1 := by
  rintro result hmem ⟨e, rfl, -⟩
  have hcommitted := congrArg Prod.fst ((planned_of_prepareCommit hplan).run hbounds).1
  have hinner := commitInner_of_plan hplan
  rcases List.mem_cons.mp hmem with hput | hlater
  · obtain ⟨other, hcall, hresult⟩ := Adapter.step_eq_commit hput.symm
    cases hcall
    have hrun : (Prog.run FsCall.perform (storage.commitInner head transaction) files).1.1
        = .error e := hresult.symm
    rw [hinner, hcommitted] at hrun
    cases hrun
  · obtain ⟨other, hcall⟩ := Adapter.exists_of_mem_run hlater
    exact hcalls other hcall

/-- The hostnames of the sample grammar have no byte zero. -/
theorem nulFreeHosts_hostNames : @NulFreeHosts .hostNames := by
  let _ := DnsName.hostNames
  intro host hhost hzero
  have hlabels := (Bool.and_eq_true_iff.mp hhost).2
  rw [List.all_eq_true] at hlabels
  have hjoin : [0x2E].intercalate (host.splitOn 0x2E) = host := List.intercalate_splitOn 0x2E
  rw [← hjoin] at hzero
  rcases List.mem_intercalate_singleton hzero with hdot | ⟨label, hlabel, hmem⟩
  · exact absurd hdot (by decide)
  · have hall := hlabels label hlabel
    simp only [Bool.and_eq_true, List.all_eq_true] at hall
    exact absurd (hall.2 0 hmem) (by decide)

/-- A put, its reconciliation, and lookups and scans of the new state. -/
def sampleSession : List (@StoreCall .hostNames) :=
  letI := DnsName.hostNames
  [.commit samplePut, .reconcile samplePut.id samplePut.operationDigest, .snapshot,
    .get 0 sampleTag ⟨[1]⟩, .scan 0 sampleTag [], .scan 0 sampleTag [0xFF]]

/-- A store with the limits of the source. -/
def sampleStorage : JsonStorage := ⟨true, maxGenerations, maxTotalBytes⟩

def sampleUuid : StoreUuid := ⟨List.replicate 16 0, rfl⟩

/-- The put is accepted by a new store and meets no limit. -/
theorem writes_samplePut :
    letI := DnsName.hostNames
    letI := SerdeJson.compact
    CommitDecision.writes (sampleStorage.prepareCommit (Head.fresh sampleUuid) samplePut) = true := by
  decide +kernel

theorem json_redb_same_answers_sampleSession :
    letI := DnsName.hostNames
    letI := SerdeJson.compact
    ((jsonAdapter sampleStorage).run
        ((jsonAdapter sampleStorage).start (Head.fresh sampleUuid, .empty)) sampleSession).1
      = (redbAdapter.run (redbAdapter.start .fresh) sampleSession).1 := by
  let _ := DnsName.hostNames
  let _ := SerdeJson.compact
  refine (json_redb_same_answers nulFreeHosts_hostNames sampleStorage sampleUuid
    (fun _ _ => rfl) sampleSession ?_).1
  obtain ⟨plan, hplan⟩ := CommitDecision.eq_write writes_samplePut
  exact within_of_prepareCommit hplan (jsonShows_fresh (fun _ _ => rfl) sampleUuid).2 (by simp)

end Radiata
