import Radiata.Native.Register
import Radiata.Spec.DescriptorConverge
import Radiata.Spec.HandshakeComplete
import Radiata.Spec.ResourceCorrect

/-!
# The register keeps the greatest record

Whatever calls race on a register, a record gives way to a greater one only, so the register
holds the maximum of the records it was given. Two replicas that were given the same records
hold records of one tuple.

## Key results

- `register_step`: what a step does to a register
- `atLeast_rule`: a settled record is not above the stored one
- `register_converges`: convergence, monotone steps, and pages applied again
-/

namespace Radiata

open Cbor (Item)

section Register

variable [DnsName] [Ed25519]

/-- The register of the record's name holds a record that it does not win over. -/
def AtLeast (record : ResourceRecord) (entries : Entries) : Prop :=
  ∃ key value stored, recordKey record.name = .ok key ∧ entries.get key = some value ∧
    ResourceRecord.decode value.asBytes = .ok stored ∧ record.winsOver stored = false

/-- What a settled call says of the register. -/
def RegisterOperation.Settled (entries : Entries) : RegisterOperation → Prop
  | .record subject => AtLeast subject entries
  | .removal _ _ => True

/-- A register holds what it held at the start or the record of a call. -/
def FromCalls (origin : ReferenceState) (operations : List RegisterOperation) (entries : Entries) :
    Prop :=
  ∀ name key value, recordKey name = .ok key → entries.get key = some value →
    origin.entries.get key = some value ∨ ∃ operation ∈ operations,
      operation.subject.name = name ∧ ResourceRecord.decode value.asBytes = .ok operation.subject

variable {record : ResourceRecord}

theorem commitRecord_answer {existing : ResourceRecord} {entries : Entries}
    (h : commitRecord record entries = .ok (.answer existing)) : AtLeast record entries := by
  obtain ⟨key, hkey, h⟩ := Result.bind_eq_ok.mp h
  cases hstored : entries.get key with
  | none =>
    simp only [hstored] at h
    obtain ⟨bytes, -, h⟩ := Result.bind_eq_ok.mp h
    cases h
  | some value =>
    simp only [hstored] at h
    obtain ⟨stored, hdecode, h⟩ := Result.bind_eq_ok.mp h
    split at h
    · obtain ⟨bytes, -, h⟩ := Result.bind_eq_ok.mp h
      cases h
    · rename_i hwins
      exact ⟨key, value, stored, hkey, hstored, hdecode, by simpa using hwins⟩

/-- A settled record is not put again. -/
theorem AtLeast.not_put {entries : Entries} (h : AtLeast record entries) (key : EntryKey)
    (value : StoreValue) :
    registerDecide (.record record) entries ≠ .ok (.put key value) := by
  intro hput
  obtain ⟨key', stored, existing, hkey, hstored, hdecode, hloses⟩ := h
  have hwins := registerDecide_put hput
  obtain rfl : key' = key := Except.ok.inj (hkey.symm.trans hwins.own)
  obtain ⟨other, hother, hgreater⟩ := hwins.greater stored hstored
  obtain rfl : existing = other := Except.ok.inj (hdecode.symm.trans hother)
  exact absurd (hloses.symm.trans hgreater) Bool.false_ne_true

variable {key : EntryKey}

/-- A record stays settled when a greater one replaces the stored one. -/
theorem AtLeast.replace {new : ResourceRecord} {before after : Entries} {value : StoreValue}
    (hhosts : FoldedHosts) (h : AtLeast record before) (hwins : Wins new before key value)
    (hafter : after.get key = some value)
    (hkept : ∀ name other, recordKey name = .ok other → other ≠ key →
      after.get other = before.get other) : AtLeast record after := by
  obtain ⟨key', stored, existing, hkey, hstored, hdecode, hloses⟩ := h
  by_cases hsame : key' = key
  · subst hsame
    obtain ⟨other, hother, hgreater⟩ := hwins.greater stored hstored
    obtain rfl : existing = other := Except.ok.inj (hdecode.symm.trans hother)
    exact ⟨key', value, new, hkey, hafter, ResourceRecord.decode_encode hhosts hwins.written,
      ResourceRecord.winsOver_of_not_winsOver hgreater hloses⟩
  · exact ⟨key', stored, existing, hkey, (hkept _ key' hkey hsame).trans hstored, hdecode, hloses⟩

variable {pinned : Prop} {issued : RegisterOperation → Prop} {origin : ReferenceState}
  {s t : PageSystem RegisterOperation ResourceRecord}

theorem winsOver_self (record : ResourceRecord) : record.winsOver record = false := by
  have hrefl : record.tupleOrder record = .eq := Std.ReflCmp.compare_self
  simp [ResourceRecord.winsOver, hrefl]

/-- The rule of the register. -/
theorem atLeast_rule (hhosts : FoldedHosts) (origin : ReferenceState) :
    PutSystem.Rule (registerCalls pinned issued).toPutProtocol (FromCalls origin)
      fun operation entries => operation.Settled entries where
  start := by
    intro operations operation entries hfrom name key value hkey hvalue
    rcases hfrom name key value hkey hvalue with horigin | ⟨other, hmem, hother⟩
    · exact Or.inl horigin
    · exact Or.inr ⟨other, List.mem_append_left _ hmem, hother⟩
  same := by
    intro operations before after hsame hfrom
    refine ⟨fun name key value hkey hvalue => ?_, fun operation hsettled => ?_⟩
    · rw [hsame key (Or.inl ⟨name, hkey⟩)] at hvalue
      exact hfrom name key value hkey hvalue
    · cases operation with
      | record record =>
        obtain ⟨key, value, stored, hkey, hvalue, hrest⟩ := hsettled
        exact ⟨key, value, stored, hkey, (hsame key (Or.inl ⟨_, hkey⟩)).trans hvalue, hrest⟩
      | removal record expected => trivial
  put := by
    intro operations operation before after key value hmem hfrom hdecide hputs
    have hwins := registerDecide_put hdecide
    have hdecode := ResourceRecord.decode_encode hhosts hwins.written
    have hafter : after.get key = some value := by
      rw [hputs key (Or.inl ⟨_, hwins.own⟩), if_pos rfl]
    have hkept : ∀ name other, recordKey name = .ok other → other ≠ key →
        after.get other = before.get other := by
      intro name other hother hne
      rw [hputs other (Or.inl ⟨name, hother⟩), if_neg hne]
    refine ⟨fun name other stored hother hstored => ?_, ?_, fun other hsettled => ?_⟩
    · by_cases hsame : other = key
      · subst hsame
        obtain rfl : value = stored := Option.some.inj (hafter.symm.trans hstored)
        exact Or.inr ⟨operation, hmem, recordKey_inj hwins.own hother, hdecode⟩
      · rw [hkept name other hother hsame] at hstored
        exact hfrom name other stored hother hstored
    · cases operation with
      | record record => exact ⟨key, value, record, hwins.own, hafter, hdecode, winsOver_self record⟩
      | removal record expected => trivial
    · cases other with
      | record record => exact AtLeast.replace hhosts hsettled hwins hafter hkept
      | removal record expected => trivial
  answer := by
    intro operations operation entries outcome hfrom hdecide
    cases operation with
    | record record => exact commitRecord_answer hdecide
    | removal record expected => trivial

theorem fromCalls_origin (origin : ReferenceState) : FromCalls origin [] origin.entries :=
  fun _ _ _ _ hvalue => Or.inl hvalue

/-- A step leaves a register alone, or puts the record of a call that wins over the stored one;
    a removal finds exactly the record it expects. -/
theorem register_step (hhosts : FoldedHosts)
    (hs : (PageSystem.runs (registerCalls pinned issued) origin).Reachable s)
    (hstep : PageSystem.Step (registerCalls pinned issued) s t) {name : ResourceName}
    (hkey : recordKey name = .ok key) :
    t.system.store.entries.get key = s.system.store.entries.get key ∨
      ∃ operation ∈ s.system.operations, ∃ value, operation.subject.name = name ∧
        t.system.store.entries.get key = some value ∧
        ResourceRecord.decode value.asBytes = .ok operation.subject ∧
        (∀ old, s.system.store.entries.get key = some old → ∃ existing,
          ResourceRecord.decode old.asBytes = .ok existing ∧
          operation.subject.winsOver existing = true) ∧
        ∀ record expected, operation = .removal record expected → ∃ old,
          s.system.store.entries.get key = some old ∧
          ResourceRecord.decode old.asBytes = .ok expected := by
  have howned : (registerCalls pinned issued).owned key := Or.inl ⟨name, hkey⟩
  rcases hstep.effect (PageSystem.sound_of_reachable hs) with
    hsame | ⟨operation, hmem, key', value, hdecide, hputs⟩
  · exact Or.inl (hsame key howned)
  · have hwins := registerDecide_put hdecide
    have heffect := hputs key howned
    by_cases hsame : key = key'
    · subst hsame
      rw [if_pos rfl] at heffect
      refine Or.inr ⟨operation, hmem, value, recordKey_inj hwins.own hkey, heffect,
        ResourceRecord.decode_encode hhosts hwins.written, hwins.greater, ?_⟩
      rintro record expected rfl
      exact (commitRemoval_put hdecide).2
    · rw [if_neg hsame] at heffect
      exact Or.inl heffect

/-! ## Convergence -/

/-- A run of a replica that starts with empty registers and is given exactly `records`: each was
    installed or superseded. -/
def Receives (records : List ResourceRecord)
    (s : PageSystem RegisterOperation ResourceRecord) : Prop :=
  ∃ origin : ReferenceState,
    (∀ name key, recordKey name = .ok key → origin.entries.get key = none) ∧
    (PageSystem.runs (registerCalls True fun _ => True) origin).Reachable s ∧
    (∀ operation ∈ s.system.operations, ∃ record ∈ records, operation = .record record) ∧
    ∀ record ∈ records, s.system.Delivered (.record record)

/-- A record of a name that no record of the name wins over. -/
structure IsWinner (records : List ResourceRecord) (name : ResourceName) (winner : ResourceRecord) :
    Prop where
  mem : winner ∈ records
  named : winner.name = name
  greatest : ∀ other ∈ records, other.name = name → other.winsOver winner = false

/-- The bodies of distinct records have distinct digests. -/
def Collisionless (records : List ResourceRecord) : Prop :=
  ∀ a ∈ records, ∀ b ∈ records, ∀ body body', a.encodeSignedBody = .ok body →
    b.encodeSignedBody = .ok body' → bodyDigest body = bodyDigest body' → body = body'

variable {records : List ResourceRecord}

/-- A replica holds a winner of every name that has a record. -/
theorem Receives.winner (hhosts : FoldedHosts) (h : Receives records s) (hmem : record ∈ records) :
    ∃ winner, readRecord s.system.store.entries record.name = .ok (some winner) ∧
      IsWinner records record.name winner := by
  obtain ⟨origin, hempty, hs, hgiven, hdelivered⟩ := h
  obtain ⟨hfrom, hsettled⟩ :=
    PageSystem.holds_of_reachable (atLeast_rule hhosts origin) (fromCalls_origin origin) hs
  obtain ⟨key, value, stored, hkey, hvalue, hdecode, -⟩ :=
    hsettled (.record record) (hdelivered record hmem)
  rcases hfrom record.name key value hkey hvalue with horigin | ⟨operation, hoperation, hname, hwritten⟩
  · rw [hempty record.name key hkey] at horigin
    cases horigin
  obtain ⟨winner, hwinner, rfl⟩ := hgiven operation hoperation
  refine ⟨winner, ?_, hwinner, hname, fun other hother hsame => ?_⟩
  · simp only [readRecord, hkey, Result.ok_bind, hvalue]
    rw [show ResourceRecord.decode value.asBytes = .ok winner from hwritten]
    rfl
  · obtain ⟨key', value', stored', hkey', hvalue', hdecode', hloses⟩ :=
      hsettled (.record other) (hdelivered other hother)
    rw [hsame, hkey] at hkey'
    obtain rfl : key = key' := Except.ok.inj hkey'
    obtain rfl : value = value' := Option.some.inj (hvalue.symm.trans hvalue')
    obtain rfl : winner = stored' := Except.ok.inj (hwritten.symm.trans hdecode')
    exact hloses

/-- A replica holds nothing under a name without a record. -/
theorem Receives.none (hhosts : FoldedHosts) (h : Receives records s) {name : ResourceName}
    (hnone : ∀ record ∈ records, record.name ≠ name) (hkey : recordKey name = .ok key) :
    s.system.store.entries.get key = none := by
  obtain ⟨origin, hempty, hs, hgiven, -⟩ := h
  obtain ⟨hfrom, -⟩ :=
    PageSystem.holds_of_reachable (atLeast_rule hhosts origin) (fromCalls_origin origin) hs
  cases hvalue : s.system.store.entries.get key with
  | none => rfl
  | some value =>
    rcases hfrom name key value hkey hvalue with horigin | ⟨operation, hoperation, hname, -⟩
    · rw [hempty name key hkey] at horigin
      cases horigin
    · obtain ⟨record, hrecord, rfl⟩ := hgiven operation hoperation
      exact absurd hname (hnone record hrecord)

/-! ## Pages -/

/-- The descriptors stay in runs that pin them. -/
theorem descriptors_kept (hs : (PageSystem.runs (registerCalls True issued) origin).Reachable s)
    (hpath : (PageSystem.runs (registerCalls True issued) origin).Path s t) {node : NodeId}
    (hkey : descriptorKey node = .ok key) :
    t.system.store.entries.get key = s.system.store.entries.get key := by
  induction hpath with
  | refl => rfl
  | @tail u v hpath hstep ih =>
    rw [← ih]
    have howned : (registerCalls True issued).owned key := Or.inr ⟨trivial, node, hkey⟩
    rcases PageSystem.Step.effect hstep (PageSystem.sound_of_reachable (hs.path hpath)) with
      hsame | ⟨operation, -, key', value, hdecide, hputs⟩
    · exact hsame key howned
    · rw [hputs key howned, if_neg]
      intro heq
      have htext := (recordKey_eq_ok (registerDecide_put hdecide).own).1
      rw [← heq, (descriptorKey_eq_ok hkey).1] at htext
      exact absurd htext (by decide)

/-- The test of a page depends on the descriptors alone. -/
theorem admitsRecord_congr {before after : Entries}
    (h : ∀ node key, descriptorKey node = .ok key → after.get key = before.get key)
    (operation : RegisterOperation) : admitsRecord operation after = admitsRecord operation before := by
  cases operation with
  | record record =>
    have hread : readDescriptor after record.writer = readDescriptor before record.writer := by
      unfold readDescriptor
      cases hkey : descriptorKey record.writer with
      | error error => rfl
      | ok key => simp only [Result.ok_bind, h record.writer key hkey]
    simp only [admitsRecord, writerKey, hread]
  | removal record expected => rfl

/-- The writer of a skipped record has no key that verifies it. -/
theorem not_admits_of_skipped
    (hs : (PageSystem.runs (registerCalls True issued) origin).Reachable s) :
    ∀ task ∈ s.tasks, ∀ item ∈ task.skipped,
      admitsRecord item s.system.store.entries = false := by
  refine hs.invariant (P := fun s => ∀ task ∈ s.tasks, ∀ item ∈ task.skipped,
    admitsRecord item s.system.store.entries = false) ?_ ?_
  · rintro s rfl
    exact nofun
  · intro s t hreachable hinv hstep task htask item hitem
    rcases PageSystem.Step.skipped_cases hstep htask hitem with
      ⟨old, hold, hskipped⟩ | ⟨hadmits, hsame⟩
    · have hkept := admitsRecord_congr (fun node key hkey =>
        descriptors_kept hreachable (.tail .refl hstep) hkey) item
      exact hkept.trans (hinv old hold item hskipped)
    · rw [hsame]
      exact hadmits

/-- A page that was applied is applied again without an effect. -/
theorem register_reapplied (hhosts : FoldedHosts)
    (hs : (PageSystem.runs (registerCalls True issued) origin).Reachable s)
    {task : PageTask RegisterOperation} (htask : task ∈ s.tasks) (hrest : task.rest = [])
    (hstopped : task.stopped = false)
    (hdetermined : ∀ item ∈ task.page, .finished item .indeterminate ∉ s.system.calls)
    (hpath : (PageSystem.runs (registerCalls True issued) origin).Path s t) {k : Nat}
    (hk : s.tasks.length ≤ k) {again : PageTask RegisterOperation}
    (hagain : t.tasks[k]? = some again) (hpage : again.page = task.page) : again.applied = [] := by
  have hrule : PutSystem.Rule (registerCalls True issued).toPutProtocol (FromCalls origin)
      fun operation entries => operation.Settled entries := atLeast_rule hhosts origin
  have horigin := fromCalls_origin origin
  have hcounts : ∀ outcome, countsRecord outcome = true →
      ∃ receipt, outcome = .installed receipt := by
    intro outcome hcount
    cases outcome with
    | installed receipt => exact ⟨receipt, rfl⟩
    | _ => cases hcount
  -- Whatever a page skips now it skips for ever.
  have hnever : ∀ item, admitsRecord item s.system.store.entries = false →
      ∀ u, (PageSystem.runs (registerCalls True issued) origin).Path s u →
        admitsRecord item u.system.store.entries = false := by
    intro item hitem u hu
    exact (admitsRecord_congr (fun node key hkey => descriptors_kept hs hu hkey) item).trans hitem
  refine (PageSystem.reapplied_page hrule horigin hs hcounts (fun item hitem => ?_) hpath hk hagain
    hpage).applied
  rcases (PageSystem.processed_of_reachable hs task htask).items item hitem with
    hcoming | hskipped | ⟨i, outcome, hi, hcalled⟩
  · rw [hrest] at hcoming
    cases hcoming
  · exact Or.inr (hnever item (not_admits_of_skipped hs task htask item hskipped))
  · cases item with
    | removal record expected => exact Or.inr (hnever (.removal record expected) rfl)
    | record record =>
      have hpassed : stopsPage outcome = false := by
        rcases hcalled with hpassed | hended
        · exact hpassed
        · rw [hstopped] at hended
          cases hended
      have hsettled : outcome.isSettled = true := by
        cases outcome with
        | answered answer => rfl
        | installed receipt => rfl
        | indeterminate => exact absurd (List.mem_of_getElem? hi) (hdetermined _ hitem)
        | _ => cases hpassed
      have hheld := (PageSystem.holds_of_reachable hrule horigin hs).2 (.record record)
        ⟨i, outcome, hi, hsettled⟩
      exact Or.inl ⟨hheld, fun _ _ key value _ hlater => AtLeast.not_put hlater key value⟩

/-- Replicas with one set of records agree up to signatures; a stored record gives way to a greater
    one only, and to a removal only if it is the expected one; a page applied twice installs nothing
    the second time. -/
theorem register_converges (hhosts : FoldedHosts) :
    (∀ records s t, Collisionless records → Receives records s → Receives records t →
      (∀ record ∈ records, ∃ winner winner',
        readRecord s.system.store.entries record.name = .ok (some winner) ∧
        readRecord t.system.store.entries record.name = .ok (some winner') ∧
        IsWinner records record.name winner ∧ IsWinner records record.name winner' ∧
        winner.toResourceFields = winner'.toResourceFields ∧ winner.digest = winner'.digest) ∧
      ∀ name key, recordKey name = .ok key → (∀ record ∈ records, record.name ≠ name) →
        s.system.store.entries.get key = none ∧ t.system.store.entries.get key = none) ∧
    (∀ origin s t, (PageSystem.runs (registerCalls False fun _ => True) origin).Reachable s →
      PageSystem.Step (registerCalls False fun _ => True) s t →
      ∀ name key, recordKey name = .ok key →
        t.system.store.entries.get key = s.system.store.entries.get key ∨
        ∃ operation ∈ s.system.operations, ∃ value, operation.subject.name = name ∧
          t.system.store.entries.get key = some value ∧
          ResourceRecord.decode value.asBytes = .ok operation.subject ∧
          (∀ old, s.system.store.entries.get key = some old → ∃ existing,
            ResourceRecord.decode old.asBytes = .ok existing ∧
            operation.subject.winsOver existing = true) ∧
          ∀ record expected, operation = .removal record expected → ∃ old,
            s.system.store.entries.get key = some old ∧
            ResourceRecord.decode old.asBytes = .ok expected) ∧
    ∀ origin s t, (PageSystem.runs (registerCalls True fun _ => True) origin).Reachable s →
      (PageSystem.runs (registerCalls True fun _ => True) origin).Path s t →
      ∀ task ∈ s.tasks, task.rest = [] → task.stopped = false →
        (∀ item ∈ task.page, .finished item .indeterminate ∉ s.system.calls) →
        ∀ (k : Nat) again, s.tasks.length ≤ k → t.tasks[k]? = some again →
          again.page = task.page → again.applied = [] := by
  refine ⟨?_, ?_, ?_⟩
  · intro records s t hdistinct hs ht
    refine ⟨fun record hmem => ?_, fun name key hkey hnone => ?_⟩
    · obtain ⟨winner, hread, hwinner⟩ := hs.winner hhosts hmem
      obtain ⟨winner', hread', hwinner'⟩ := ht.winner hhosts hmem
      -- Neither winner beats the other, so they have one tuple.
      have htie := hwinner'.greatest winner hwinner.mem hwinner.named
      have htie' := hwinner.greatest winner' hwinner'.mem hwinner'.named
      obtain ⟨hfields, hdigest⟩ := ResourceRecord.fields_eq_of_tie hhosts htie htie'
        (hdistinct winner hwinner.mem winner' hwinner'.mem)
      exact ⟨winner, winner', hread, hread', hwinner, hwinner', hfields, hdigest⟩
    · exact ⟨hs.none hhosts hnone hkey, ht.none hhosts hnone hkey⟩
  · intro origin s t hs hstep name key hkey
    exact register_step hhosts hs hstep hkey
  · intro origin s t hs hpath task htask hrest hstopped hdetermined k again hk hagain hpage
    exact register_reapplied hhosts hs htask hrest hstopped hdetermined hpath hk hagain hpage

/-! ## Two records of a name in either order -/

/-- A record is installed on a replica without any. -/
theorem exists_installed {bytes : Bytes} {internal : StoreNamespace}
    (hinternal : internalNamespace = .ok internal) (hkey : recordKey record.name = .ok key)
    (hbytes : record.encode = .ok bytes) :
    ∃ receipt after, (PageSystem.runs (registerCalls True fun _ => True) (.fresh 0)).Reachable
        (PageSystem.finish ⟨⟨.fresh 0, []⟩, []⟩ after (.record record) (.installed receipt)) ∧
      PageSystem.PutDone internal (.fresh 0) firstTransaction key ⟨bytes⟩ after := by
  have hdecide : (registerCalls True fun _ => True).decide (.record record)
      (ReferenceState.fresh 0).entries = .ok (.put key ⟨bytes⟩) := by
    show commitRecord record SortedMap.empty = _
    simp only [commitRecord, hkey, Result.ok_bind, SortedMap.get_empty, putRecord, hbytes]
    rfl
  have hinit : (PageSystem.runs (registerCalls True fun _ => True) (.fresh 0)).Reachable
      ⟨⟨.fresh 0, []⟩, []⟩ := .init rfl
  obtain ⟨receipt, after, -, hinstalled, hdone⟩ := PageSystem.exists_put hinit
    (fun _ _ => List.not_mem_nil) trivial hinternal
    (⟨rfl, rfl⟩ : PageSystem.Lacks (ReferenceState.fresh 0) internal firstTransaction)
    (show 0 + 1 < 2 ^ 64 by decide) hdecide
  exact ⟨receipt, after, hinstalled, hdone⟩

/-- A replica with two settled calls was given their records. -/
theorem receives_of_calls {first second : ResourceRecord} {outcome outcome' : PutOutcome ResourceRecord}
    (hs : (PageSystem.runs (registerCalls True fun _ => True) (.fresh 0)).Reachable s)
    (hcalls : s.system.calls =
      [.finished (.record first) outcome, .finished (.record second) outcome'])
    (hsettled : outcome.isSettled = true) (hsettled' : outcome'.isSettled = true)
    (hrecords : ∀ record, record ∈ records ↔ record = first ∨ record = second) :
    Receives records s := by
  refine ⟨.fresh 0, fun _ _ _ => rfl, hs, fun operation hmem => ?_, fun record hmem => ?_⟩
  · rw [PutSystem.operations, hcalls] at hmem
    rcases List.mem_pair.mp hmem with rfl | rfl
    · exact ⟨first, (hrecords _).mpr (Or.inl rfl), rfl⟩
    · exact ⟨second, (hrecords _).mpr (Or.inr rfl), rfl⟩
  · rcases (hrecords record).mp hmem with rfl | rfl
    · exact ⟨0, outcome, by rw [hcalls]; rfl, hsettled⟩
    · exact ⟨1, outcome', by rw [hcalls]; rfl, hsettled'⟩

/-- Of two replicas one is given the older record first, the other the newer one. -/
theorem exists_receives (hhosts : FoldedHosts) {older newer : ResourceRecord} {bytes bytes' : Bytes}
    {internal : StoreNamespace} (hinternal : internalNamespace = .ok internal)
    (hkey : recordKey older.name = .ok key) (hkey' : recordKey newer.name = .ok key)
    (hbytes : older.encode = .ok bytes) (hbytes' : newer.encode = .ok bytes')
    (hwins : newer.winsOver older = true) (hloses : older.winsOver newer = false) :
    ∃ s t, Receives [older, newer] s ∧ Receives [older, newer] t ∧
      s.system.operations = [.record older, .record newer] ∧
      t.system.operations = [.record newer, .record older] := by
  obtain ⟨receipt, after, hreached, hdone⟩ := exists_installed hinternal hkey hbytes
  obtain ⟨receipt', after', hreached', hdone'⟩ := exists_installed hinternal hkey' hbytes'
  -- The newer record replaces the older one.
  have hput : (registerCalls True fun _ => True).decide (.record newer) after.entries =
      .ok (.put key ⟨bytes'⟩) := by
    show commitRecord newer after.entries = _
    simp only [commitRecord, hkey', Result.ok_bind, hdone.put,
      ResourceRecord.decode_encode hhosts hbytes, hwins, if_true, putRecord, hbytes']
    rfl
  obtain ⟨_, _, -, hlast, -⟩ := PageSystem.exists_put hreached
    (PageSystem.Idle.finish (fun _ _ => List.not_mem_nil) _ _ _) trivial hinternal
    (hdone.ids secondTransaction (by decide) ⟨rfl, rfl⟩)
    (hdone.generation ▸ (by decide : (0 + 1 : UInt64).toNat + 1 < 2 ^ 64)) hput
  -- The older record is answered with the newer one.
  have hanswer : (registerCalls True fun _ => True).decide (.record older) after'.entries =
      .ok (.answer newer) := by
    show commitRecord older after'.entries = _
    simp only [commitRecord, hkey, Result.ok_bind, hdone'.put,
      ResourceRecord.decode_encode hhosts hbytes', hloses]
    rfl
  have hlast' := PageSystem.reach_answer hreached'
    (PageSystem.Idle.finish (fun _ _ => List.not_mem_nil) _ _ _) trivial
    (hdone'.ids secondTransaction (by decide) ⟨rfl, rfl⟩).1 hanswer
  exact ⟨_, _, receives_of_calls hlast rfl rfl rfl (by simp),
    receives_of_calls hlast' rfl rfl rfl (by simp [or_comm]), rfl, rfl⟩

end Register

/-! ## A sample record -/

/-- A resource of one node. -/
def sampleFields (cluster : ClusterId) : @ResourceFields .hostNames :=
  let _ := DnsName.hostNames
  { cluster
    name := sampleResource.1
    resourceType := sampleResource.2.resourceType
    resourceUri := sampleResource.2.uri
    labels := sampleResource.2.custom
    timestampMillis := 1
    writer := sampleNode
    removalRank := 0
    removed := false }

theorem size_sampleFields (cluster : ClusterId) :
    (@ResourceFields.wire .hostNames (sampleFields cluster)).toItem.size = 140 := by
  let _ := DnsName.hostNames
  have hcluster := cluster.length_asStr
  simp only [ResourceBodyWire.toItem, ResourceBodyWire.items, Item.sizeAll, Item.size,
    ResourceFields.wire, sampleFields, hcluster, List.length_cons, List.length_nil]
  decide

/-- The record of a resource with a given signature. -/
theorem exists_sampleRecord (cluster : ClusterId) (signature : Signature) :
    letI := DnsName.hostNames
    ∃ (record : ResourceRecord) (bytes : Bytes), record.toResourceFields = sampleFields cluster ∧
      record.signature = signature ∧ record.encode = .ok bytes := by
  let _ := DnsName.hostNames
  exact ResourceRecord.exists_encoded ((size_sampleFields cluster).trans_le (by decide)) signature

/-- The sample record, signed a millisecond later. -/
def newerFields : @ResourceFields .hostNames :=
  let _ := DnsName.hostNames
  { sampleFields sampleCluster with timestampMillis := 2 }

/-- The two records have bodies of two digests. -/
theorem collisionless_samples :
    letI := DnsName.hostNames
    ∀ {older newer : ResourceRecord}, older.toResourceFields = sampleFields sampleCluster →
      newer.toResourceFields = newerFields → Collisionless [older, newer] := by
  let _ := DnsName.hostNames
  intro older newer holder hnewer
  have hdigests : bodyDigest (sampleFields sampleCluster).wire.toItem.encode ≠
      bodyDigest newerFields.wire.toItem.encode := by decide +kernel
  have hbody : older.encodeSignedBody = .ok (sampleFields sampleCluster).wire.toItem.encode := by
    rw [holder, ResourceFields.encodeSignedBody_eq, if_pos (by decide)]
  have hbody' : newer.encodeSignedBody = .ok newerFields.wire.toItem.encode := by
    rw [hnewer, ResourceFields.encodeSignedBody_eq, if_pos (by decide)]
  intro a ha b hb body body' h h' heq
  rcases List.mem_pair.mp ha with rfl | rfl
  all_goals rcases List.mem_pair.mp hb with rfl | rfl
  · exact Except.ok.inj (h.symm.trans h')
  · cases hbody.symm.trans h
    cases hbody'.symm.trans h'
    exact absurd heq hdigests
  · cases hbody'.symm.trans h
    cases hbody.symm.trans h'
    exact absurd heq.symm hdigests
  · exact Except.ok.inj (h.symm.trans h')

/-- Two replicas that were given the two records in either order hold one of them. -/
theorem sample_register_converges :
    letI := DnsName.hostNames
    letI := sampleScheme
    ∃ older newer s t, older.toResourceFields = sampleFields sampleCluster ∧
      newer.toResourceFields = newerFields ∧ Receives [older, newer] s ∧
      Receives [older, newer] t ∧ s.system.operations = [.record older, .record newer] ∧
      t.system.operations = [.record newer, .record older] ∧ ∃ winner winner',
        readRecord s.system.store.entries older.name = .ok (some winner) ∧
        readRecord t.system.store.entries older.name = .ok (some winner') ∧
        winner.digest = winner'.digest := by
  let _ := DnsName.hostNames
  let _ := sampleScheme
  obtain ⟨older, bytes, holder, -, hbytes⟩ := exists_sampleRecord sampleCluster (.fill 0)
  obtain ⟨newer, bytes', hnewer, -, hbytes'⟩ :=
    @ResourceRecord.exists_encoded _ newerFields (by decide) (.fill 0)
  have hname : older.name = (sampleFields sampleCluster).name := congrArg (·.name) holder
  have hname' : newer.name = (sampleFields sampleCluster).name := congrArg (·.name) hnewer
  obtain ⟨key, hkey⟩ : ∃ key, recordKey older.name = .ok key := by
    rw [hname]
    exact Result.exists_of_isSome_toOption (by decide)
  obtain ⟨internal, hinternal⟩ : ∃ internal, internalNamespace = .ok internal :=
    Result.exists_of_isSome_toOption (by decide)
  have hwins : newer.winsOver older = true := by
    rw [ResourceRecord.winsOver, ResourceRecord.tupleOrder, holder, hnewer]
    rfl
  have hloses : older.winsOver newer = false := by
    rw [ResourceRecord.winsOver, ResourceRecord.tupleOrder, holder, hnewer]
    rfl
  obtain ⟨s, t, hs, ht, hfirst, hlast⟩ := exists_receives foldedHosts_hostNames hinternal hkey
    (hname'.trans hname.symm ▸ hkey) hbytes hbytes' hwins hloses
  refine ⟨older, newer, s, t, holder, hnewer, hs, ht, hfirst, hlast, ?_⟩
  obtain ⟨winner, winner', hread, hread', -, -, -, hdigest⟩ :=
    ((register_converges foldedHosts_hostNames).1 [older, newer] s t
      (collisionless_samples holder hnewer) hs ht).1 older List.mem_cons_self
  exact ⟨winner, winner', hread, hread', hdigest⟩

end Radiata
