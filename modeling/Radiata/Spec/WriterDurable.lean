import Radiata.ForStd.Trace
import Radiata.Native.TrustRecord
import Radiata.Spec.AdmissionRecordCorrect

/-!
# What the metadata writers leave

Four writers put one record each: `persist_snapshot_ctx`, `persist_binding_ctx`,
`adopt_binding_ctx` and `store_descriptor_ctx`. A call of one is followed through its trace, so
the others may do anything between two of its steps, and the store may answer its commit in every
way. The first three discard the outcome of the commit.

## Key results

- `Commits.lookup_iff`: when a put is in the store after its commit
- `lands_commit_iff`: the outcomes that are known
- `metadata_writer_durable_iff`: when a writer that reports success has left its record
- `binding_lost_silently`: a writer that reports success without its record
-/

namespace Radiata

open NodeM Prog

/-! ## Traces over the store -/

abbrev NodeExchange := Exchange NodeCall NodeCall.Answer NodeStore

/-- The program succeeds with this value after the calls of the trace. -/
def Succeeds {α : Type} (program : NodeM α) (trace : List NodeExchange) (value : α) : Prop :=
  Traced NodeCall.answers program.run trace (.done (.ok value))

/-- The calls that read or write the content of the store. -/
def NodeCall.isContent : NodeCall → Bool
  | snapshot => true
  | providerCommit _ => true
  | _ => false

/-- The last call on the content of the store. Until the program ends nobody else commits: the
    slot is taken. -/
def lastContent (trace : List NodeExchange) : Option NodeExchange :=
  (trace.filter fun e => e.request.isContent).getLast?

@[simp] theorem lastContent_nil : lastContent [] = none := rfl

theorem lastContent_append {first second : List NodeExchange} :
    lastContent (first ++ second) = (lastContent second).or (lastContent first) := by
  simp [lastContent, List.getLast?_append]

theorem lastContent_of_content {e : NodeExchange} (h : e.request.isContent = true) :
    lastContent [e] = some e := by
  simp [lastContent, h]

section Succeeds

variable {α β : Type} {trace : List NodeExchange}

theorem Succeeds.bind {program : NodeM α} {next : α → NodeM β} {result : β}
    (h : Succeeds (program >>= next) trace result) :
    ∃ value first second, trace = first ++ second ∧ Succeeds program first value ∧
      Succeeds (next value) second result := traced_exceptT_bind h

theorem Succeeds.pure {value result : α} (h : Succeeds (pure value) trace result) :
    trace = [] ∧ value = result := by
  obtain ⟨htrace, hvalue⟩ := traced_pure h
  exact ⟨htrace, Except.ok.inj hvalue⟩

theorem not_succeeds_throw {error : Error} {result : α} :
    ¬ Succeeds (throw error) trace result := by
  intro h
  cases (traced_pure h).2

theorem Succeeds.ofResult {result : Result α} {value : α}
    (h : Succeeds (ofResult result) trace value) : trace = [] ∧ result = .ok value := traced_pure h

/-- A call that cannot fail. -/
theorem Succeeds.lift {call : NodeCall} {answer : call.Answer}
    (h : Succeeds (ExceptT.lift call.perform) trace answer) :
    ∃ s t, trace = [⟨call, s, answer, t⟩] ∧ call.answers s answer t := by
  obtain ⟨value, first, second, rfl, hfirst, hsecond⟩ := traced_bind h
  obtain ⟨rfl, heq⟩ := traced_pure hsecond
  cases heq
  rw [List.append_nil]
  exact traced_perform hfirst

theorem Succeeds.snapshot {store : RecordStore} (h : Succeeds NodeM.snapshot trace store) :
    ∃ s : NodeStore, s.disk.store = store ∧
      lastContent trace = some ⟨.snapshot, s, .ok store, s⟩ := by
  obtain ⟨s, t, rfl, rfl, hanswer⟩ := traced_perform h
  rcases hanswer with hanswer | ⟨error, hanswer⟩
  · cases hanswer
    exact ⟨t, rfl, rfl⟩
  · cases hanswer

theorem Succeeds.prepare {base : Nat} {actions : List RecordAction}
    {journal : Option JournalPurpose} {transaction : RecordTransaction}
    (h : Succeeds (NodeM.prepare base actions journal) trace transaction) :
    lastContent trace = none ∧ ∃ id, transaction = prepared id base actions journal ∧
      transaction.batch.keys.Nodup := by
  obtain ⟨s, t, rfl, hanswer⟩ := traced_perform h
  refine ⟨rfl, ?_⟩
  rcases hanswer with ⟨error, hanswer, -⟩ | ⟨id, -, hkeys, hanswer, -⟩
  · cases hanswer
  · cases hanswer
    exact ⟨id, rfl, hkeys⟩

theorem Succeeds.finishFrozenSlot (h : Succeeds finishFrozenSlot trace ()) :
    lastContent trace = none := by
  obtain ⟨answer, first, second, rfl, hfirst, hsecond⟩ := Succeeds.bind h
  obtain ⟨s, t, rfl, -⟩ := hfirst.lift
  cases answer with
  | ok value =>
    obtain ⟨rfl, -⟩ := hsecond.pure
    rfl
  | error error =>
    obtain ⟨value, third, fourth, rfl, hthird, hfourth⟩ := hsecond.bind
    exact absurd hfourth not_succeeds_throw

/-- A commit that is answered ends with the answer of the provider. -/
theorem Succeeds.commitRecords {transaction : RecordTransaction} {outcome : StoreOutcome}
    (h : Succeeds (commitRecords transaction) trace outcome) :
    ∃ s t : NodeStore, s.disk.Commits transaction (some (.ok outcome)) t.disk ∧
      lastContent trace = some ⟨.providerCommit transaction, s, some (.ok outcome), t⟩ := by
  obtain ⟨begun, first, rest, rfl, hfirst, hrest⟩ := Succeeds.bind h
  obtain ⟨s₀, t₀, rfl, -⟩ := traced_perform hfirst
  obtain ⟨answer, second, third, rfl, hsecond, hthird⟩ := hrest.bind
  obtain ⟨s, t, rfl, -, hcommits⟩ := hsecond.lift
  -- What follows the answer is about the slot alone.
  have hlast (hcontent : lastContent third = none) :
      lastContent ([⟨.beginCommit transaction.id, s₀, .ok begun, t₀⟩] ++
        ([⟨.providerCommit transaction, s, answer, t⟩] ++ third)) =
        some ⟨.providerCommit transaction, s, answer, t⟩ := by
    rw [lastContent_append, lastContent_append, hcontent, Option.none_or, lastContent_of_content rfl,
      Option.some_or]
  have hready {value : StoreOutcome} (hthird : Succeeds (do finishReady; return value) third outcome) :
      lastContent third = none ∧ value = outcome := by
    obtain ⟨done, fourth, fifth, rfl, hfourth, hfifth⟩ := hthird.bind
    obtain ⟨s', t', rfl, -⟩ := hfourth.lift
    obtain ⟨rfl, rfl⟩ := hfifth.pure
    exact ⟨rfl, rfl⟩
  cases answer with
  | none =>
    obtain ⟨done, fourth, fifth, rfl, -, hfifth⟩ := hthird.bind
    exact absurd hfifth not_succeeds_throw
  | some answered =>
    cases answered with
    | error error =>
      -- The error is returned after the slot has been left, whichever way.
      by_cases hunknown : error.kind = .commitUnknown
      · simp only [hunknown, ↓reduceIte] at hthird
        obtain ⟨done, fourth, fifth, rfl, -, hfifth⟩ := Succeeds.bind hthird
        exact absurd hfifth not_succeeds_throw
      · simp only [hunknown, ↓reduceIte] at hthird
        obtain ⟨done, fourth, fifth, rfl, -, hfifth⟩ := Succeeds.bind hthird
        exact absurd hfifth not_succeeds_throw
    | ok value =>
      cases value with
      | unknown =>
        obtain ⟨done, fourth, fifth, rfl, hfourth, hfifth⟩ := hthird.bind
        obtain ⟨rfl, rfl⟩ := hfifth.pure
        refine ⟨s, t, hcommits, hlast ?_⟩
        rw [List.append_nil]
        exact hfourth.finishFrozenSlot
      | committed | aborted | conflict =>
        obtain ⟨hcontent, rfl⟩ := hready hthird
        exact ⟨s, t, hcommits, hlast hcontent⟩

end Succeeds

/-! ## The writers -/

namespace Disk

/-- A transaction that is applied leaves a receipt. -/
theorem ne_applied (d : Disk) (transaction : RecordTransaction) : d ≠ d.applied transaction := by
  intro heq
  exact List.cons_ne_self transaction d.receipts (congrArg Disk.receipts heq).symm

/-- After the commit of a put, the record is in the store if the transaction was applied, or if
    another writer had put the same record before. -/
theorem Commits.lookup_iff {d e : Disk} {transaction : RecordTransaction}
    {answer : Option (Result StoreOutcome)} (h : d.Commits transaction answer e)
    {key : MetadataKey} {expected : Option MetadataRecord} {record : MetadataRecord}
    (hput : StoreAction.put key expected record ∈ transaction.batch.actions)
    (hkeys : transaction.batch.keys.Nodup) :
    e.store.lookup key = some record ↔
      e = d.applied transaction ∨ d.store.lookup key = some record := by
  rcases h.cases with rfl | ⟨rfl, haccepts⟩
  · have hne := ne_applied e transaction
    simp [hne]
  · have happlied : (d.applied transaction).store.lookup key = some record :=
      Store.lookup_apply_of_mem haccepts hkeys hput
    simp [happlied]

/-- A new transaction whose outcome is known was applied if and only if it is `Committed`. -/
theorem Commits.applied_iff {d e : Disk} {transaction : RecordTransaction} {outcome : StoreOutcome}
    (h : d.Commits transaction (some (.ok outcome)) e) (hnew : transaction ∉ d.receipts)
    (hknown : outcome ≠ .unknown) : e = d.applied transaction ↔ outcome = .committed := by
  cases h with
  | replayed hmem => exact absurd hmem hnew
  | refused => exact iff_of_false (ne_applied _ _) nofun
  | applied answer _ _ hanswer =>
    refine iff_of_true rfl ?_
    cases outcome <;> simp [Unsettled] at hanswer hknown ⊢
  | failed answer hanswer =>
    refine iff_of_false (ne_applied _ _) ?_
    rintro rfl
    simp [Unsettled] at hanswer

end Disk

/-- A call of a writer with what it is to write. -/
inductive MetadataWriter where
  | persistSnapshot (record : TrustSnapshotV1)
  | persistBinding (node : NodeId) (key : PublicKey)
  | adoptBinding (node : NodeId) (key : PublicKey)
  | storeDescriptor (descriptor : DescriptorRecord)

namespace MetadataWriter

def program : MetadataWriter → NodeM Unit
  | persistSnapshot record => persistSnapshotCtx record
  | persistBinding node key => persistBindingCtx node key
  | adoptBinding node key => adoptBindingCtx node key
  | storeDescriptor descriptor => storeDescriptorCtx descriptor

def key : MetadataWriter → MetadataKey
  | persistSnapshot record => .trustSnapshot record.issuer record.revision
  | persistBinding node _ => .trustBinding node
  | adoptBinding node _ => .identityBinding node
  | storeDescriptor descriptor => .nodeDescriptor descriptor.node

def record : MetadataWriter → MetadataRecord
  | persistSnapshot record => .trustSnapshot record
  | persistBinding _ key => .trustBinding key
  | adoptBinding node key => .identityBinding ⟨node, key⟩
  | storeDescriptor descriptor => .nodeDescriptor descriptor

/-- The record is in the store after the last call on its content. -/
def Durable (writer : MetadataWriter) (trace : List NodeExchange) : Prop :=
  ∃ e, lastContent trace = some e ∧
    e.after.disk.store.lookup writer.key = some writer.record

/-- What the check for an existing record leaves out: of a snapshot it compares issuer and
    revision, and of an identity binding the key. -/
def Agrees : MetadataWriter → MetadataRecord → Prop
  | persistSnapshot record, stored => stored = .trustSnapshot record
  | adoptBinding node _, stored => ∀ binding, stored.asIdentityBinding = some binding →
      binding.node = node
  | _, _ => True

/-- The last call on the content went well: a record found there is the one to write, or the
    provider applied the transaction, or another writer had put the same record before. -/
def Lands (writer : MetadataWriter) (e : NodeExchange) : Prop :=
  match e.request with
  | .providerCommit transaction => e.after.disk = e.before.disk.applied transaction ∨
      e.before.disk.store.lookup writer.key = some writer.record
  | _ => ∀ stored, e.before.disk.store.lookup writer.key = some stored → writer.Agrees stored

/-- A `Committed` new transaction lands. After `Conflict` or `Aborted` nothing does but the same
    record of another writer. -/
theorem lands_commit_iff {writer : MetadataWriter} {s t : NodeStore} {transaction : RecordTransaction}
    {outcome : StoreOutcome} (h : s.disk.Commits transaction (some (.ok outcome)) t.disk)
    (hnew : transaction ∉ s.disk.receipts) (hknown : outcome ≠ .unknown) :
    writer.Lands ⟨.providerCommit transaction, s, some (.ok outcome), t⟩ ↔
      outcome = .committed ∨ s.disk.store.lookup writer.key = some writer.record :=
  or_congr (h.applied_iff hnew hknown) Iff.rfl

/-- The end of a trace: for the last call on the content, the record is there if it went well. -/
def Ends (writer : MetadataWriter) (trace : List NodeExchange) : Prop :=
  ∃ e, lastContent trace = some e ∧
    (e.after.disk.store.lookup writer.key = some writer.record ↔ writer.Lands e)

variable {writer : MetadataWriter} {trace : List NodeExchange}

/-- The end of a writer that has committed. -/
theorem ends_of_commit {first : List NodeExchange} {base : Nat} {actions : List RecordAction}
    {transaction : RecordTransaction} {outcome : StoreOutcome} {expected : Option MetadataRecord}
    (hprepare : Succeeds (prepare base actions none) first transaction)
    (hcommit : Succeeds (commitRecords transaction) trace outcome)
    (hput : StoreAction.put writer.key expected writer.record ∈ actions) (before : List NodeExchange)
    (after : List NodeExchange) (hafter : lastContent after = none) :
    writer.Ends (before ++ (first ++ (trace ++ after))) := by
  obtain ⟨-, id, rfl, hkeys⟩ := hprepare.prepare
  obtain ⟨s, t, hcommits, hlast⟩ := hcommit.commitRecords
  have hend : lastContent (before ++ (first ++ (trace ++ after))) =
      some ⟨.providerCommit (prepared id base actions none), s, some (.ok outcome), t⟩ := by
    simp only [lastContent_append, hlast, hafter, Option.none_or, Option.some_or]
  refine ⟨_, hend, ?_⟩
  exact hcommits.lookup_iff (List.mem_append_left _ hput) hkeys

/-- The end of a writer that drops the outcome of its commit. -/
theorem ends_of_put {base : Nat} {actions : List RecordAction} {expected : Option MetadataRecord}
    (h : Succeeds (do
      let transaction ← prepare base actions none
      let _ ← commitRecords transaction
      return ()) trace ())
    (hput : StoreAction.put writer.key expected writer.record ∈ actions)
    (before : List NodeExchange) : writer.Ends (before ++ trace) := by
  obtain ⟨transaction, first, rest, rfl, hprepare, hrest⟩ := h.bind
  obtain ⟨outcome, second, third, rfl, hcommit, hthird⟩ := hrest.bind
  obtain ⟨rfl, -⟩ := hthird.pure
  exact ends_of_commit hprepare hcommit hput before [] rfl

/-- The end of a writer that goes by a record it has found. -/
theorem ends_of_found {s : NodeStore} {stored : MetadataRecord} {store : RecordStore}
    (hlast : lastContent trace = some ⟨.snapshot, s, .ok store, s⟩)
    (hfound : s.disk.store.lookup writer.key = some stored)
    (hrecord : stored = writer.record ↔ writer.Agrees stored) : writer.Ends trace := by
  refine ⟨_, hlast, ?_⟩
  show s.disk.store.lookup writer.key = some writer.record ↔
    ∀ stored, s.disk.store.lookup writer.key = some stored → writer.Agrees stored
  rw [hfound]
  constructor
  · intro heq other hother
    cases hother
    exact hrecord.mp (Option.some.inj heq)
  · intro h
    rw [hrecord.mpr (h stored rfl)]

theorem ends_persistSnapshot {record : TrustSnapshotV1}
    (h : Succeeds (persistSnapshotCtx record) trace ()) : (persistSnapshot record).Ends trace := by
  obtain ⟨current, first, rest, rfl, hfirst, hrest⟩ := Succeeds.bind h
  obtain ⟨s, rfl, hlast⟩ := hfirst.snapshot
  cases hfound : s.disk.store.lookup (.trustSnapshot record.issuer record.revision) with
  | some stored =>
    simp only [hfound, Option.isSome_some, ↓reduceIte] at hrest
    obtain ⟨rfl, -⟩ := hrest.pure
    rw [List.append_nil]
    exact ends_of_found hlast hfound Iff.rfl
  | none =>
    simp only [hfound, Option.isSome_none, Bool.false_eq_true, ↓reduceIte] at hrest
    exact ends_of_put hrest List.mem_cons_self first

theorem ends_persistBinding {node : NodeId} {key : PublicKey}
    (h : Succeeds (persistBindingCtx node key) trace ()) : (persistBinding node key).Ends trace := by
  obtain ⟨current, first, rest, rfl, hfirst, hrest⟩ := Succeeds.bind h
  obtain ⟨s, rfl, hlast⟩ := hfirst.snapshot
  cases hfound : s.disk.store.lookup (.trustBinding node) with
  | some existing =>
    rw [hfound] at hrest
    obtain ⟨stored, second, third, rfl, hsecond, hthird⟩ := hrest.bind
    obtain ⟨rfl, hstored⟩ := hsecond.ofResult
    obtain ⟨rfl, hsame⟩ := hthird.ofResult
    simp only [List.append_nil]
    refine ends_of_found hlast hfound (iff_of_true ?_ trivial)
    -- The format and the key are compared, so the value is the one to write.
    have hkey : stored = key := not_not.mp (Except.rejectIf_eq_ok.mp hsame)
    subst hkey
    cases existing with
    | trustBinding other =>
      cases Except.okOr_eq_ok.mp hstored
      rfl
    | _ => cases Except.okOr_eq_ok.mp hstored
  | none =>
    rw [hfound] at hrest
    exact ends_of_put hrest List.mem_cons_self first

theorem ends_adoptBinding {node : NodeId} {key : PublicKey}
    (h : Succeeds (adoptBindingCtx node key) trace ()) : (adoptBinding node key).Ends trace := by
  obtain ⟨current, first, rest, rfl, hfirst, hrest⟩ := Succeeds.bind h
  obtain ⟨s, rfl, hlast⟩ := hfirst.snapshot
  cases hfound : s.disk.store.lookup (.identityBinding node) with
  | some existing =>
    rw [hfound] at hrest
    obtain ⟨stored, second, third, rfl, hsecond, hthird⟩ := hrest.bind
    obtain ⟨rfl, hstored⟩ := hsecond.ofResult
    obtain ⟨rfl, hsame⟩ := hthird.ofResult
    simp only [List.append_nil]
    refine ends_of_found hlast hfound ?_
    have hkey : stored.publicKey = key := not_not.mp (Except.rejectIf_eq_ok.mp hsame)
    cases existing with
    | identityBinding other =>
      cases Except.okOr_eq_ok.mp hstored
      subst hkey
      show MetadataRecord.identityBinding stored = .identityBinding ⟨node, stored.publicKey⟩ ↔
        ∀ binding, some stored = some binding → binding.node = node
      constructor
      · intro heq binding hbinding
        cases hbinding
        exact congrArg IdentityBindingV1.node (MetadataRecord.identityBinding.inj heq)
      · intro hnode
        rw [← hnode stored rfl]
    | _ => cases Except.okOr_eq_ok.mp hstored
  | none =>
    rw [hfound] at hrest
    obtain ⟨revoked, second, third, rfl, hsecond, hthird⟩ := hrest.bind
    cases revoked with
    | some revokedKey =>
      obtain ⟨done, fourth, fifth, rfl, hfourth, -⟩ := hthird.bind
      exact absurd hfourth not_succeeds_throw
    | none =>
      rw [← List.append_assoc]
      exact ends_of_put hthird List.mem_cons_self (first ++ second)

theorem ends_storeDescriptor {descriptor : DescriptorRecord}
    (h : Succeeds (storeDescriptorCtx descriptor) trace ()) :
    (storeDescriptor descriptor).Ends trace := by
  obtain ⟨current, first, rest, rfl, hfirst, hrest⟩ := Succeeds.bind h
  obtain ⟨done, second, third, rfl, hsecond, hthird⟩ := hrest.bind
  obtain ⟨transaction, fourth, fifth, rfl, hprepare, hfifth⟩ := hthird.bind
  obtain ⟨outcome, sixth, last, rfl, hcommit, hlast⟩ := hfifth.bind
  have hafter : lastContent last = none := by
    cases outcome with
    | committed => rw [hlast.pure.1, lastContent_nil]
    | aborted => rw [hlast.pure.1, lastContent_nil]
    | conflict => exact absurd hlast not_succeeds_throw
    | unknown => exact absurd hlast not_succeeds_throw
  rw [← List.append_assoc]
  exact ends_of_commit hprepare hcommit List.mem_cons_self (first ++ second) last hafter

end MetadataWriter

/-- A writer that reports success has left its record if and only if a record it found was the one
    to write, or its transaction was applied, or another writer had put the same record before. -/
theorem metadata_writer_durable_iff {writer : MetadataWriter} {trace : List NodeExchange}
    (h : Succeeds writer.program trace ()) :
    writer.Durable trace ↔ ∃ e, lastContent trace = some e ∧ writer.Lands e := by
  have hends : writer.Ends trace := by
    cases writer with
    | persistSnapshot record => exact MetadataWriter.ends_persistSnapshot h
    | persistBinding node key => exact MetadataWriter.ends_persistBinding h
    | adoptBinding node key => exact MetadataWriter.ends_adoptBinding h
    | storeDescriptor descriptor => exact MetadataWriter.ends_storeDescriptor h
  obtain ⟨e, hlast, hiff⟩ := hends
  simp only [MetadataWriter.Durable, hlast, Option.some.injEq, exists_eq_left', hiff]

/-! ### Two writers -/

/-- The bindings of two members. -/
def sampleMember (n : UInt8) : NodeId := if n = 0 then sampleResponderId else sampleSubject

def sampleBindingWriter (n : UInt8) : MetadataWriter :=
  .persistBinding (sampleMember n) sampleResponderKey

/-- The transaction of a binding, prepared on the store of an issuer. -/
def sampleBindingPut (n : UInt8) : RecordTransaction :=
  prepared (sampleTransactionId n) 0
    [.put (sampleBindingWriter n).key none (sampleBindingWriter n).record] none

/-- The transaction of the first binding has been prepared and applied. -/
def sampleBoundDisk : Disk :=
  (sampleIssuerDisk.prepare (sampleBindingPut 0)).applied (sampleBindingPut 0)

theorem accepts_sampleBindingPut : sampleIssuerStore.accepts (sampleBindingPut 0).batch = true := by
  refine Store.accepts_iff.mpr ⟨rfl, ?_⟩
  intro action haction
  cases List.mem_singleton.mp haction
  rfl

/-- A writer reads the store of the issuer and prepares its transaction. -/
theorem leads_sampleBindingWriter (n : UInt8) {disk : Disk} (hstore : disk.store = sampleIssuerStore)
    (hfresh : ∀ transaction ∈ disk.prepared, transaction.id ≠ sampleTransactionId n) :
    Leads AnyAnswer (sampleBindingWriter n).program ⟨.ready, disk⟩
      (commitRecords (sampleBindingPut n) >>= fun _ => pure ())
      ⟨.ready, disk.prepare (sampleBindingPut n)⟩ := by
  have hkeys : (sampleBindingPut n).batch.keys.Nodup := List.nodup_singleton _
  have hnone : disk.store.lookup (.trustBinding (sampleMember n)) = none := by
    rw [hstore]
    rfl
  have hbase : disk.store.revision = 0 := by
    rw [hstore]
    rfl
  refine (leads_snapshot _ trivial).andThen ?_
  simp only [hnone, hbase]
  exact (leads_prepare trivial hfresh hkeys).andThen (.refl _ _)

/-- The calls of the first writer, alone on the store of an issuer. -/
def sampleBindingTrace : List NodeExchange :=
  let before : Disk := sampleIssuerDisk.prepare (sampleBindingPut 0)
  let id := sampleTransactionId 0
  [⟨.snapshot, ⟨.ready, sampleIssuerDisk⟩, .ok sampleIssuerStore, ⟨.ready, sampleIssuerDisk⟩⟩,
    ⟨.prepare 0 [.put (sampleBindingWriter 0).key none (sampleBindingWriter 0).record] none,
      ⟨.ready, sampleIssuerDisk⟩, .ok (sampleBindingPut 0), ⟨.ready, before⟩⟩,
    ⟨.beginCommit id, ⟨.ready, before⟩, .ok (), ⟨.frozen id false true, before⟩⟩,
    ⟨.providerCommit (sampleBindingPut 0), ⟨.frozen id false true, before⟩,
      some (.ok .committed), ⟨.frozen id false true, sampleBoundDisk⟩⟩,
    ⟨.finishReady, ⟨.frozen id false true, sampleBoundDisk⟩, (), ⟨.ready, sampleBoundDisk⟩⟩]

theorem sampleBindingTrace_durable : (sampleBindingWriter 0).Durable sampleBindingTrace := by
  have hcommits : (sampleIssuerDisk.prepare (sampleBindingPut 0)).Commits (sampleBindingPut 0)
      (some (.ok .committed)) sampleBoundDisk :=
    .applied _ List.not_mem_nil accepts_sampleBindingPut (Or.inl rfl)
  have hsucceeds : Succeeds (sampleBindingWriter 0).program sampleBindingTrace () := by
    refine .cons ⟨rfl, Or.inl rfl⟩ ?_
    refine .cons (Or.inr ⟨sampleTransactionId 0, nofun, List.nodup_singleton _, rfl, rfl⟩) ?_
    refine .cons ⟨rfl, rfl⟩ ?_
    refine .cons ⟨rfl, hcommits⟩ ?_
    exact .cons rfl (.nil _)
  exact (metadata_writer_durable_iff hsucceeds).mpr ⟨_, rfl, Or.inl rfl⟩

/-- The writers on one store. -/
def writerSchedule : Schedule MetadataWriter NodeCall NodeCall.Answer (Result Unit) NodeStore :=
  nodeSchedule MetadataWriter.program fun _ _ _ => True

/-- Two bindings are persisted at the same time. The commit of the second conflicts with that of
    the first, and the second call reports success without its record. -/
theorem binding_lost_silently :
    ∃ s : Threads MetadataWriter NodeCall NodeCall.Answer (Result Unit) NodeStore,
      (writerSchedule.runs ⟨.ready, sampleIssuerDisk⟩).Reachable s ∧
      s.threads = [⟨sampleBindingWriter 1, .done (.ok ())⟩,
        ⟨sampleBindingWriter 0, .done (.ok ())⟩] ∧
      s.state.disk.store.lookup (sampleBindingWriter 1).key = none := by
  have hok := admitsStore_anyAnswer
  have hmono : ∀ (call : NodeCall) (s : NodeStore) (answer : call.Answer) (t : NodeStore),
      AnyAnswer call s answer ∧ call.answers s answer t → call.answers s answer t :=
    fun _ _ _ _ h => h.2
  let first := sampleIssuerDisk.prepare (sampleBindingPut 1)
  let second := first.prepare (sampleBindingPut 0)
  let final := second.applied (sampleBindingPut 0)
  let waiting : NodeM Unit := commitRecords (sampleBindingPut 1) >>= fun _ => pure ()
  -- One call has taken its snapshot and prepared its transaction.
  have hfirst : Leads AnyAnswer (sampleBindingWriter 1).program ⟨.ready, sampleIssuerDisk⟩ waiting
      ⟨.ready, first⟩ := leads_sampleBindingWriter 1 rfl fun _ h => absurd h List.not_mem_nil
  -- Meanwhile the other is committed.
  have hsecond : Leads AnyAnswer (sampleBindingWriter 0).program ⟨.ready, first⟩ (pure ())
      ⟨.ready, final⟩ := by
    have hfresh : ∀ transaction ∈ first.prepared, transaction.id ≠ sampleTransactionId 0 := by
      intro transaction htransaction
      cases List.mem_singleton.mp htransaction
      decide
    refine (leads_sampleBindingWriter 0 rfl hfresh).trans ?_
    have hcommits : second.Commits (sampleBindingPut 0) (some (.ok .committed)) final :=
      .applied _ List.not_mem_nil accepts_sampleBindingPut (Or.inl rfl)
    exact (leads_commitRecords hok hcommits nofun).andThen (.refl _ _)
  -- The first one is now refused.
  have hthird : Leads AnyAnswer waiting ⟨.ready, final⟩ (pure ()) ⟨.ready, final⟩ := by
    have hcommits : final.Commits (sampleBindingPut 1) (some (.ok .conflict)) final :=
      .refused
    exact (leads_commitRecords hok hcommits nofun).andThen (.refl _ _)
  refine ⟨⟨⟨.ready, final⟩, [⟨sampleBindingWriter 1, .done (.ok ())⟩,
    ⟨sampleBindingWriter 0, .done (.ok ())⟩]⟩, ?_, rfl, rfl⟩
  refine ⟨_, rfl, .head (.start (sampleBindingWriter 1) trivial) ?_⟩
  refine (Schedule.path_of_runs (hfirst.mono hmono) [] [] (sampleBindingWriter 1)).trans ?_
  refine .head (.start (sampleBindingWriter 0) trivial) ?_
  refine (Schedule.path_of_runs (hsecond.mono hmono) [⟨sampleBindingWriter 1, waiting.run⟩] []
    (sampleBindingWriter 0)).trans ?_
  exact Schedule.path_of_runs (S := writerSchedule) (hthird.mono hmono) []
    [⟨sampleBindingWriter 0, .done (.ok ())⟩] (sampleBindingWriter 1)

end Radiata
