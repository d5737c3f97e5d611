import Radiata.Native.Migration
import Radiata.Spec.ConditionalPutCorrect

/-!
# What a migration leaves behind

A schema record reads back unless the name of its version is longer than 255 bytes. A run of
`ensure_schema` that succeeds ends at the target version, provided that its last commit was not
answered `Aborted`, which the code takes for a success.

## Key results

- `SchemaRecord.decode_encode` / `SchemaRecord.decode_encode_long`: which records read back
- `MigrationRegistry.versions_nodup`: the versions of a chain are distinct
- `StorageHandler.run_commitPlan`: what one transaction of a migration does
- `ensureSchema_ends_iff`: when a successful run ends at the target, and when an unknown record
  stops it before any commit
-/

namespace Radiata

/-! ## Schema records -/

/-- The names whose length fits the byte in the record. -/
def SchemaName.Fits (name : SchemaName) : Prop := name.asStr.length ≤ 255

instance (name : SchemaName) : Decidable name.Fits :=
  inferInstanceAs (Decidable (name.asStr.length ≤ 255))

private theorem toNat_ofNat_length (n : Nat) : (UInt8.ofNat n).toNat = n % 256 := by simp

/-- What the decoder reads after the kind: the length is cut to a byte. -/
theorem decode_encodeSchemaRecord (kind : UInt8) (tag : SchemaName) (digest : Option Digest) :
    decodeSchemaRecord (encodeSchemaRecord kind tag digest) =
      if h : Bytes.isUtf8 (tag.asStr.take (tag.asStr.length % 256)) = true then
        schemaVariant kind ⟨tag.asStr.take (tag.asStr.length % 256), h⟩
          (tag.asStr.drop (tag.asStr.length % 256) ++ (digest.map Digest.asBytes).getD [])
      else .error schemaCorrupt := by
  have hcut : tag.asStr.length % 256 ≤ tag.asStr.length := Nat.mod_le _ _
  have hlong : ¬ (tag.asStr ++ (digest.map Digest.asBytes).getD []).length <
      tag.asStr.length % 256 := by
    rw [List.length_append]
    omega
  simp only [decodeSchemaRecord, encodeSchemaRecord, toNat_ofNat_length, if_neg hlong,
    List.take_append_of_le_length hcut, List.drop_append_of_le_length hcut]

theorem schemaVariant_encode (record : SchemaRecord) :
    schemaVariant (match record with | .base _ => baseRecordKind | .edge _ _ => edgeRecordKind)
      record.version ((record.digest.map Digest.asBytes).getD []) = .ok record := by
  cases record with
  | base version => rfl
  | edge version digest =>
    simp [schemaVariant, SchemaRecord.digest, SchemaRecord.version, digest.width, baseRecordKind,
      edgeRecordKind]

namespace SchemaRecord

theorem encode_eq (record : SchemaRecord) : record.encode = encodeSchemaRecord
    (match record with | .base _ => baseRecordKind | .edge _ _ => edgeRecordKind)
    record.version record.digest := by
  cases record <;> rfl

variable {record : SchemaRecord}

/-- A record reads back if the name of its version fits. -/
theorem decode_encode (h : record.version.Fits) :
    decodeSchemaRecord record.encode = .ok record := by
  have hcut : record.version.asStr.length % 256 = record.version.asStr.length :=
    Nat.mod_eq_of_lt (Nat.lt_succ_of_le h)
  have hvariant := schemaVariant_encode record
  rw [encode_eq, decode_encodeSchemaRecord]
  simp only [hcut, List.take_length, List.drop_length, List.nil_append]
  rw [dif_pos record.version.utf8]
  exact hvariant

/-- The rest of a longer name is in the way. -/
theorem decode_encode_long (h : ¬ record.version.Fits) :
    decodeSchemaRecord record.encode = .error schemaCorrupt := by
  have hlong : 255 < record.version.asStr.length := Nat.lt_of_not_le h
  rw [encode_eq, decode_encodeSchemaRecord]
  split
  · have hrest : 256 ≤ (record.version.asStr.drop (record.version.asStr.length % 256)).length := by
      rw [List.length_drop]
      omega
    cases record with
    | base version =>
      have hne : version.asStr.drop (version.asStr.length % 256) ≠ [] := by
        intro hnil
        rw [SchemaRecord.version, hnil] at hrest
        simp at hrest
      simp [schemaVariant, SchemaRecord.digest, SchemaRecord.version, hne]
    | edge version digest =>
      rw [SchemaRecord.version] at hrest
      have hne : ¬ (version.asStr.drop (version.asStr.length % 256) ++ digest.asBytes).length = 32 := by
        rw [List.length_append, digest.width]
        omega
      simp [schemaVariant, SchemaRecord.digest, SchemaRecord.version, hne, baseRecordKind,
        edgeRecordKind, -List.length_append]
  · rfl

theorem decode_encode_iff :
    decodeSchemaRecord record.encode = .ok record ↔ record.version.Fits := by
  constructor
  · intro h
    by_contra hlong
    rw [decode_encode_long hlong] at h
    cases h
  · exact decode_encode

/-- A record that reads back at all is the one that was written. -/
theorem eq_of_decode_encode {found : SchemaRecord}
    (h : decodeSchemaRecord record.encode = .ok found) : found = record := by
  by_cases hfits : record.version.Fits
  · rw [decode_encode hfits] at h
    exact (Except.ok.inj h).symm
  · rw [decode_encode_long hfits] at h
    cases h

end SchemaRecord

/-- A name that was read fits. -/
theorem fits_of_decode {value : StoreValue} {record : SchemaRecord}
    (h : decodeSchemaRecord value = .ok record) : record.version.Fits := by
  unfold decodeSchemaRecord at h
  split at h
  · rename_i kind tagLen rest hbytes
    split at h
    · cases h
    split at h
    · rename_i hlength hutf8
      have hbound : (rest.take tagLen.toNat).length ≤ 255 := by
        have := tagLen.toNat_lt
        rw [List.length_take]
        omega
      unfold schemaVariant at h
      split at h
      · split at h
        · cases h
          exact hbound
        · cases h
      · split at h
        · split at h
          · cases h
            exact hbound
          · cases h
        · cases h
    · cases h
  · cases h

/-! ## Transaction ids -/

theorem length_base62Digits (index value : Nat) (suffix : Bytes) :
    (base62Digits index value suffix).length = index + suffix.length := by
  induction index generalizing value suffix with
  | zero => simp [base62Digits]
  | succ index ih =>
    rw [base62Digits, ih, List.length_cons]
    omega

theorem isBase62_alphabet : ∀ digit < 62, isBase62 (base62Alphabet.getD digit 0) = true := by decide

theorem all_base62Digits (index value : Nat) {suffix : Bytes} (h : suffix.all isBase62 = true) :
    (base62Digits index value suffix).all isBase62 = true := by
  induction index generalizing value suffix with
  | zero => exact h
  | succ index ih =>
    refine ih _ ?_
    rw [List.all_cons, h, isBase62_alphabet _ (Nat.mod_lt _ (by decide))]
    rfl

/-- Every derived id is a transaction id. -/
theorem exists_migrationTransactionId (parts : List Bytes) :
    ∃ id, migrationTransactionId parts = .ok id := by
  have hvalid : validateId (transactionPrefix ++
      encodeBase62Suffix (migrationTransactionValue parts)) transactionPrefix "transaction id" =
      .ok () := by
    have hlength : (encodeBase62Suffix (migrationTransactionValue parts)).length =
        randomSuffixLen := length_base62Digits _ _ _
    have hbase62 : (encodeBase62Suffix (migrationTransactionValue parts)).all isBase62 = true :=
      all_base62Digits _ _ rfl
    have hshape : ¬ ((transactionPrefix ++
        encodeBase62Suffix (migrationTransactionValue parts)).length ≠
          transactionPrefix.length + randomSuffixLen ∨
        ¬ transactionPrefix <+: transactionPrefix ++
          encodeBase62Suffix (migrationTransactionValue parts)) := by
      simp [hlength]
    unfold validateId
    rw [if_neg hshape, List.drop_left, if_neg (not_not.mpr hbase62)]
  exact ⟨_, dif_pos hvalid⟩

/-! ## Outcomes -/

theorem stampOutcome_eq_ok {outcome : CommitOutcome} (h : stampOutcome outcome = .ok ()) :
    outcome = .aborted ∨ ∃ receipt, outcome = .committed receipt := by
  cases outcome with
  | committed receipt => exact Or.inr ⟨receipt, rfl⟩
  | aborted => exact Or.inl rfl
  | conflict => cases h
  | unknown transaction digest => cases h

theorem edgeOutcome_eq_ok {outcome : CommitOutcome} (h : edgeOutcome outcome = .ok ()) :
    outcome = .aborted ∨ ∃ receipt, outcome = .committed receipt := by
  cases outcome with
  | committed receipt => exact Or.inr ⟨receipt, rfl⟩
  | aborted => exact Or.inl rfl
  | conflict => cases h
  | unknown transaction digest => cases h

section Chains

variable [DnsName]

/-! ## Chains -/

/-- The chain has a transform at each edge, and goes on to new versions only. -/
theorem checkEdges_eq_ok {base : SchemaName} {edges : List MigrationEdge}
    {seenVersions seenTags : List SchemaName} {previous : Option MigrationEdge}
    (hseen : seenVersions.Nodup) (h : checkEdges base seenVersions seenTags previous edges = .ok ()) :
    (∀ edge ∈ edges, edge.transform.isSome = true) ∧
      (seenVersions ++ edges.map MigrationEdge.toVersion).Nodup := by
  induction edges generalizing seenVersions seenTags previous with
  | nil => exact ⟨nofun, by simpa using hseen⟩
  | cons edge rest ih =>
    obtain ⟨htransform, h⟩ := Except.seq_eq_ok.mp h
    obtain ⟨hversion, h⟩ := Except.seq_eq_ok.mp h
    obtain ⟨-, h⟩ := Except.seq_eq_ok.mp h
    obtain ⟨-, h⟩ := Except.seq_eq_ok.mp h
    obtain ⟨-, h⟩ := Except.seq_eq_ok.mp h
    rw [Except.rejectIf_eq_ok, not_or] at hversion
    rw [Except.rejectIf_eq_ok, Option.isNone_iff_eq_none, ← ne_eq, Option.ne_none_iff_isSome]
      at htransform
    have hnew : (seenVersions ++ [edge.toVersion]).Nodup := by
      rw [List.nodup_append]
      refine ⟨hseen, List.nodup_singleton _, ?_⟩
      intro seen hmem other hother heq
      rw [List.mem_singleton] at hother
      exact hversion.2 (hother ▸ heq ▸ hmem)
    obtain ⟨hrest, hnodup⟩ := ih hnew h
    refine ⟨fun other hother => ?_, by simpa using hnodup⟩
    rcases List.mem_cons.mp hother with rfl | hmem
    · exact htransform
    · exact hrest other hmem

namespace MigrationRegistry

variable (registry : MigrationRegistry)

/-- The versions of a chain are distinct. -/
theorem versions_nodup :
    (registry.base :: registry.edges.map MigrationEdge.toVersion).Nodup :=
  (checkEdges_eq_ok (List.nodup_singleton _) registry.accepted).2

variable {registry} {record : SchemaRecord}

theorem locate_base (h : record.version = registry.base) : registry.locate record = .ok 0 :=
  if_pos h

/-- Where a record is found: at the base, or behind the edge that wrote it. -/
theorem locate_eq_ok {behind : Nat} (h : registry.locate record = .ok behind) :
    record.version = registry.base ∧ behind = 0 ∨ ∃ done applied rest,
      registry.edges = done ++ applied :: rest ∧ behind = done.length + 1 ∧
      record = applied.record := by
  unfold locate at h
  split at h
  · rename_i hbase
    cases h
    exact Or.inl ⟨hbase, rfl⟩
  · split at h
    · cases h
    rename_i position hposition
    split at h
    · rename_i hrecord
      cases h
      obtain ⟨applied, happlied, hrecord⟩ := Option.map_eq_some_iff.mp hrecord
      obtain ⟨hlt, hget⟩ := List.getElem?_eq_some_iff.mp happlied
      refine Or.inr ⟨registry.edges.take position, applied, registry.edges.drop (position + 1),
        ?_, ?_, hrecord.symm⟩
      · rw [← hget, ← List.drop_eq_getElem_cons hlt, List.take_append_drop]
      · rw [List.length_take, Nat.min_eq_left hlt.le]
    · cases h

/-- A record is found behind the edge that writes it. -/
theorem locate_record {done rest : List MigrationEdge} {applied : MigrationEdge}
    (h : registry.edges = done ++ applied :: rest) :
    registry.locate applied.record = .ok (done.length + 1) := by
  have hnodup := registry.versions_nodup
  rw [h, List.map_append, List.map_cons, List.nodup_cons, List.nodup_append] at hnodup
  obtain ⟨hbase, -, -, hdone⟩ := hnodup
  have hversion : applied.record.version = applied.toVersion := rfl
  have hne : applied.record.version ≠ registry.base := by
    intro heq
    exact hbase (by simp [← heq, hversion])
  -- No edge before writes the same version.
  have hposition : registry.edges.findIdx?
      (fun edge => edge.toVersion = applied.record.version) = some done.length := by
    rw [h, List.findIdx?_append, List.findIdx?_eq_none_iff.mpr]
    · simp [hversion, List.findIdx?_cons]
    · intro edge hedge
      have := hdone edge.toVersion (List.mem_map_of_mem hedge) applied.toVersion
        (List.mem_cons_self ..)
      simpa [hversion] using this
  simp only [locate, if_neg hne, hposition]
  rw [h, List.getElem?_append_right (Nat.le_refl _)]
  simp

end MigrationRegistry

/-! ## Transactions -/

/-- The schema record after the transaction is this one. -/
def WritesRecord (record : SchemaRecord) (transaction : StoreTransaction) : Prop :=
  ∃ key, schemaKey = .ok key ∧ ∀ entries : Entries,
    (transaction.operations.foldl applyOperation entries).get key = some record.encode

variable {transaction : StoreTransaction}

variable {record : SchemaRecord} {snapshot : StoreSnapshot}

/-- The last operation of a transaction writes the schema record. -/
theorem writes_of_operations {operations : List StoreOperation} {operation : StoreOperation}
    (hoperation : schemaRecordOperation snapshot record = .ok operation)
    (h : transaction.operations = operations ++ [operation]) : WritesRecord record transaction := by
  obtain ⟨key, hkey, hoperation⟩ := Result.bind_eq_ok.mp hoperation
  cases hoperation
  refine ⟨key, hkey, fun entries => ?_⟩
  rw [h, List.foldl_append]
  exact SortedMap.get_insert_self ..

/-- The transaction of the stamp writes the base record. -/
theorem MigrationRegistry.prepareStamp_writes {registry : MigrationRegistry}
    (h : registry.prepareStamp snapshot = .ok transaction) :
    WritesRecord (.base registry.base) transaction := by
  obtain ⟨operation, hoperation, h⟩ := Result.bind_eq_ok.mp h
  obtain ⟨id, -, h⟩ := Result.bind_eq_ok.mp h
  obtain ⟨-, -, rfl⟩ := StoreTransaction.new_eq_ok.mp h
  exact writes_of_operations hoperation (show _ = [] ++ [operation] from rfl)

/-- The transaction of an edge writes its record. -/
theorem MigrationEdge.prepare_writes {edge : MigrationEdge}
    (h : edge.prepare snapshot = .ok transaction) :
    WritesRecord edge.record transaction := by
  obtain ⟨id, -, h⟩ := Result.bind_eq_ok.mp h
  obtain ⟨transform, -, h⟩ := Result.bind_eq_ok.mp h
  obtain ⟨operations, -, h⟩ := Result.bind_eq_ok.mp h
  obtain ⟨operation, hoperation, h⟩ := Result.bind_eq_ok.mp h
  obtain ⟨-, -, rfl⟩ := StoreTransaction.new_eq_ok.mp h
  exact writes_of_operations hoperation rfl

/-- The record found after a transaction that writes one. -/
theorem WritesRecord.readSchema (h : WritesRecord record transaction) (entries : Entries) :
    readSchema (transaction.operations.foldl applyOperation entries) =
      (decodeSchemaRecord record.encode).map some := by
  obtain ⟨key, hkey, hentries⟩ := h
  simp only [Radiata.readSchema, hkey, Result.ok_bind, hentries entries]
  cases decodeSchemaRecord record.encode <;> rfl

/-- The name of the version of a store fits. -/
theorem fits_of_readSchema {entries : Entries} (h : readSchema entries = .ok (some record)) :
    record.version.Fits := by
  obtain ⟨key, -, h⟩ := Result.bind_eq_ok.mp h
  cases hvalue : entries.get key with
  | none =>
    rw [hvalue] at h
    cases h
  | some value =>
    rw [hvalue] at h
    obtain ⟨decoded, hdecoded, h⟩ := Result.bind_eq_ok.mp h
    cases h
    exact fits_of_decode hdecoded

/-! ## Runs -/

namespace StorageHandler

variable {σ : Type} (handler : StorageHandler σ)

variable {session : StorageSession σ}

theorem run_bind_ok {α β : Type} {program : StorageM α} {next : α → StorageM β}
    {after : StorageSession σ} {value : α} (h : handler.run program session = (.ok value, after)) :
    handler.run (program >>= next) session = handler.run (next value) after := by
  have hsequence := Prog.run_exceptT_bind handler.serve program next session
  unfold run at h ⊢
  rw [hsequence, h]

/-- A sequence stops at its first error. -/
theorem run_bind_error {α β : Type} {program : StorageM α} {next : α → StorageM β}
    {after : StorageSession σ} {error : Error}
    (h : handler.run program session = (.error error, after)) :
    handler.run (program >>= next) session = (.error error, after) := by
  have hsequence := Prog.run_exceptT_bind handler.serve program next session
  unfold run at h ⊢
  rw [hsequence, h]

@[simp] theorem run_pure {α : Type} (value : α) (session : StorageSession σ) :
    handler.run (pure value) session = (.ok value, session) := rfl

@[simp] theorem run_lift {α : Type} (result : Result α) (session : StorageSession σ) :
    handler.run (StorageM.lift result) session = (result, session) := rfl

@[simp] theorem run_takeSnapshot (session : StorageSession σ) :
    handler.run StorageM.takeSnapshot session = (.ok (handler.snapshot session.state), session) :=
  rfl

@[simp] theorem run_commit (transaction : StoreTransaction) (session : StorageSession σ) :
    handler.run (StorageM.commit transaction) session =
      ((handler.commit session.state transaction).1, handler.submit session transaction) := rfl

/-- What one transaction of a migration does: it is refused before the storage sees it, or it is
    submitted and its answer is settled. -/
theorem run_commitPlan (prepare : StoreSnapshot → Result StoreTransaction)
    (settle : CommitOutcome → Result Unit) (session : StorageSession σ) :
    handler.run (commitPlan prepare settle) session =
      match prepare (handler.snapshot session.state) with
      | .error error => (.error error, session)
      | .ok transaction => ((handler.commit session.state transaction).1 >>= settle,
          handler.submit session transaction) := by
  have hsnapshot := handler.run_takeSnapshot session
  cases hprepare : prepare (handler.snapshot session.state) with
  | error error =>
    rw [commitPlan, handler.run_bind_ok hsnapshot, hprepare]
    exact handler.run_bind_error (handler.run_lift _ session)
  | ok transaction =>
    have hcommit := handler.run_commit transaction session
    rw [commitPlan, handler.run_bind_ok hsnapshot, hprepare,
      handler.run_bind_ok (handler.run_lift _ session)]
    cases hanswer : (handler.commit session.state transaction).1 with
    | error error =>
      rw [hanswer] at hcommit
      rw [handler.run_bind_error hcommit]
      simp only [hanswer]
      rfl
    | ok outcome =>
      rw [hanswer] at hcommit
      rw [handler.run_bind_ok hcommit]
      simp only [hanswer]
      rfl

/-- A log only grows. -/
theorem log_ne_nil {α : Type} (program : StorageM α) (h : session.log ≠ []) :
    (handler.run program session).2.log ≠ [] := by
  have hall : Prog.All (fun _ => True) (ExceptT.run program) := by
    generalize ExceptT.run program = steps
    induction steps with
    | done value => trivial
    | call request resume ih => exact ⟨trivial, ih⟩
  refine Prog.All.run_invariant (I := fun session : StorageSession σ => session.log ≠ []) hall
    (fun call session _ hlog => ?_) h
  cases call with
  | snapshot => exact hlog
  | commit transaction => exact List.cons_ne_nil _ _

end StorageHandler

/-! ## Ends of successful runs -/

/-- The schema record is the one that the last edge writes, or one of the base version in a chain
    without edges. -/
def AtTarget (registry : MigrationRegistry) (entries : Entries) : Prop :=
  ∃ record, readSchema entries = .ok (some record) ∧ record.version = registry.target ∧
    ∀ last ∈ registry.edges.getLast?, record.digest = some last.digest

/-- The schema record is not of a version that one of these edges goes to. -/
def Behind (rest : List MigrationEdge) (entries : Entries) : Prop :=
  ∀ record, readSchema entries = .ok (some record) → ∀ edge ∈ rest,
    record.version ≠ edge.toVersion

/-- The schema record is the one that the edge writes. -/
def Reached (last : MigrationEdge) (entries : Entries) : Prop :=
  readSchema entries = .ok (some last.record)

/-- What follows an answer that a migration goes on after: nothing has changed, or the record has
    been written. -/
def Answered (record : SchemaRecord) (before after : Entries) (answer : Result CommitOutcome) :
    Prop :=
  answer = .ok .aborted ∧ after = before ∨
    answer ≠ .ok .aborted ∧ readSchema after = (decodeSchemaRecord record.encode).map some

section Storage

variable {σ : Type} (storage : Storage σ)

/-- The content of a storage in use. -/
def Storage.content (session : StorageSession σ) : Entries :=
  (storage.snapshot session.state).entries

variable {record : SchemaRecord} {session : StorageSession σ}

/-- A transaction of a migration that the run goes on after. -/
theorem commitPlan_ok {prepare : StoreSnapshot → Result StoreTransaction}
    {settle : CommitOutcome → Result Unit} (hsettle : ∀ outcome, settle outcome = .ok () →
      outcome = .aborted ∨ ∃ receipt, outcome = .committed receipt)
    (hwrites : ∀ snapshot transaction, prepare snapshot = .ok transaction →
      WritesRecord record transaction)
    (h : (storage.run (commitPlan prepare settle) session).1 = .ok ()) :
    ∃ transaction answer,
      (storage.run (commitPlan prepare settle) session).2.log =
        (transaction, answer) :: session.log ∧
      Answered record (storage.content session)
        (storage.content (storage.run (commitPlan prepare settle) session).2) answer := by
  rw [storage.run_commitPlan] at h ⊢
  cases hprepare : prepare (storage.snapshot session.state) with
  | error error =>
    rw [hprepare] at h
    cases h
  | ok transaction =>
    rw [hprepare] at h
    refine ⟨transaction, (storage.commit session.state transaction).1, rfl, ?_⟩
    obtain ⟨outcome, hanswer, houtcome⟩ := Result.bind_eq_ok.mp h
    rcases hsettle outcome houtcome with rfl | ⟨receipt, rfl⟩
    · exact Or.inl ⟨hanswer, storage.refused _ _ _ hanswer (Or.inl rfl)⟩
    · refine Or.inr ⟨by simp [hanswer], ?_⟩
      have happlied := storage.committed _ _ _ hanswer
      show readSchema (storage.snapshot (storage.commit session.state transaction).2).entries = _
      rw [happlied]
      exact (hwrites _ _ hprepare).readSchema _

theorem stampBase_ok {registry : MigrationRegistry}
    (h : (storage.run registry.stampBase session).1 = .ok ()) : ∃ transaction answer,
      (storage.run registry.stampBase session).2.log = (transaction, answer) :: session.log ∧
      Answered (.base registry.base) (storage.content session)
        (storage.content (storage.run registry.stampBase session).2) answer :=
  commitPlan_ok storage (fun _ => stampOutcome_eq_ok)
    (fun _ _ => MigrationRegistry.prepareStamp_writes) h

theorem migrate_ok {edge : MigrationEdge} {session : StorageSession σ}
    (h : (storage.run edge.migrate session).1 = .ok ()) : ∃ transaction answer,
      (storage.run edge.migrate session).2.log = (transaction, answer) :: session.log ∧
      Answered edge.record (storage.content session)
        (storage.content (storage.run edge.migrate session).2) answer :=
  commitPlan_ok storage (fun _ => edgeOutcome_eq_ok) (fun _ _ => MigrationEdge.prepare_writes) h

variable {rest : List MigrationEdge}

variable {answer : Result CommitOutcome}

/-- After a transaction that the run goes on after, the record is still behind the edges that
    follow. -/
theorem Answered.behind {before after : Entries} (h : Answered record before after answer)
    (hbefore : Behind rest before) (hrecord : ∀ edge ∈ rest, record.version ≠ edge.toVersion) :
    Behind rest after := by
  rcases h with ⟨-, hsame⟩ | ⟨-, hread⟩
  · rw [hsame]
    exact hbefore
  · intro found hfound edge hedge
    rw [hread] at hfound
    cases hdecode : decodeSchemaRecord record.encode with
    | error error =>
      rw [hdecode] at hfound
      cases hfound
    | ok decoded =>
      rw [hdecode] at hfound
      cases hfound
      rw [SchemaRecord.eq_of_decode_encode hdecode]
      exact hrecord edge hedge

/-- The record is found after the transaction that writes it exactly if the answer was not
    `Aborted` and the name fits. -/
theorem Answered.found_iff {before after : Entries} (h : Answered record before after answer)
    (hbefore : readSchema before ≠ .ok (some record)) :
    readSchema after = .ok (some record) ↔ answer ≠ .ok .aborted ∧ record.version.Fits := by
  rcases h with ⟨haborted, hsame⟩ | ⟨hcommitted, hread⟩
  · rw [hsame]
    simp [haborted, hbefore]
  · rw [hread, ← SchemaRecord.decode_encode_iff]
    cases decodeSchemaRecord record.encode <;> simp [Except.map, hcommitted]

/-- The loop over the edges: it counts them, and it ends at the last edge exactly if the last
    answer was not `Aborted` and the name fits. -/
theorem migrateEdges_ends {migrated total : Nat}
    (hnodup : (rest.map MigrationEdge.toVersion).Nodup)
    (hbehind : Behind rest (storage.content session))
    (h : (storage.run (migrateEdges rest migrated) session).1 = .ok total) :
    (rest = [] → (storage.run (migrateEdges rest migrated) session).2 = session) ∧
    ∀ last ∈ rest.getLast?, ∃ transaction answer older,
      (storage.run (migrateEdges rest migrated) session).2.log = (transaction, answer) :: older ∧
      (Reached last (storage.content (storage.run (migrateEdges rest migrated) session).2) ↔
        answer ≠ .ok .aborted ∧ last.toVersion.Fits) := by
  induction rest generalizing session migrated with
  | nil =>
    rw [migrateEdges, StorageHandler.run_pure]
    exact ⟨fun _ => rfl, nofun⟩
  | cons edge rest ih =>
    have hedge := @migrate_ok _ σ storage edge session
    cases hrun : storage.run edge.migrate session with
    | mk result after =>
      rw [hrun] at hedge
      cases result with
      | error error =>
        rw [migrateEdges, storage.run_bind_error hrun] at h
        cases h
      | ok done =>
        rw [migrateEdges, storage.run_bind_ok hrun] at h ⊢
        obtain ⟨transaction, answer, hlog, hanswered⟩ := hedge rfl
        refine ⟨nofun, fun last hlast => ?_⟩
        rw [List.map_cons, List.nodup_cons] at hnodup
        cases rest with
        | nil =>
          obtain rfl : edge = last := by simpa using hlast
          rw [migrateEdges, StorageHandler.run_pure]
          refine ⟨transaction, answer, _, hlog, ?_⟩
          exact hanswered.found_iff fun hfound =>
            hbehind _ hfound edge (List.mem_cons_self ..) rfl
        | cons next rest =>
          have hbehind' := hanswered.behind
            (fun record hrecord other hother =>
              hbehind record hrecord other (List.mem_cons_of_mem _ hother))
            (fun other hother heq => hnodup.1 (List.mem_map.mpr ⟨other, hother, heq.symm⟩))
          exact (ih hnodup.2 hbehind' h).2 last hlast

variable {storage} {registry : MigrationRegistry} {s : σ}

/-- The target of a chain with a last edge. -/
theorem MigrationRegistry.target_of_getLast? {last : MigrationEdge}
    (h : registry.edges.getLast? = some last) : registry.target = last.toVersion := by
  simp [MigrationRegistry.target, h]

/-- At the target of a chain with a last edge, the record is the one the edge writes. -/
theorem atTarget_iff_reached {last : MigrationEdge} (h : registry.edges.getLast? = some last)
    (entries : Entries) : AtTarget registry entries ↔ Reached last entries := by
  constructor
  · intro ⟨record, hread, hversion, hdigest⟩
    rw [registry.target_of_getLast? h] at hversion
    have hfound := hdigest last h
    cases record with
    | base version => cases hfound
    | edge version digest =>
      cases hversion
      cases hfound
      exact hread
  · intro hread
    refine ⟨last.record, hread, (registry.target_of_getLast? h).symm, fun other hother => ?_⟩
    obtain rfl : last = other := Option.some.inj (h.symm.trans hother)
    rfl

section Started

variable {handler : StorageHandler σ} {session started : StorageSession σ}
  {existing : Option SchemaRecord} {error : Error}

theorem run_start_none (h : handler.run registry.stampBase session = (.ok (), started)) :
    handler.run (registry.start none) session = (.ok 0, started) := by
  rw [MigrationRegistry.start, handler.run_bind_ok h]
  rfl

/-- A record that does not read back ends the run. -/
theorem ensureSchema_unread
    (hread : readSchema (handler.snapshot session.state).entries = .error error) :
    handler.run registry.ensureSchema session = (.error error, session) := by
  have hexisting := handler.run_lift (readSchema (handler.snapshot session.state).entries) session
  rw [hread] at hexisting
  rw [MigrationRegistry.ensureSchema, handler.run_bind_ok (handler.run_takeSnapshot session), hread]
  exact handler.run_bind_error hexisting

/-- A record that is not located, or a stamp that fails, ends the run. -/
theorem ensureSchema_stopped
    (hread : readSchema (handler.snapshot session.state).entries = .ok existing)
    (hstart : handler.run (registry.start existing) session = (.error error, started)) :
    handler.run registry.ensureSchema session = (.error error, started) := by
  have hexisting := handler.run_lift (readSchema (handler.snapshot session.state).entries) session
  rw [hread] at hexisting
  rw [MigrationRegistry.ensureSchema, handler.run_bind_ok (handler.run_takeSnapshot session), hread,
    handler.run_bind_ok hexisting]
  exact handler.run_bind_error hstart

/-- The run goes on with the edges that are not behind the store. -/
theorem ensureSchema_started {behind : Nat}
    (hread : readSchema (handler.snapshot session.state).entries = .ok existing)
    (hstart : handler.run (registry.start existing) session = (.ok behind, started)) :
    handler.run registry.ensureSchema session =
      ((handler.run (migrateEdges (registry.edges.drop behind) 0) started).1.map
        SchemaOutcome.ofEdges,
      (handler.run (migrateEdges (registry.edges.drop behind) 0) started).2) := by
  have hexisting := handler.run_lift (readSchema (handler.snapshot session.state).entries) session
  rw [hread] at hexisting
  rw [MigrationRegistry.ensureSchema, handler.run_bind_ok (handler.run_takeSnapshot session), hread,
    handler.run_bind_ok hexisting, handler.run_bind_ok hstart]
  cases hrun : handler.run (migrateEdges (registry.edges.drop behind) 0) started with
  | mk result after =>
    cases result with
    | error error => exact handler.run_bind_error hrun
    | ok migrated =>
      rw [handler.run_bind_ok hrun]
      rfl

end Started

variable {started : StorageSession σ}

/-- The end of a run from where some edges are behind: `rest` are the others. -/
theorem ends_of_behind {done : List MigrationEdge} {total : Nat}
    (hedges : registry.edges = done ++ rest) (hrest : rest ≠ [])
    (hbehind : Behind rest (storage.content started))
    (h : (storage.run (migrateEdges rest 0) started).1 = .ok total) :
    AtTarget registry (storage.content (storage.run (migrateEdges rest 0) started).2) ↔
      ∀ entry ∈ (storage.run (migrateEdges rest 0) started).2.log.head?,
        entry.2 ≠ .ok .aborted ∧ registry.target.Fits := by
  have hnodup := registry.versions_nodup
  rw [hedges, List.map_append, List.nodup_cons, List.nodup_append] at hnodup
  have hlast := List.getLast?_eq_some_getLast hrest
  have htarget : registry.edges.getLast? = some (rest.getLast hrest) := by
    rw [hedges, List.getLast?_append, hlast]
    rfl
  obtain ⟨transaction, answer, older, hlog, hiff⟩ :=
    (migrateEdges_ends storage hnodup.2.2.1 hbehind h).2 _ hlast
  rw [atTarget_iff_reached htarget, registry.target_of_getLast? htarget, hlog, hiff]
  simp

variable {entries : Entries}

/-- The edges from the base version on are ahead of a base record. -/
theorem behind_of_base (hread : readSchema entries = .ok (some record))
    (hbase : record.version = registry.base) :
    Behind registry.edges entries := by
  intro found hfound edge hedge heq
  obtain rfl : record = found := Option.some.inj (Except.ok.inj (hread.symm.trans hfound))
  refine (List.nodup_cons.mp registry.versions_nodup).1 ?_
  rw [← hbase, heq]
  exact List.mem_map_of_mem hedge

/-- A store whose record is the one an edge writes is behind the edges that follow. -/
theorem behind_of_applied {done : List MigrationEdge} {applied : MigrationEdge}
    (hedges : registry.edges = done ++ applied :: rest)
    (hread : readSchema entries = .ok (some applied.record)) : Behind rest entries := by
  intro found hfound edge hedge heq
  obtain rfl : applied.record = found := Option.some.inj (Except.ok.inj (hread.symm.trans hfound))
  have hnodup := registry.versions_nodup
  rw [hedges, List.map_append, List.map_cons, List.nodup_cons, List.nodup_append,
    List.nodup_cons] at hnodup
  refine hnodup.2.2.1.1 ?_
  rw [show applied.toVersion = edge.toVersion from heq]
  exact List.mem_map_of_mem hedge

/-- The end of a run that finds a record of the chain. -/
theorem ends_of_located {behind total : Nat} (hlog : session.log = [])
    (hread : readSchema (storage.content session) = .ok (some record))
    (hlocate : registry.locate record = .ok behind)
    (h : (storage.run (migrateEdges (registry.edges.drop behind) 0) session).1 = .ok total) :
    AtTarget registry
        (storage.content (storage.run (migrateEdges (registry.edges.drop behind) 0) session).2) ↔
      ∀ entry ∈ (storage.run (migrateEdges (registry.edges.drop behind) 0) session).2.log.head?,
        entry.2 ≠ .ok .aborted ∧ registry.target.Fits := by
  rcases MigrationRegistry.locate_eq_ok hlocate with
    ⟨hbase, rfl⟩ | ⟨done, applied, rest, hedges, rfl, rfl⟩
  · rw [List.drop_zero] at h ⊢
    by_cases hempty : registry.edges = []
    · -- The store is at the base version, and that is the target.
      rw [hempty, migrateEdges, storage.run_pure, hlog]
      refine iff_of_true ⟨record, hread, ?_, ?_⟩ nofun
      · rw [hbase, MigrationRegistry.target, hempty]
        rfl
      · rw [hempty]
        nofun
    · exact ends_of_behind (List.nil_append _).symm hempty (behind_of_base hread hbase) h
  · have hdrop : registry.edges.drop (done.length + 1) = rest := by
      rw [hedges, ← List.drop_drop, List.drop_left]
      rfl
    rw [hdrop] at h ⊢
    by_cases hempty : rest = []
    · -- The last edge is behind the store.
      subst hempty
      have hlast : registry.edges.getLast? = some applied := by
        rw [hedges]
        simp
      rw [migrateEdges, storage.run_pure, hlog, atTarget_iff_reached hlast]
      exact iff_of_true hread nofun
    · have hsplit : registry.edges = (done ++ [applied]) ++ rest := by
        rw [hedges]
        simp
      exact ends_of_behind hsplit hempty (behind_of_applied hedges hread) h

/-- The end of a run that stamps the store. -/
theorem ends_of_stamped {total : Nat} (hread : readSchema (storage.content session) = .ok none)
    (hstamp : storage.run registry.stampBase session = (.ok (), started))
    (h : (storage.run (migrateEdges registry.edges 0) started).1 = .ok total) :
    AtTarget registry (storage.content (storage.run (migrateEdges registry.edges 0) started).2) ↔
      ∀ entry ∈ (storage.run (migrateEdges registry.edges 0) started).2.log.head?,
        entry.2 ≠ .ok .aborted ∧ registry.target.Fits := by
  obtain ⟨transaction, answer, hlog, hanswered⟩ := stampBase_ok storage (congrArg Prod.fst hstamp)
  rw [hstamp] at hlog hanswered
  by_cases hempty : registry.edges = []
  · have htarget : registry.target = registry.base := by
      rw [MigrationRegistry.target, hempty]
      rfl
    rw [hempty, migrateEdges, storage.run_pure, hlog]
    have hfound := hanswered.found_iff (by rw [hread]; nofun)
    have hiff : AtTarget registry (storage.content started) ↔
        readSchema (storage.content started) = .ok (some (.base registry.base)) := by
      rw [AtTarget, hempty, htarget]
      constructor
      · intro ⟨record, hrecord, _, _⟩
        rcases hanswered with ⟨-, hsame⟩ | ⟨-, hwritten⟩
        · rw [hsame, hread] at hrecord
          cases hrecord
        · cases hdecode : decodeSchemaRecord (SchemaRecord.base registry.base).encode with
          | error error =>
            rw [hwritten, hdecode] at hrecord
            cases hrecord
          | ok decoded =>
            rw [hwritten, hdecode, SchemaRecord.eq_of_decode_encode hdecode]
            rfl
      · intro hrecord
        exact ⟨_, hrecord, rfl, nofun⟩
    rw [hiff, hfound, htarget]
    simp [SchemaRecord.version]
  · refine ends_of_behind (List.nil_append _).symm hempty (hanswered.behind ?_ ?_) h
    · intro record hrecord
      rw [hread] at hrecord
      cases hrecord
    · intro edge hedge heq
      refine (List.nodup_cons.mp registry.versions_nodup).1 ?_
      rw [show registry.base = edge.toVersion from heq]
      exact List.mem_map_of_mem hedge

/-- A run that succeeds ends at the target, if its last commit was not answered `Aborted` and
    wrote a record that reads back, and then only; if it commits nothing, it is there. -/
theorem ensureSchema_ends {outcome : SchemaOutcome}
    (h : (storage.ensureSchema registry s).1 = .ok outcome) :
    AtTarget registry (storage.content (storage.ensureSchema registry s).2) ↔
      ∀ entry ∈ (storage.ensureSchema registry s).2.log.head?,
        entry.2 ≠ .ok .aborted ∧ registry.target.Fits := by
  unfold StorageHandler.ensureSchema at h ⊢
  cases hread : readSchema (storage.snapshot s).entries with
  | error error =>
    rw [ensureSchema_unread hread] at h
    cases h
  | ok existing =>
    cases hstart : storage.run (registry.start existing) ⟨s, []⟩ with
    | mk result started =>
    cases result with
    | error error =>
      rw [ensureSchema_stopped hread hstart] at h
      cases h
    | ok behind =>
      rw [ensureSchema_started hread hstart] at h ⊢
      obtain ⟨total, hmigrated⟩ : ∃ total,
          (storage.run (migrateEdges (registry.edges.drop behind) 0) started).1 = .ok total := by
        cases hrun : (storage.run (migrateEdges (registry.edges.drop behind) 0) started).1 with
        | error error =>
          rw [hrun] at h
          cases h
        | ok total => exact ⟨total, rfl⟩
      cases existing with
      | some record =>
        have hlocate : registry.locate record = .ok behind := congrArg Prod.fst hstart
        obtain rfl : ⟨s, []⟩ = started := congrArg Prod.snd hstart
        exact ends_of_located rfl hread hlocate hmigrated
      | none =>
        cases hstamp : storage.run registry.stampBase ⟨s, []⟩ with
        | mk answer stamped =>
        cases answer with
        | error error =>
          rw [MigrationRegistry.start, storage.run_bind_error hstamp] at hstart
          cases hstart
        | ok done =>
          rw [run_start_none hstamp] at hstart
          cases hstart
          have hfresh : readSchema (storage.content ⟨s, []⟩) = .ok none := hread
          exact ends_of_stamped hfresh hstamp hmigrated

/-- The schema record is neither the base record nor one that an edge of the chain writes. -/
def Foreign (registry : MigrationRegistry) (entries : Entries) : Prop :=
  ∃ key value, schemaKey = .ok key ∧ entries.get key = some value ∧
    decodeSchemaRecord value ≠ .ok (.base registry.base) ∧
    ∀ edge ∈ registry.edges, decodeSchemaRecord value ≠ .ok edge.record

theorem Foreign.readSchema (h : Foreign registry entries) :
    ∃ value, readSchema entries = (decodeSchemaRecord value).map some ∧
      decodeSchemaRecord value ≠ .ok (.base registry.base) ∧
      ∀ edge ∈ registry.edges, decodeSchemaRecord value ≠ .ok edge.record := by
  obtain ⟨key, value, hkey, hvalue, hunknown⟩ := h
  refine ⟨value, ?_, hunknown⟩
  simp only [Radiata.readSchema, hkey, Result.ok_bind, hvalue]
  cases decodeSchemaRecord value <;> rfl

/-- The loop stops before its first commit exactly if there is a first edge and it cannot be
    prepared. -/
theorem migrateEdges_submits_nothing_iff {edges : List MigrationEdge} {session : StorageSession σ}
    {migrated : Nat} (hlog : session.log = []) :
    (∃ error, (storage.run (migrateEdges edges migrated) session).1 = .error error) ∧
        (storage.run (migrateEdges edges migrated) session).2.log = [] ↔
      ∃ first ∈ edges.head?, ∃ error,
        first.prepare (storage.snapshot session.state) = .error error := by
  cases edges with
  | nil =>
    rw [migrateEdges, storage.run_pure]
    exact ⟨nofun, nofun⟩
  | cons edge rest =>
    have hrun : storage.run edge.migrate session = _ :=
      storage.run_commitPlan edge.prepare edgeOutcome session
    simp only [List.head?_cons, Option.mem_some_iff, exists_eq_left']
    cases hprepare : edge.prepare (storage.snapshot session.state) with
    | error error =>
      simp only [hprepare] at hrun
      rw [migrateEdges, storage.run_bind_error hrun]
      exact iff_of_true ⟨⟨error, rfl⟩, hlog⟩ ⟨error, rfl⟩
    | ok transaction =>
      simp only [hprepare] at hrun
      have hlogged : (storage.submit session transaction).log ≠ [] := List.cons_ne_nil _ _
      refine iff_of_false (fun h => ?_) nofun
      revert h
      cases hanswer : (storage.commit session.state transaction).1 >>= edgeOutcome with
      | error error =>
        rw [hanswer] at hrun
        rw [migrateEdges, storage.run_bind_error hrun]
        exact fun h => hlogged h.2
      | ok done =>
        rw [hanswer] at hrun
        rw [migrateEdges, storage.run_bind_ok hrun]
        exact fun h => storage.log_ne_nil _ hlogged h.2

/-- A store with a foreign record is refused without a commit, unless the record is an edge record
    with the base version, which passes for a base record. -/
theorem ensureSchema_foreign (h : Foreign registry (storage.snapshot s).entries) :
    (∃ error, (storage.ensureSchema registry s).1 = .error error) ∧
        (storage.ensureSchema registry s).2.log = [] ↔
      (∀ digest, readSchema (storage.snapshot s).entries ≠ .ok (some (.edge registry.base digest))) ∨
        ∃ first ∈ registry.edges.head?, ∃ error,
          first.prepare (storage.snapshot s) = .error error := by
  unfold StorageHandler.ensureSchema
  obtain ⟨value, hread, hbase, hedges⟩ := h.readSchema
  cases hdecode : decodeSchemaRecord value with
  | error error =>
    rw [hdecode] at hread
    have hunread : readSchema (storage.snapshot s).entries = .error error := hread
    rw [ensureSchema_unread hunread]
    refine iff_of_true ⟨⟨error, rfl⟩, rfl⟩ (Or.inl fun digest hfound => ?_)
    rw [hunread] at hfound
    cases hfound
  | ok record =>
    rw [hdecode] at hread hbase
    simp only [hdecode] at hedges
    have hrecord : readSchema (storage.snapshot s).entries = .ok (some record) := hread
    by_cases hversion : record.version = registry.base
    · -- The version is looked at before the kind.
      obtain ⟨digest, rfl⟩ : ∃ digest, record = .edge registry.base digest := by
        cases record with
        | base version => exact absurd (by rw [show version = registry.base from hversion]) hbase
        | edge version digest => exact ⟨digest, congrArg (SchemaRecord.edge · digest) hversion⟩
      have hstart : storage.run (registry.start (some (.edge registry.base digest))) ⟨s, []⟩ =
          (.ok 0, ⟨s, []⟩) := by
        rw [MigrationRegistry.start, storage.run_lift, MigrationRegistry.locate_base rfl]
      have hstops := @migrateEdges_submits_nothing_iff _ σ storage registry.edges ⟨s, []⟩ 0 rfl
      rw [ensureSchema_started hrecord hstart, List.drop_zero]
      rw [or_iff_right fun hkind => hkind digest hrecord, ← hstops]
      simp only
      cases (storage.run (migrateEdges registry.edges 0) ⟨s, []⟩).1 <;> simp [Except.map]
    · cases hlocate : registry.locate record with
      | ok behind =>
        rcases MigrationRegistry.locate_eq_ok hlocate with
          ⟨hfound, -⟩ | ⟨done, applied, rest, hsplit, -, rfl⟩
        · exact absurd hfound hversion
        · exact absurd rfl (hedges applied (by rw [hsplit]; simp))
      | error error =>
        have hstart : storage.run (registry.start (some record)) ⟨s, []⟩ =
            (.error error, ⟨s, []⟩) := by
          rw [MigrationRegistry.start, storage.run_lift, hlocate]
        rw [ensureSchema_stopped hrecord hstart]
        refine iff_of_true ⟨⟨error, rfl⟩, rfl⟩ (Or.inl fun digest hfound => ?_)
        rw [hrecord] at hfound
        cases hfound
        exact hversion rfl

/-- For every chain, content and storage. A run that succeeds is at the target exactly if its last
    commit was not answered `Aborted` and wrote a record that reads back. A foreign record stops
    the run before any commit exactly if it is no edge record with the base version, or the plan
    of the first edge fails. -/
theorem ensureSchema_ends_iff (storage : Storage σ) (registry : MigrationRegistry) (s : σ) :
    (∀ outcome, (storage.ensureSchema registry s).1 = .ok outcome →
      (AtTarget registry (storage.content (storage.ensureSchema registry s).2) ↔
        ∀ entry ∈ (storage.ensureSchema registry s).2.log.head?,
          entry.2 ≠ .ok .aborted ∧ registry.target.Fits)) ∧
    (Foreign registry (storage.snapshot s).entries →
      ((∃ error, (storage.ensureSchema registry s).1 = .error error) ∧
          (storage.ensureSchema registry s).2.log = [] ↔
        (∀ digest, readSchema (storage.snapshot s).entries ≠
          .ok (some (.edge registry.base digest))) ∨
        ∃ first ∈ registry.edges.head?, ∃ error,
          first.prepare (storage.snapshot s) = .error error)) :=
  ⟨fun _ h => ensureSchema_ends h, ensureSchema_foreign⟩

end Storage

/-! ## Plans without operations -/

theorem exists_new_singleton (id : TransactionId) (revision : StoreRevision)
    (operation : StoreOperation) :
    ∃ transaction, StoreTransaction.new id revision [operation] = .ok transaction :=
  ⟨_, StoreTransaction.new_eq_ok.mpr ⟨List.cons_ne_nil _ _, List.nodup_singleton _, rfl⟩⟩

/-- An edge with a plan of no operations can be prepared on every snapshot. -/
theorem exists_prepare {edge : MigrationEdge} {key : EntryKey} (hkey : schemaKey = .ok key)
    (hplan : edge.transform = some fun _ => .ok []) (snapshot : StoreSnapshot) :
    ∃ transaction, edge.prepare snapshot = .ok transaction := by
  obtain ⟨id, hid⟩ := exists_migrationTransactionId [edge.tag.asStr, edge.digest.asBytes]
  have hedge : edge.transactionId = .ok id := hid
  simp only [MigrationEdge.prepare, hedge, hplan, Except.okOr, schemaRecordOperation, hkey,
    Result.ok_bind, Result.pure_eq_ok, List.nil_append]
  exact exists_new_singleton id _ _

/-- The stamp can be prepared on every snapshot. -/
theorem exists_prepareStamp (registry : MigrationRegistry) {key : EntryKey}
    (hkey : schemaKey = .ok key) (snapshot : StoreSnapshot) :
    ∃ transaction, registry.prepareStamp snapshot = .ok transaction := by
  obtain ⟨id, hid⟩ := exists_migrationTransactionId [registry.base.asStr]
  simp only [MigrationRegistry.prepareStamp, hid, schemaRecordOperation, hkey, Result.ok_bind,
    Result.pure_eq_ok]
  exact exists_new_singleton id _ _

/-- A transaction that is answered `Aborted`. -/
theorem run_commitPlan_aborted {σ : Type} {handler : StorageHandler σ}
    {prepare : StoreSnapshot → Result StoreTransaction} {settle : CommitOutcome → Result Unit}
    {session : StorageSession σ}
    (hprepare : prepare (handler.snapshot session.state) = .ok transaction)
    (hanswer : (handler.commit session.state transaction).1 = .ok .aborted)
    (hsettle : settle .aborted = .ok ()) :
    handler.run (commitPlan prepare settle) session =
      (.ok (), handler.submit session transaction) := by
  rw [handler.run_commitPlan, hprepare]
  simp only [hanswer]
  exact congrArg (·, handler.submit session transaction) hsettle

end Chains

/-! ## A storage that aborts -/

/-- A storage that answers every commit with `Aborted`. -/
def abortingStorage [DnsName] : Storage Entries where
  snapshot := fun entries => ⟨.ofGeneration 0, entries⟩
  commit := fun entries _ => (.ok .aborted, entries)
  committed := nofun
  refused := fun _ _ _ _ _ => rfl

theorem exists_schemaKey : ∃ key, @schemaKey .hostNames = .ok key :=
  Result.exists_of_isSome_toOption (by decide)

def firstVersion : SchemaName := ⟨Bytes.utf8 "v1", by decide⟩
def secondVersion : SchemaName := ⟨Bytes.utf8 "v2", by decide⟩

/-- An edge from the first version that moves no data. -/
def sampleEdge [DnsName] (target : SchemaName) : MigrationEdge where
  fromVersion := firstVersion
  toVersion := target
  tag := ⟨Bytes.utf8 "edge", by decide⟩
  digest := ⟨List.replicate 32 1, rfl⟩
  transform := some fun _ => .ok []

/-- A chain with one edge. -/
def sampleRegistry [DnsName] : MigrationRegistry where
  base := firstVersion
  edges := [sampleEdge secondVersion]
  accepted := by rfl

/-- The run reports the edge as migrated and leaves the store without a schema record. -/
theorem aborted_migration_succeeds :
    letI := DnsName.hostNames
    (abortingStorage.ensureSchema sampleRegistry SortedMap.empty).1 = .ok (.migrated 1) ∧
      ¬ AtTarget sampleRegistry
        (abortingStorage.content (abortingStorage.ensureSchema sampleRegistry SortedMap.empty).2) := by
  let _ := DnsName.hostNames
  obtain ⟨key, hkey⟩ := exists_schemaKey
  let session : StorageSession Entries := ⟨SortedMap.empty, []⟩
  have hread : readSchema (abortingStorage.snapshot session.state).entries = .ok none := by
    simp only [readSchema, hkey, Result.ok_bind]
    rfl
  obtain ⟨stamp, hstamp⟩ := exists_prepareStamp sampleRegistry hkey
    (abortingStorage.snapshot session.state)
  have hstamped : abortingStorage.run sampleRegistry.stampBase session =
      (.ok (), abortingStorage.submit session stamp) :=
    run_commitPlan_aborted hstamp rfl rfl
  obtain ⟨transaction, htransaction⟩ := exists_prepare hkey
    (show (sampleEdge secondVersion).transform = _ from rfl)
    (abortingStorage.snapshot session.state)
  have hmigrated : abortingStorage.run (sampleEdge secondVersion).migrate
      (abortingStorage.submit session stamp) =
      (.ok (), abortingStorage.submit (abortingStorage.submit session stamp) transaction) :=
    run_commitPlan_aborted htransaction rfl rfl
  have hrun := ensureSchema_started hread (run_start_none hstamped)
  rw [List.drop_zero, show sampleRegistry.edges = [sampleEdge secondVersion] from rfl, migrateEdges,
    abortingStorage.run_bind_ok hmigrated, migrateEdges, abortingStorage.run_pure] at hrun
  unfold StorageHandler.ensureSchema
  rw [hrun]
  refine ⟨rfl, ?_⟩
  intro ⟨record, hfound, _, _⟩
  cases hread.symm.trans hfound

end Radiata
