import Radiata.Native.Redb
import Radiata.Spec.ApplyCorrect
import Radiata.Spec.StoreSession

/-!
# The redb adapter is the reference store

The tables of the adapter are an encoding of a reference state. The composite key
`namespace ++ 0x00 ++ key` keeps the order of the pairs because no namespace contains
the byte zero, so one ordered range of the table is one ordered range of a namespace
and the keys with a prefix are a front part of it.

## Key results

- `compositeKey_strictMono`: the composite key keeps the order of the entries
- `commitBlocking_spec`: a commit on encoded tables is a commit of the reference store
- `RedbSnapshot.drain_scan`: a scan of encoded tables is a scan of the entries
- `redb_simulates_reference`
-/

namespace Radiata

/-- No hostname that the grammar accepts contains the byte zero. -/
def NulFreeHosts [DnsName] : Prop := ∀ host, DnsName.parses host = true → (0 : UInt8) ∉ host

theorem zero_notMem_component {component : Bytes} (h : validNameComponent component = true) :
    (0 : UInt8) ∉ component := by
  simp only [validNameComponent] at h
  split at h
  · cases h
  · simp only [Bool.and_eq_true, List.all_eq_true] at h
    intro hmem
    exact absurd (h.2 0 hmem) (by decide)

section Keys

variable [DnsName]

theorem QualifiedTag.zero_notMem_asStr (hdns : NulFreeHosts) (tag : QualifiedTag) :
    (0 : UInt8) ∉ tag.asStr := by
  obtain ⟨host, category, name, hvalue, -, -, -, -, hhost, hcategory, hname⟩ := tag.value_eq
  intro hmem
  rw [asStr, hvalue, List.mem_append, List.mem_cons, List.mem_append, List.mem_cons] at hmem
  rcases hmem with hmem | hmem | hmem | hmem | hmem
  · obtain ⟨b, hb, hzero⟩ := List.mem_map.mp hmem
    exact hdns host hhost (eq_of_toAsciiLowercase_eq (by decide) hzero ▸ hb)
  · exact absurd hmem (by decide)
  · exact zero_notMem_component hcategory hmem
  · exact absurd hmem (by decide)
  · exact zero_notMem_component hname hmem

/-- The composite key of an entry. -/
def EntryKey.composite (k : EntryKey) : Bytes := compositeKey k.namespaceTag k.key

theorem compositeKey_strictMono (hdns : NulFreeHosts) : StrictMono EntryKey.composite := by
  intro a b hlt
  rcases EntryKey.lt_iff.mp hlt with hns | ⟨hns, hkey⟩
  · exact Bytes.append_zero_lt (b.namespaceTag.zero_notMem_asStr hdns) hns _ _
  · have hkeys : (0 : UInt8) :: a.key.asBytes < 0 :: b.key.asBytes :=
      List.cons_lt_cons_iff.mpr (.inr ⟨rfl, hkey⟩)
    rw [EntryKey.composite, EntryKey.composite, compositeKey, compositeKey, hns]
    exact List.append_left_lt hkeys

/-- A composite key starts with a composite prefix exactly when the namespaces are the
    same and the key starts with the prefix. -/
theorem compositePrefix_isPrefix_iff (hdns : NulFreeHosts) {namespaceTag : StoreNamespace}
    {keyPrefix : Bytes} {k : EntryKey} :
    compositePrefix namespaceTag keyPrefix <+: k.composite ↔
      k.namespaceTag = namespaceTag ∧ keyPrefix <+: k.key.asBytes := by
  constructor
  · rintro ⟨rest, hrest⟩
    rw [compositePrefix, List.append_assoc, List.cons_append] at hrest
    obtain ⟨hns, hkey⟩ := Bytes.append_cons_inj_of_notMem (namespaceTag.zero_notMem_asStr hdns)
      (k.namespaceTag.zero_notMem_asStr hdns) hrest
    exact ⟨(QualifiedTag.ext_asStr hns).symm, ⟨rest, hkey⟩⟩
  · rintro ⟨rfl, rest, hkey⟩
    refine ⟨rest, ?_⟩
    rw [compositePrefix, List.append_assoc, List.cons_append, hkey]
    rfl

end Keys

/-! ## Encoded tables -/

/-- The value of a receipt in the receipts table. -/
def CommitReceipt.encode (receipt : CommitReceipt) : Bytes :=
  receipt.operationDigest.asBytes ++ receipt.committedRevision.asBytes

theorem TransactionId.asStr_strictMono :
    StrictMono (CanonicalId.asStr : TransactionId → Bytes) := fun _ _ h => h

/-- A receipt of the table is read back. -/
theorem decodeReceipt_encode {id : TransactionId} {receipt : CommitReceipt}
    (hid : receipt.transaction = id)
    (hrevision : ∃ generation, receipt.committedRevision = .ofGeneration generation) :
    decodeReceipt id (some receipt.encode) = .ok (some receipt) := by
  obtain ⟨generation, hrevision⟩ := hrevision
  have hdigest := receipt.operationDigest.width
  have hbytes : receipt.encode = receipt.operationDigest.asBytes ++ u64ToBEBytes generation := by
    rw [CommitReceipt.encode, hrevision]
    rfl
  have hlen : receipt.encode.length = receiptValueBytes := by
    rw [hbytes, List.length_append, hdigest, length_u64ToBEBytes]
    rfl
  have htake : receipt.encode.take 32 = receipt.operationDigest.asBytes := by
    rw [hbytes, ← hdigest, List.take_left]
  have hdrop : receipt.encode.drop 32 = u64ToBEBytes generation := by
    rw [hbytes, ← hdigest, List.drop_left]
  have hread : decodeRevision (u64ToBEBytes generation) = .ok generation := by
    rw [decodeRevision, if_pos (length_u64ToBEBytes generation), u64ToBEBytes,
      Bytes.ofBE_toBE 8 _ (by simpa using generation.toNat_lt), UInt64.ofNat_toNat]
  simp only [decodeReceipt, dif_pos hlen, hdrop, hread, Result.ok_bind,
    StoreRevision.new_u64ToBEBytes, Result.pure_eq_ok, Except.ok.injEq, Option.some.injEq]
  cases receipt
  simp_all

section Encoding

variable [DnsName] (hdns : NulFreeHosts)

/-- The entries as a table. -/
def Entries.encode (entries : Entries) : SortedMap Bytes Bytes :=
  entries.map EntryKey.composite (compositeKey_strictMono hdns) StoreValue.asBytes

/-- The receipts as a table. -/
def Receipts.encode (receipts : Receipts) : SortedMap Bytes Bytes :=
  receipts.map CanonicalId.asStr TransactionId.asStr_strictMono CommitReceipt.encode

/-- The tables of a reference state. -/
def ReferenceState.encode (state : ReferenceState) : RedbTables :=
  ⟨Entries.encode hdns state.entries, Receipts.encode state.receipts,
    SortedMap.empty.insert revisionMetaKey (u64ToBEBytes state.generation)⟩

theorem Entries.encode_insert (entries : Entries) (k : EntryKey) (value : StoreValue) :
    Entries.encode hdns (entries.insert k value)
      = (Entries.encode hdns entries).insert k.composite value.asBytes :=
  entries.map_insert (compositeKey_strictMono hdns) StoreValue.asBytes k value

theorem Entries.encode_erase (entries : Entries) (k : EntryKey) :
    Entries.encode hdns (entries.erase k) = (Entries.encode hdns entries).erase k.composite :=
  entries.map_erase (compositeKey_strictMono hdns) StoreValue.asBytes k

omit [DnsName] in
theorem Receipts.encode_insert (receipts : Receipts) (id : TransactionId)
    (receipt : CommitReceipt) :
    Receipts.encode (receipts.insert id receipt)
      = (Receipts.encode receipts).insert id.asStr receipt.encode :=
  receipts.map_insert TransactionId.asStr_strictMono CommitReceipt.encode id receipt

omit [DnsName] in
theorem Receipts.encode_erase (receipts : Receipts) (id : TransactionId) :
    Receipts.encode (receipts.erase id) = (Receipts.encode receipts).erase id.asStr :=
  receipts.map_erase TransactionId.asStr_strictMono CommitReceipt.encode id

theorem Entries.get_encode (entries : Entries) (namespaceTag : StoreNamespace) (key : StoreKey) :
    ((Entries.encode hdns entries).get (compositeKey namespaceTag key)).map StoreValue.mk
      = entries.get ⟨namespaceTag, key⟩ := by
  have hget := entries.get_map (compositeKey_strictMono hdns) StoreValue.asBytes
    ⟨namespaceTag, key⟩
  rw [Entries.encode, show compositeKey namespaceTag key
    = EntryKey.composite ⟨namespaceTag, key⟩ from rfl, hget, Option.map_map]
  exact Option.map_id'

omit [DnsName] in
theorem Receipts.decode_encode {receipts : Receipts} (h : receipts.Stamped) (id : TransactionId) :
    decodeReceipt id ((Receipts.encode receipts).get id.asStr) = .ok (receipts.get id) := by
  rw [Receipts.encode, SortedMap.get_map]
  cases hget : receipts.get id with
  | none => rfl
  | some receipt =>
    obtain ⟨hid, hrevision⟩ := h id receipt hget
    exact decodeReceipt_encode hid hrevision

theorem ReferenceState.decodeGeneration_encode (state : ReferenceState) :
    decodeGeneration ((state.encode hdns).metadata.get revisionMetaKey)
      = .ok state.generation := by
  simp only [ReferenceState.encode, SortedMap.get_insert_self, decodeGeneration]
  rw [decodeRevision, if_pos (length_u64ToBEBytes _), u64ToBEBytes,
    Bytes.ofBE_toBE 8 _ (by simpa using state.generation.toNat_lt), UInt64.ofNat_toNat]

end Encoding

/-! ## Runs without faults -/

theorem RedbCall.run_attempt (call : RedbCall) (mapError : call.Err → Error)
    (database : RedbDatabase) :
    Prog.run RedbDatabase.handle (call.attempt mapError).run database
      = (.ok (call.perform database).1, (call.perform database).2) := rfl

theorem run_readReceipt (id : TransactionId) (database : RedbDatabase) :
    Prog.run RedbDatabase.handle (readReceipt id).run database
      = (decodeReceipt id (database.working.receipts.get id.asStr), database) := rfl

section Spec

variable [DnsName] (hdns : NulFreeHosts)

theorem run_readEntry (namespaceTag : StoreNamespace) (key : StoreKey) (database : RedbDatabase) :
    Prog.run RedbDatabase.handle (readEntry namespaceTag key).run database
      = (.ok ((database.working.entries.get (compositeKey namespaceTag key)).map StoreValue.mk),
        database) := rfl

variable {database : RedbDatabase} {receipts : Receipts}

variable {entries : Entries}

/-- The condition of an operation, read from encoded tables. -/
theorem run_conditionMatchesTable
    (hentries : database.working.entries = Entries.encode hdns entries)
    (hreceipts : database.working.receipts = Receipts.encode receipts)
    (hstamped : receipts.Stamped) (operation : StoreOperation) :
    Prog.run RedbDatabase.handle (conditionMatchesTable operation).run database
      = (.ok (conditionMatches entries receipts operation), database) := by
  have hread := fun namespaceTag key => Entries.get_encode hdns entries namespaceTag key
  cases operation with
  | check namespaceTag key expected | put namespaceTag key expected value =>
    simp only [conditionMatchesTable, expectationMatchesTable, Prog.run_exceptT_bind,
      run_readEntry, hentries, hread, Prog.run_exceptT_pure, conditionMatches]
  | delete namespaceTag key expected =>
    simp only [conditionMatchesTable, Prog.run_exceptT_bind,
      run_readEntry, hentries, hread, Prog.run_exceptT_pure, conditionMatches]
  | forgetReceipt forgotten expectedOperationDigest =>
    simp only [conditionMatchesTable, Prog.run_exceptT_bind, run_readReceipt, hreceipts,
      Receipts.decode_encode hstamped, Prog.run_exceptT_pure, conditionMatches]

theorem run_checkConditions (hentries : database.working.entries = Entries.encode hdns entries)
    (hreceipts : database.working.receipts = Receipts.encode receipts)
    (hstamped : receipts.Stamped) (operations : List StoreOperation) :
    Prog.run RedbDatabase.handle (checkConditions operations).run database
      = (.ok (operations.all (conditionMatches entries receipts)), database) := by
  induction operations with
  | nil => rfl
  | cons operation operations ih =>
    rw [checkConditions, Prog.run_exceptT_bind,
      run_conditionMatchesTable hdns hentries hreceipts hstamped]
    by_cases hcond : conditionMatches entries receipts operation = true
    · simp only [hcond, ↓reduceIte, ih, List.all_cons, Bool.true_and]
    · rw [Bool.not_eq_true] at hcond
      simp only [hcond, Bool.false_eq_true, ↓reduceIte, Prog.run_exceptT_pure, List.all_cons,
        Bool.false_and]

/-! ## Applying -/

/-- What the apply loop does to the receipts: it removes them whatever their digest. -/
def eraseReceipt (receipts : Receipts) : StoreOperation → Receipts
  | .forgetReceipt transaction _ => receipts.erase transaction
  | _ => receipts

/-- The conditions have been checked, so removing a receipt whatever its digest removes
    the expected one. -/
theorem foldl_eraseReceipt_eq {operations : List StoreOperation}
    (h : ∀ transaction digest, .forgetReceipt transaction digest ∈ operations →
      receipts.get transaction = none ∨
        (receipts.get transaction).any (fun receipt => receipt.operationDigest == digest) = true) :
    operations.foldl eraseReceipt receipts = operations.foldl forgetOperation receipts := by
  induction operations generalizing receipts with
  | nil => rfl
  | cons operation operations ih =>
    have htail : ∀ transaction digest, .forgetReceipt transaction digest ∈ operations →
        receipts.get transaction = none ∨
          (receipts.get transaction).any (fun receipt => receipt.operationDigest == digest)
            = true :=
      fun transaction digest hmem => h transaction digest (List.mem_cons_of_mem _ hmem)
    rw [List.foldl_cons, List.foldl_cons]
    cases operation with
    | forgetReceipt forgotten expected =>
      have hsame : forgetOperation receipts (.forgetReceipt forgotten expected)
          = receipts.erase forgotten := by
        rw [forgetOperation]
        rcases h forgotten expected (List.mem_cons_self ..) with hnone | hany
        · rw [hnone, Option.any_none, if_neg (by simp), SortedMap.erase_of_get_none _ hnone]
        · rw [if_pos hany]
      rw [hsame, eraseReceipt]
      apply ih
      -- a receipt that is still there is the one the condition was checked on
      intro transaction digest hmem
      rw [SortedMap.get_erase]
      split
      · exact .inl rfl
      · exact htail transaction digest hmem
    | check _ _ _ => exact ih htail
    | put _ _ _ _ => exact ih htail
    | delete _ _ _ => exact ih htail

/-- One operation of the apply loop on encoded tables. -/
theorem run_applyToTables {metadata : SortedMap Bytes Bytes}
    (hworking : database.working = ⟨Entries.encode hdns entries, Receipts.encode receipts, metadata⟩)
    (operation : StoreOperation) :
    Prog.run RedbDatabase.handle (applyToTables operation).run database
      = (.ok (), { database with
          working := ⟨Entries.encode hdns (applyOperation entries operation),
            Receipts.encode (eraseReceipt receipts operation), metadata⟩ }) := by
  cases operation with
  | check namespaceTag key expected =>
    show (Except.ok (), database) = (Except.ok (), RedbDatabase.mk database.committed
      ⟨Entries.encode hdns entries, Receipts.encode receipts, metadata⟩)
    rw [← hworking]
  | put namespaceTag key expected value =>
    rw [applyToTables, RedbCall.run_attempt, RedbCall.perform, hworking, applyOperation,
      Entries.encode_insert]
    rfl
  | delete namespaceTag key expected =>
    rw [applyToTables, RedbCall.run_attempt, RedbCall.perform, hworking, applyOperation,
      Entries.encode_erase]
    rfl
  | forgetReceipt forgotten expectedOperationDigest =>
    rw [applyToTables, RedbCall.run_attempt, RedbCall.perform, hworking, eraseReceipt,
      Receipts.encode_erase]
    rfl

/-- The apply loop on encoded tables. -/
theorem run_applyAllToTables {metadata : SortedMap Bytes Bytes}
    (hworking : database.working = ⟨Entries.encode hdns entries, Receipts.encode receipts, metadata⟩)
    (operations : List StoreOperation) :
    Prog.run RedbDatabase.handle (applyAllToTables operations).run database
      = (.ok (), { database with
          working := ⟨Entries.encode hdns (operations.foldl applyOperation entries),
            Receipts.encode (operations.foldl eraseReceipt receipts), metadata⟩ }) := by
  induction operations generalizing database entries receipts with
  | nil =>
    rw [List.foldl_nil, List.foldl_nil, ← hworking]
    rfl
  | cons operation operations ih =>
    rw [applyAllToTables, Prog.run_exceptT_bind, run_applyToTables hdns hworking]
    exact ih rfl

variable {state : ReferenceState}

/-- The staging of an accepted transaction on encoded tables. -/
theorem run_stageOperations {transaction : StoreTransaction}
    (hworking : database.working = state.encode hdns)
    (haccepted : transaction.operations.all (conditionMatches state.entries state.receipts) = true)
    {next : UInt64} (hnext : checkedAdd state.generation 1 = some next) :
    Prog.run RedbDatabase.handle (stageOperations transaction state.generation).run database
      = (.ok (ReferenceState.receiptAt transaction next),
        { database with working := (state.apply transaction next).encode hdns }) := by
  have hforget : transaction.operations.foldl eraseReceipt state.receipts
      = transaction.operations.foldl forgetOperation state.receipts := by
    apply foldl_eraseReceipt_eq
    intro forgotten digest hmem
    exact .inr (List.all_eq_true.mp haccepted _ hmem)
  rw [stageOperations, hnext]
  show Prog.run RedbDatabase.handle (applyAllToTables transaction.operations >>= _).run database = _
  rw [Prog.run_exceptT_bind, run_applyAllToTables hdns hworking, hforget]
  -- the remaining calls write the counter and the receipt
  show (Except.ok (ReferenceState.receiptAt transaction next), RedbDatabase.mk database.committed
    ⟨Entries.encode hdns (state.apply transaction next).entries,
      (Receipts.encode (transaction.operations.foldl forgetOperation state.receipts)).insert
        transaction.id.asStr (ReferenceState.receiptAt transaction next).encode,
      (SortedMap.empty.insert revisionMetaKey (u64ToBEBytes state.generation)).insert
        revisionMetaKey (u64ToBEBytes next)⟩) = _
  rw [← Receipts.encode_insert, SortedMap.insert_insert]
  rfl

/-- A transaction without a receipt on encoded tables: it is settled as a conflict, fails
    on the last generation, or is staged. -/
theorem run_stageFresh (hworking : database.working = state.encode hdns)
    (hstamped : state.receipts.Stamped) (transaction : StoreTransaction) :
    Prog.run RedbDatabase.handle (stageFresh transaction).run database
      = if state.accepts transaction then
          match checkedAdd state.generation 1 with
          | none => (.error (.provider .resourceExhausted .storageCommit), database)
          | some next => (.ok (.receipt (ReferenceState.receiptAt transaction next)),
              { database with working := (state.apply transaction next).encode hdns })
        else (.ok (.settled .conflict), database) := by
  have hgeneration : Prog.run RedbDatabase.handle (currentGeneration .storageCommit).run database
      = (.ok state.generation, database) := by
    show (decodeGeneration (database.working.metadata.get revisionMetaKey), database) = _
    rw [hworking, ReferenceState.decodeGeneration_encode]
  have hconditions := run_checkConditions hdns (congrArg RedbTables.entries hworking)
    (congrArg RedbTables.receipts hworking) hstamped transaction.operations
  have hbase : transaction.baseRevision.asBytes = u64ToBEBytes state.generation ↔
      transaction.baseRevision = .ofGeneration state.generation :=
    ⟨fun h => StoreRevision.ext_asBytes h, fun h => by rw [h]; rfl⟩
  unfold stageFresh
  by_cases hdigest : transaction.operationDigest = transaction.computedOperationDigest
  · rw [if_neg (not_not.mpr hdigest), Prog.run_exceptT_bind, hgeneration]
    by_cases hrevision : transaction.baseRevision = .ofGeneration state.generation
    · simp only [if_neg (not_not.mpr (hbase.mpr hrevision)), Prog.run_exceptT_bind, hconditions]
      by_cases haccepted :
          transaction.operations.all (conditionMatches state.entries state.receipts) = true
      · have haccepts : state.accepts transaction = true := by
          simp [ReferenceState.accepts, hdigest, hrevision, haccepted]
        simp only [haccepted, ↓reduceIte, haccepts, Prog.run_exceptT_bind]
        cases hnext : checkedAdd state.generation 1 with
        | none =>
          rw [stageOperations, hnext]
          rfl
        | some next =>
          rw [run_stageOperations hdns hworking haccepted hnext]
          rfl
      · have haccepts : state.accepts transaction = false := by
          simp [ReferenceState.accepts, haccepted]
        simp only [haccepted, haccepts, Bool.false_eq_true, ↓reduceIte]
        rfl
    · have haccepts : state.accepts transaction = false := by
        simp [ReferenceState.accepts, hrevision]
      simp only [if_pos (mt hbase.mp hrevision), haccepts, Bool.false_eq_true, ↓reduceIte]
      rfl
  · have haccepts : state.accepts transaction = false := by
      simp [ReferenceState.accepts, hdigest]
    rw [if_pos hdigest, haccepts]
    rfl

/-- A commit on the encoded tables of a reference state is its commit. -/
theorem commitBlocking_spec (hcommitted : database.committed = state.encode hdns)
    (hstamped : state.receipts.Stamped) (transaction : StoreTransaction) :
    (Prog.run RedbDatabase.handle (commitBlocking transaction).run database).1
        = (state.commit transaction).1 ∧
      (Prog.run RedbDatabase.handle (commitBlocking transaction).run database).2.committed
        = (state.commit transaction).2.encode hdns := by
  -- the write transaction begins on a copy of the published tables
  obtain ⟨settle, hstage, hsettled, hfresh⟩ : ∃ settle : Option CommitReceipt → RedbM Staged,
      Prog.run RedbDatabase.handle (stage transaction).run database
        = Prog.run RedbDatabase.handle (readReceipt transaction.id >>= settle).run
          { database with working := database.committed } ∧
      (∀ existing, settle (some existing) = pure (.settled
        (if existing.operationDigest = transaction.operationDigest then .committed existing
        else .conflict))) ∧
      settle none = stageFresh transaction := ⟨_, rfl, fun _ => rfl, rfl⟩
  have hread : Prog.run RedbDatabase.handle (readReceipt transaction.id).run
      { database with working := database.committed }
        = (.ok (state.receipts.get transaction.id),
          { database with working := database.committed }) := by
    rw [run_readReceipt, hcommitted, ReferenceState.encode, Receipts.decode_encode hstamped]
  rw [commitBlocking, Prog.run_exceptT_bind, hstage, Prog.run_exceptT_bind, hread]
  cases hreceipt : state.receipts.get transaction.id with
  | some existing =>
    dsimp only
    rw [hsettled]
    simp only [ReferenceState.commit, hreceipt, Prog.run_exceptT_pure]
    by_cases hdigest : existing.operationDigest = transaction.operationDigest
    · simp [hdigest, hcommitted]
    · simp [hdigest, hcommitted]
  | none =>
    dsimp only
    rw [hfresh, run_stageFresh hdns hcommitted hstamped, ReferenceState.commit_of_none hreceipt]
    by_cases haccepts : state.accepts transaction = true
    · rw [if_pos haccepts, if_pos haccepts]
      cases hnext : checkedAdd state.generation 1 with
      | none => exact ⟨rfl, hcommitted⟩
      | some next => exact ⟨rfl, rfl⟩
    · rw [if_neg haccepts, if_neg haccepts]
      exact ⟨rfl, hcommitted⟩

end Spec

/-! ## Scans -/

/-- The rows of the range that a scan yields are all rows with its prefix. -/
theorem takeWhile_entriesFrom (table : SortedMap Bytes Bytes) (bound : Bytes) :
    (table.entriesFrom bound).takeWhile (fun row => bound <+: row.1)
      = table.toList.filter (fun row => bound <+: row.1) := by
  have hinterval : (table.entriesFrom bound).Pairwise (fun a b =>
      decide (bound <+: b.1) = true → decide (bound <+: a.1) = true) := by
    refine (table.sorted.filter _).imp_of_mem ?_
    intro a b ha _ hlt hb
    have hbound : bound ≤ a.1 := by simpa using (List.mem_filter.mp ha).2
    exact decide_eq_true (Bytes.isPrefix_of_le hbound (le_of_lt hlt) (of_decide_eq_true hb))
  rw [List.takeWhile_eq_filter hinterval, SortedMap.entriesFrom, List.filter_filter]
  apply List.filter_congr
  intro row _
  by_cases hrow : bound <+: row.1
  · simp [hrow, Bytes.le_of_isPrefix hrow]
  · simp [hrow]

section Scan

variable [DnsName] (hdns : NulFreeHosts)

/-- The entry `RedbScan::next` makes of a row. -/
def RedbScan.entry (scan : RedbScan) (row : Bytes × Bytes) : StoreEntry :=
  ⟨scan.namespaceTag, ⟨row.1.drop scan.baseLen⟩, ⟨row.2⟩⟩

/-- A scan yields the rows up to the first one without the prefix. -/
theorem RedbScan.drain_eq (scan : RedbScan) {fuel : Nat} (hfuel : scan.range.length ≤ fuel) :
    drain RedbScan.next fuel scan
      = (scan.range.takeWhile (fun row => scan.bound <+: row.1)).map scan.entry := by
  obtain ⟨range, namespaceTag, bound, baseLen⟩ := scan
  induction range generalizing fuel with
  | nil => cases fuel <;> rfl
  | cons row range ih =>
    cases fuel with
    | zero => exact absurd hfuel (by simp)
    | succ fuel =>
      have hlength : range.length ≤ fuel := by simpa using hfuel
      have hrest := ih hlength
      by_cases hrow : bound <+: row.1
      · have hnext : RedbScan.next ⟨row :: range, namespaceTag, bound, baseLen⟩
            = (some ⟨namespaceTag, ⟨row.1.drop baseLen⟩, ⟨row.2⟩⟩,
              ⟨range, namespaceTag, bound, baseLen⟩) := by
          simp [RedbScan.next, hrow]
        rw [drain, hnext, List.takeWhile_cons_of_pos (by simpa using hrow)]
        exact congrArg _ hrest
      · have hnext : RedbScan.next ⟨row :: range, namespaceTag, bound, baseLen⟩
            = (none, ⟨range, namespaceTag, bound, baseLen⟩) := by
          simp [RedbScan.next, hrow]
        rw [drain, hnext, List.takeWhile_cons_of_neg (by simpa using hrow)]
        rfl

/-- A scan of encoded tables is a scan of the entries. -/
theorem RedbSnapshot.drain_scan {snapshot : RedbSnapshot} {reference : StoreSnapshot}
    (hentries : snapshot.tables.entries = Entries.encode hdns reference.entries)
    (namespaceTag : StoreNamespace) (keyPrefix : Bytes) :
    drain RedbScan.next (snapshot.scan namespaceTag keyPrefix).range.length
        (snapshot.scan namespaceTag keyPrefix)
      = reference.scan namespaceTag keyPrefix := by
  rw [RedbScan.drain_eq _ le_rfl]
  show ((snapshot.tables.entries.entriesFrom (compositePrefix namespaceTag keyPrefix)).takeWhile
    (fun row => compositePrefix namespaceTag keyPrefix <+: row.1)).map _ = _
  rw [takeWhile_entriesFrom, hentries]
  show ((reference.entries.toList.map (fun e => (e.1.composite, e.2.asBytes))).filter _).map _ = _
  rw [List.filter_map, List.map_map, StoreSnapshot.scan, ← List.filterMap_eq_map,
    List.filterMap_filter]
  apply List.filterMap_congr
  intro e _
  simp only [Function.comp_apply, compositePrefix_isPrefix_iff hdns, decide_eq_true_eq]
  split
  · rename_i hselected
    rw [RedbScan.entry, ← hselected.1]
    simp [RedbSnapshot.scan, EntryKey.composite, compositeKey, hselected.1]
  · rfl

end Scan

/-! ## The adapter -/

section Adapter

variable [DnsName]

/-- The redb adapter, without faults. -/
def redbAdapter : Adapter where
  State := RedbDatabase
  Snapshot := RedbSnapshot
  commit := fun database transaction =>
    Prog.run RedbDatabase.handle (commitBlocking transaction).run database
  reconcile := RedbDatabase.reconcile
  snapshot := RedbDatabase.snapshot
  revision := RedbSnapshot.revision
  get := RedbSnapshot.get
  scan := fun snapshot namespaceTag keyPrefix =>
    drain RedbScan.next (snapshot.scan namespaceTag keyPrefix).range.length
      (snapshot.scan namespaceTag keyPrefix)

/-- The published tables encode the reference state. -/
def RedbDatabase.Encodes (hdns : NulFreeHosts) (database : RedbDatabase) (state : ReferenceState) :
    Prop :=
  database.committed = state.encode hdns ∧ state.receipts.Stamped

variable {hdns : NulFreeHosts} {database : RedbDatabase} {state : ReferenceState}

theorem RedbDatabase.Encodes.reconcile (h : database.Encodes hdns state)
    (transaction : TransactionId) (digest : Digest) :
    database.reconcile transaction digest = .ok (state.reconcile transaction digest) := by
  rw [RedbDatabase.reconcile, h.1, ReferenceState.encode, Receipts.decode_encode h.2,
    Result.ok_bind, ReferenceState.reconcile]
  cases state.receipts.get transaction <;> rfl

theorem RedbDatabase.Encodes.snapshot (h : database.Encodes hdns state) :
    database.snapshot = .ok ⟨database.committed, .ofGeneration state.generation⟩ := by
  rw [RedbDatabase.snapshot, h.1, ReferenceState.decodeGeneration_encode, Result.ok_bind,
    StoreRevision.new_u64ToBEBytes]
  rfl

theorem RedbDatabase.Encodes.snapshotsAgree (h : database.Encodes hdns state) :
    Adapter.SnapshotsAgree redbAdapter referenceAdapter
      ⟨database.committed, .ofGeneration state.generation⟩ state.snapshot := by
  have hentries : database.committed.entries = Entries.encode hdns state.snapshot.entries :=
    congrArg RedbTables.entries h.1
  refine ⟨rfl, ?_, ?_⟩
  · intro namespaceTag key
    show (database.committed.entries.get (compositeKey namespaceTag key)).map StoreValue.mk
      = state.snapshot.entries.get ⟨namespaceTag, key⟩
    rw [hentries, Entries.get_encode]
  · intro namespaceTag keyPrefix
    exact RedbSnapshot.drain_scan hdns hentries namespaceTag keyPrefix

theorem redb_simulates_reference (hdns : NulFreeHosts) :
    Adapter.Simulation redbAdapter referenceAdapter (fun _ => True)
      (RedbDatabase.Encodes hdns) where
  commit := by
    intro database state transaction h _
    obtain ⟨hanswer, hnext⟩ := commitBlocking_spec hdns h.1 h.2 transaction
    exact ⟨hanswer, hnext, ReferenceState.commit_stamped h.2 transaction⟩
  reconcile := fun transaction digest h => h.reconcile transaction digest
  snapshot := fun h => ⟨_, _, h.snapshot, rfl, h.snapshotsAgree⟩

/-- A new database encodes a new store. -/
theorem RedbDatabase.encodes_fresh (hdns : NulFreeHosts) :
    RedbDatabase.Encodes hdns ⟨.fresh, .fresh⟩ (.fresh 0) :=
  ⟨rfl, fun _ _ h => by cases h⟩

end Adapter

end Radiata
