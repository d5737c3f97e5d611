import Radiata.Spec.MigrationCorrect

/-!
# Interrupted migrations

A process may be stopped anywhere in `ensure_schema`; a commit under way is applied completely or
not at all. On the reference store a new run then ends where the uninterrupted run would have
ended, and the run after that commits nothing, provided that the names of the versions fit into
their records. A record with a longer name is written, but it does not read back.

## Key results

- `StorageHandler.stops_migrateEdges`: a stopped loop has some edges behind it
- `commitPlan_reference`: the reference store applies a transaction with a new id or stays
- `resumed_migration_iff`: when interrupted migrations resume to the same result
-/

namespace Radiata

theorem map_ofEdges_eq_error {result : Result Nat} {error : Error} :
    result.map SchemaOutcome.ofEdges = .error error ↔ result = .error error := by
  cases result <;> simp [Except.map]

section Resume

variable [DnsName]

/-! ## Stopped processes -/

namespace StorageHandler

variable {σ : Type} (handler : StorageHandler σ)

/-- A call that is interrupted has been served or it has not. -/
def within (call : StorageCall) (before after : StorageSession σ) : Prop :=
  after = before ∨ after = (handler.serve call before).2

/-- The process may be stopped here while it executes the program. -/
def Stops {α : Type} (program : StorageM α) (session stop : StorageSession σ) : Prop :=
  Prog.Cut handler.serve handler.within (ExceptT.run program) session stop

/-- A process that is not stopped ends. -/
theorem stops_end {α : Type} (program : StorageM α) (session : StorageSession σ) :
    handler.Stops program session (handler.run program session).2 := Prog.cut_run _ _

variable {handler} {session after stop : StorageSession σ}

theorem stops_pure {α : Type} {value : α} (h : handler.Stops (pure value) session stop) :
    stop = session := Prog.cut_pure h

theorem stops_lift {α : Type} {result : Result α}
    (h : handler.Stops (StorageM.lift result) session stop) : stop = session := Prog.cut_pure h

theorem stops_takeSnapshot (h : handler.Stops StorageM.takeSnapshot session stop) :
    stop = session := by
  rcases Prog.cut_bind h with hcall | hdone
  · rcases Prog.cut_perform hcall with rfl | (rfl | rfl) | rfl <;> rfl
  · exact Prog.cut_pure hdone

theorem stops_commit {transaction : StoreTransaction}
    (h : handler.Stops (StorageM.commit transaction) session stop) :
    stop = session ∨ stop = handler.submit session transaction := by
  rcases Prog.cut_perform h with rfl | (rfl | rfl) | rfl
  · exact Or.inl rfl
  · exact Or.inl rfl
  · exact Or.inr rfl
  · exact Or.inr rfl

/-- A process stopped inside a sequence is stopped in the first part, or in the second after the
    first has succeeded. -/
theorem stops_bind {α β : Type} {program : StorageM α} {next : α → StorageM β}
    (h : handler.Stops (program >>= next) session stop) :
    handler.Stops program session stop ∨ ∃ value after,
      handler.run program session = (.ok value, after) ∧ handler.Stops (next value) after stop := by
  rcases Prog.cut_bind h with hfirst | hsecond
  · exact Or.inl hfirst
  · cases hrun : handler.run program session with
    | mk result after =>
      have hend := handler.stops_end program session
      have hsteps : Prog.run handler.serve program session = (result, after) := hrun
      rw [hsteps] at hsecond
      rw [hrun] at hend
      cases result with
      | ok value => exact Or.inr ⟨value, after, rfl, hsecond⟩
      | error error =>
        rw [Prog.cut_pure hsecond]
        exact Or.inl hend

theorem Stops.bind_left {α β : Type} {program : StorageM α} (next : α → StorageM β)
    (h : handler.Stops program session stop) : handler.Stops (program >>= next) session stop :=
  Prog.Cut.bind_left _ h

theorem Stops.bind_right {α β : Type} {program : StorageM α} {next : α → StorageM β} {value : α}
    (hrun : handler.run program session = (.ok value, after))
    (h : handler.Stops (next value) after stop) :
    handler.Stops (program >>= next) session stop := by
  have hsteps : Prog.run handler.serve program session = (.ok value, after) := hrun
  refine Prog.Cut.bind_right ?_
  rw [hsteps]
  exact h

/-- A process is stopped before or after the one transaction of the plan. -/
theorem stops_commitPlan {prepare : StoreSnapshot → Result StoreTransaction}
    {settle : CommitOutcome → Result Unit}
    (h : handler.Stops (commitPlan prepare settle) session stop) :
    stop = session ∨ stop = (handler.run (commitPlan prepare settle) session).2 := by
  rw [run_commitPlan]
  rcases stops_bind h with hsnapshot | ⟨snapshot, after, hsnapshot, h⟩
  · exact Or.inl (stops_takeSnapshot hsnapshot)
  rw [run_takeSnapshot] at hsnapshot
  cases hsnapshot
  rcases stops_bind h with hlift | ⟨transaction, after, hlift, h⟩
  · exact Or.inl (stops_lift hlift)
  rw [run_lift] at hlift
  obtain ⟨hprepare, rfl⟩ := Prod.mk.inj hlift
  rw [hprepare]
  rcases stops_bind h with hcommit | ⟨outcome, after, hcommit, h⟩
  · exact stops_commit hcommit
  · rw [run_commit] at hcommit
    obtain ⟨-, rfl⟩ := Prod.mk.inj hcommit
    exact Or.inr (stops_lift h)

/-- A run depends on the state of the storage alone. -/
theorem run_state {α : Type} (program : StorageM α) {session session' : StorageSession σ}
    (h : session.state = session'.state) :
    (handler.run program session).1 = (handler.run program session').1 ∧
      (handler.run program session).2.state = (handler.run program session').2.state := by
  unfold run
  generalize ExceptT.run program = steps
  induction steps generalizing session session' with
  | done value => exact ⟨rfl, h⟩
  | call request resume ih =>
    simp only [Prog.run]
    cases request with
    | snapshot =>
      simp only [serve, h]
      exact ih _ h
    | commit transaction =>
      simp only [serve, submit, h]
      exact ih _ rfl

end StorageHandler

/-! ## The reference store -/

open ReferenceState (handler)

/-- The reference store never answers `Aborted`. -/
theorem commit_ne_aborted (state : ReferenceState) (transaction : StoreTransaction) :
    (state.commit transaction).1 ≠ .ok .aborted := by
  unfold ReferenceState.commit
  split
  · split <;> nofun
  · split
    · nofun
    split
    · nofun
    split
    · nofun
    split <;> nofun

variable {session : StorageSession ReferenceState}

variable {id : TransactionId}

/-- A transaction with a new id either fails and changes nothing, or it is applied. -/
theorem commitPlan_reference {prepare : StoreSnapshot → Result StoreTransaction}
    {settle : CommitOutcome → Result Unit} {record : SchemaRecord}
    (hsettle : ∀ outcome, settle outcome = .ok () →
      outcome = .aborted ∨ ∃ receipt, outcome = .committed receipt)
    (hcommitted : ∀ receipt, settle (.committed receipt) = .ok ())
    (hprepare : ∀ snapshot transaction, prepare snapshot = .ok transaction →
      WritesRecord record transaction ∧ transaction.id = id)
    (hunused : session.state.receipts.get id = none) :
    ((∃ error, (handler.run (commitPlan prepare settle) session).1 = .error error) ∧
      (handler.run (commitPlan prepare settle) session).2.state = session.state) ∨
    (handler.run (commitPlan prepare settle) session).1 = .ok () ∧
      readSchema (handler.run (commitPlan prepare settle) session).2.state.entries =
        (decodeSchemaRecord record.encode).map some ∧
      ∀ other, other ≠ id → session.state.receipts.get other = none →
        (handler.run (commitPlan prepare settle) session).2.state.receipts.get other = none := by
  rw [handler.run_commitPlan]
  cases hplan : prepare (handler.snapshot session.state) with
  | error error => exact Or.inl ⟨⟨error, rfl⟩, rfl⟩
  | ok transaction =>
    obtain ⟨hwrites, rfl⟩ := hprepare _ _ hplan
    show ((∃ error, ((session.state.commit transaction).1 >>= settle) = .error error) ∧
        (session.state.commit transaction).2 = session.state) ∨
      ((session.state.commit transaction).1 >>= settle) = .ok () ∧
        readSchema (session.state.commit transaction).2.entries =
          (decodeSchemaRecord record.encode).map some ∧
        ∀ other, other ≠ transaction.id → session.state.receipts.get other = none →
          (session.state.commit transaction).2.receipts.get other = none
    rcases session.state.commit_cases transaction with
      ⟨hsame, hfails⟩ | ⟨-, generation, -, hcommit⟩
    · refine Or.inl ⟨?_, hsame⟩
      cases hanswer : (session.state.commit transaction).1 >>= settle with
      | error error => exact ⟨error, rfl⟩
      | ok done =>
        obtain ⟨outcome, houtcome, hsettled⟩ := Result.bind_eq_ok.mp hanswer
        rcases hsettle outcome hsettled with rfl | ⟨receipt, rfl⟩
        · exact absurd houtcome (commit_ne_aborted _ _)
        · exact absurd houtcome (hfails hunused receipt)
    · refine Or.inr ⟨?_, ?_, fun other hne => ReferenceState.receipts_commit_of_ne hne⟩
      · rw [hcommit]
        exact hcommitted _
      · rw [hcommit]
        exact hwrites.readSchema _

variable {transaction : StoreTransaction}

theorem MigrationRegistry.prepareStamp_id {registry : MigrationRegistry}
    (hid : migrationTransactionId [registry.base.asStr] = .ok id) {snapshot : StoreSnapshot}
    (h : registry.prepareStamp snapshot = .ok transaction) :
    transaction.id = id := by
  obtain ⟨operation, -, h⟩ := Result.bind_eq_ok.mp h
  obtain ⟨id', hid', h⟩ := Result.bind_eq_ok.mp h
  obtain ⟨-, -, rfl⟩ := StoreTransaction.new_eq_ok.mp h
  exact Except.ok.inj (hid'.symm.trans hid)

theorem MigrationEdge.prepare_id {edge : MigrationEdge} (hid : edge.transactionId = .ok id)
    {snapshot : StoreSnapshot} (h : edge.prepare snapshot = .ok transaction) :
    transaction.id = id := by
  obtain ⟨id', hid', h⟩ := Result.bind_eq_ok.mp h
  obtain ⟨transform, -, h⟩ := Result.bind_eq_ok.mp h
  obtain ⟨operations, -, h⟩ := Result.bind_eq_ok.mp h
  obtain ⟨operation, -, h⟩ := Result.bind_eq_ok.mp h
  obtain ⟨-, -, rfl⟩ := StoreTransaction.new_eq_ok.mp h
  exact Except.ok.inj (hid'.symm.trans hid)

/-- The ids of the edges are distinct and new to the store. -/
structure UnusedIds (edges : List MigrationEdge) (state : ReferenceState) : Prop where
  distinct : (edges.map MigrationEdge.transactionId).Nodup
  unused : ∀ edge ∈ edges, ∀ id, edge.transactionId = .ok id → state.receipts.get id = none

/-- The loop on the reference store: an edge fails and leaves the store as it is, or it is applied
    and the ids of the other edges are still new. -/
theorem migrate_reference {edge : MigrationEdge} {rest : List MigrationEdge}
    (h : UnusedIds (edge :: rest) session.state) :
    (∃ error, (handler.run edge.migrate session).1 = .error error) ∧
        (handler.run edge.migrate session).2.state = session.state ∨
      (handler.run edge.migrate session).1 = .ok () ∧
        readSchema (handler.run edge.migrate session).2.state.entries =
          (decodeSchemaRecord edge.record.encode).map some ∧
        UnusedIds rest (handler.run edge.migrate session).2.state := by
  obtain ⟨id, hid⟩ := exists_migrationTransactionId [edge.tag.asStr, edge.digest.asBytes]
  have hedge : edge.transactionId = .ok id := hid
  have hdistinct := h.distinct
  rw [List.map_cons, List.nodup_cons] at hdistinct
  rcases commitPlan_reference (fun _ => edgeOutcome_eq_ok) (fun _ => rfl)
      (fun _ _ hplan => ⟨MigrationEdge.prepare_writes hplan, MigrationEdge.prepare_id hedge hplan⟩)
      (h.unused edge (List.mem_cons_self ..) id hedge) with hfails | ⟨hok, hread, hreceipts⟩
  · exact Or.inl hfails
  · refine Or.inr ⟨hok, hread, hdistinct.2, fun other hother otherId hotherId => ?_⟩
    refine hreceipts otherId ?_ (h.unused other (List.mem_cons_of_mem _ hother) otherId hotherId)
    rintro rfl
    exact hdistinct.1 (List.mem_map.mpr ⟨other, hother, hotherId.trans hedge.symm⟩)

/-- Some edges are applied to a store, one after the other. -/
structure AppliedEdges (done : List MigrationEdge) (migrated : Nat)
    (session reached : StorageSession ReferenceState) : Prop where
  run : handler.run (migrateEdges done migrated) session =
    (.ok (migrated + done.length), reached)
  record : ∀ last ∈ done.getLast?,
    readSchema reached.state.entries = (decodeSchemaRecord last.record.encode).map some

/-- A first edge and the edges after it. -/
theorem AppliedEdges.cons {edge : MigrationEdge} {done : List MigrationEdge} {migrated : Nat}
    {session after reached : StorageSession ReferenceState}
    (hrun : handler.run edge.migrate session = (.ok (), after))
    (hread : readSchema after.state.entries = (decodeSchemaRecord edge.record.encode).map some)
    (h : AppliedEdges done (migrated + 1) after reached) :
    AppliedEdges (edge :: done) migrated session reached where
  run := by
    rw [migrateEdges, handler.run_bind_ok hrun, h.run, List.length_cons]
    congr 2
    omega
  record := by
    intro last hlast
    cases done with
    | nil =>
      obtain rfl : edge = last := by simpa using hlast
      have hsame := h.run
      rw [migrateEdges, handler.run_pure] at hsame
      obtain ⟨-, rfl⟩ := Prod.mk.inj hsame
      exact hread
    | cons next done => exact h.record last hlast

/-- The loop goes on after some edges. -/
theorem AppliedEdges.run_append {done : List MigrationEdge} {migrated : Nat}
    {reached : StorageSession ReferenceState} (h : AppliedEdges done migrated session reached)
    (rest : List MigrationEdge) : handler.run (migrateEdges (done ++ rest) migrated) session =
      handler.run (migrateEdges rest (migrated + done.length)) reached := by
  have hrun := h.run
  clear h
  induction done generalizing migrated session with
  | nil =>
    rw [migrateEdges, handler.run_pure] at hrun
    cases hrun
    rfl
  | cons edge done ih =>
    cases hedge : handler.run edge.migrate session with
    | mk result after =>
    cases result with
    | error error =>
      rw [migrateEdges, handler.run_bind_error hedge] at hrun
      cases hrun
    | ok applied =>
      rw [migrateEdges, handler.run_bind_ok hedge] at hrun
      rw [List.cons_append, migrateEdges, handler.run_bind_ok hedge]
      have hcount : migrated + (edge :: done).length = migrated + 1 + done.length := by
        rw [List.length_cons]
        omega
      rw [hcount] at hrun ⊢
      exact ih hrun

/-- A stopped loop has some edges behind it. -/
theorem stops_migrateEdges {edges : List MigrationEdge} {migrated : Nat}
    {stop : StorageSession ReferenceState} (hids : UnusedIds edges session.state)
    (h : handler.Stops (migrateEdges edges migrated) session stop) :
    ∃ done rest reached, edges = done ++ rest ∧ AppliedEdges done migrated session reached ∧
      stop.state = reached.state := by
  induction edges generalizing migrated session with
  | nil => exact ⟨[], [], session, rfl, ⟨rfl, nofun⟩, by rw [StorageHandler.stops_pure h]⟩
  | cons edge rest ih =>
    have hstay : stop.state = session.state → ∃ done rest' reached,
        edge :: rest = done ++ rest' ∧ AppliedEdges done migrated session reached ∧
        stop.state = reached.state := fun hsame =>
      ⟨[], edge :: rest, session, rfl, ⟨rfl, nofun⟩, hsame⟩
    cases hrun : handler.run edge.migrate session with
    | mk result after =>
    have hreference := migrate_reference hids
    rw [hrun] at hreference
    rcases hreference with ⟨⟨error, hfails⟩, hsame⟩ | ⟨hok, hread, hids'⟩
    · -- A failing edge leaves the store as it is.
      rcases StorageHandler.stops_bind h with hedge | ⟨value, other, hother, -⟩
      · rcases StorageHandler.stops_commitPlan hedge with rfl | rfl
        · exact hstay rfl
        · have hafter : handler.run (commitPlan edge.prepare edgeOutcome) session =
              (result, after) := hrun
          rw [hafter] at hstay ⊢
          exact hstay hsame
      · rw [hrun] at hother
        cases hother
        cases hfails
    · cases hok
      have hfirst : AppliedEdges [edge] migrated session after :=
        AppliedEdges.cons hrun hread ⟨rfl, nofun⟩
      rcases StorageHandler.stops_bind h with hedge | ⟨value, other, hother, hrest⟩
      · rcases StorageHandler.stops_commitPlan hedge with rfl | rfl
        · exact hstay rfl
        · have hafter : handler.run (commitPlan edge.prepare edgeOutcome) session =
              (.ok (), after) := hrun
          rw [hafter]
          exact ⟨[edge], rest, after, rfl, hfirst, rfl⟩
      · rw [hrun] at hother
        cases hother
        obtain ⟨done, rest', reached, rfl, happlied, hstate⟩ := ih hids' hrest
        exact ⟨edge :: done, rest', reached, rfl, happlied.cons hrun hread, hstate⟩

/-! ## Resumption -/

/-- The store is at the base version of the chain, or it has no schema record. -/
def AtBase (registry : MigrationRegistry) (state : ReferenceState) : Prop :=
  readSchema state.entries = .ok none ∨
    readSchema state.entries = .ok (some (.base registry.base))

/-- No transaction of the chain is in the store: the ids of the edges are new to it and distinct,
    and so is the id of the stamp, if the store is to be stamped. -/
structure NewIds (registry : MigrationRegistry) (state : ReferenceState) : Prop where
  edges : UnusedIds registry.edges state
  stamp : readSchema state.entries = .ok none →
    ∀ id, migrationTransactionId [registry.base.asStr] = .ok id →
      state.receipts.get id = none ∧ ∀ edge ∈ registry.edges, edge.transactionId ≠ .ok id

/-- Two runs end in the same entries, receipts and generation, and with the same error if any. -/
structure SameEnd (a b : Result SchemaOutcome × StorageSession ReferenceState) : Prop where
  state : a.2.state = b.2.state
  failure : ∀ error, a.1 = .error error ↔ b.1 = .error error

/-- Wherever the process is stopped, a new run ends as the uninterrupted one, and the run after
    that one commits nothing. -/
structure Resumes (registry : MigrationRegistry) (state : ReferenceState) : Prop where
  same : ∀ stop, handler.Stops registry.ensureSchema ⟨state, []⟩ stop →
    SameEnd (handler.ensureSchema registry stop.state) (handler.ensureSchema registry state)
  settled : handler.ensureSchema registry (handler.ensureSchema registry state).2.state =
    (.ok .current, ⟨(handler.ensureSchema registry state).2.state, []⟩)

section Registry

variable {registry : MigrationRegistry} {state : ReferenceState}

/-- The stamp of the reference store. -/
theorem stamp_reference (hids : NewIds registry state)
    (hread : readSchema state.entries = .ok none) :
    (∃ error, (handler.run registry.stampBase ⟨state, []⟩).1 = .error error) ∧
        (handler.run registry.stampBase ⟨state, []⟩).2.state = state ∨
      (handler.run registry.stampBase ⟨state, []⟩).1 = .ok () ∧
        readSchema (handler.run registry.stampBase ⟨state, []⟩).2.state.entries =
          (decodeSchemaRecord (SchemaRecord.base registry.base).encode).map some ∧
        UnusedIds registry.edges (handler.run registry.stampBase ⟨state, []⟩).2.state := by
  obtain ⟨id, hid⟩ := exists_migrationTransactionId [registry.base.asStr]
  obtain ⟨hunused, hother⟩ := hids.stamp hread id hid
  have hsession : (⟨state, []⟩ : StorageSession ReferenceState).state.receipts.get id = none :=
    hunused
  rcases commitPlan_reference (fun _ => stampOutcome_eq_ok) (fun _ => rfl)
      (fun _ _ hplan => ⟨MigrationRegistry.prepareStamp_writes hplan,
        MigrationRegistry.prepareStamp_id hid hplan⟩) hsession with
    hfails | ⟨hok, hread, hreceipts⟩
  · exact Or.inl hfails
  · refine Or.inr ⟨hok, hread, hids.edges.distinct, fun edge hedge edgeId hedgeId => ?_⟩
    refine hreceipts edgeId ?_ (hids.edges.unused edge hedge edgeId hedgeId)
    rintro rfl
    exact hother edge hedge hedgeId

/-- What a run from the base version does first: it fails and leaves the store as it is, or it
    comes to a store at the base version and goes on with all edges. -/
theorem start_reference (hbase : AtBase registry state) (hids : NewIds registry state) :
    ∃ existing, readSchema state.entries = .ok existing ∧
      ((∃ error started, handler.run (registry.start existing) ⟨state, []⟩ =
          (.error error, started) ∧ started.state = state) ∨
        ∃ started, handler.run (registry.start existing) ⟨state, []⟩ = (.ok 0, started) ∧
          UnusedIds registry.edges started.state ∧
          readSchema started.state.entries =
            (decodeSchemaRecord (SchemaRecord.base registry.base).encode).map some) := by
  rcases hbase with hfresh | hfound
  · refine ⟨none, hfresh, ?_⟩
    cases hrun : handler.run registry.stampBase ⟨state, []⟩ with
    | mk result started =>
    have hstamp := stamp_reference hids hfresh
    rw [hrun] at hstamp
    rcases hstamp with ⟨⟨error, hfails⟩, hsame⟩ | ⟨hok, hread, hunused⟩
    · cases hfails
      exact Or.inl ⟨error, started, handler.run_bind_error hrun, hsame⟩
    · cases hok
      exact Or.inr ⟨started, run_start_none hrun, hunused, hread⟩
  · refine ⟨_, hfound, Or.inr ⟨⟨state, []⟩, ?_, hids.edges, ?_⟩⟩
    · rw [MigrationRegistry.start, handler.run_lift, MigrationRegistry.locate_base rfl]
    · rw [SchemaRecord.decode_encode (fits_of_readSchema hfound)]
      exact hfound

variable {existing : Option SchemaRecord} {session stop : StorageSession ReferenceState}

/-- A process is stopped before or after the start. -/
theorem stops_start (h : handler.Stops (registry.start existing) session stop) :
    stop = session ∨ stop = (handler.run (registry.start existing) session).2 := by
  cases existing with
  | some record => exact Or.inl (StorageHandler.stops_lift h)
  | none =>
    cases hrun : handler.run registry.stampBase session with
    | mk result after =>
    have hplan : handler.run (commitPlan registry.prepareStamp stampOutcome) session =
        (result, after) := hrun
    have hstart : (handler.run (registry.start none) session).2 = after := by
      cases result with
      | ok done => rw [run_start_none hrun]
      | error error =>
        rw [MigrationRegistry.start, handler.run_bind_error hrun]
    rw [hstart]
    rcases StorageHandler.stops_bind h with hstamp | ⟨done, other, hother, hpure⟩
    · rcases StorageHandler.stops_commitPlan hstamp with rfl | rfl
      · exact Or.inl rfl
      · exact Or.inr (congrArg Prod.snd hplan)
    · rw [hrun] at hother
      obtain ⟨-, rfl⟩ := Prod.mk.inj hother
      exact Or.inr (StorageHandler.stops_pure hpure)

/-- A process is stopped before or after the start, or in the loop over the edges. -/
theorem stops_ensureSchema (hread : readSchema session.state.entries = .ok existing)
    (h : handler.Stops registry.ensureSchema session stop) :
    stop = session ∨ stop = (handler.run (registry.start existing) session).2 ∨
      ∃ behind started, handler.run (registry.start existing) session = (.ok behind, started) ∧
        handler.Stops (migrateEdges (registry.edges.drop behind) 0) started stop := by
  rcases StorageHandler.stops_bind h with hsnapshot | ⟨snapshot, other, hsnapshot, h⟩
  · exact Or.inl (StorageHandler.stops_takeSnapshot hsnapshot)
  rw [handler.run_takeSnapshot] at hsnapshot
  cases hsnapshot
  rcases StorageHandler.stops_bind h with hlift | ⟨found, other, hlift, h⟩
  · exact Or.inl (StorageHandler.stops_lift hlift)
  rw [handler.run_lift, show readSchema (handler.snapshot session.state).entries = .ok existing
    from hread] at hlift
  cases hlift
  rcases StorageHandler.stops_bind h with hstart | ⟨behind, started, hstart, h⟩
  · rcases stops_start hstart with hsame | hafter
    · exact Or.inl hsame
    · exact Or.inr (Or.inl hafter)
  refine Or.inr (Or.inr ⟨behind, started, hstart, ?_⟩)
  rcases StorageHandler.stops_bind h with hmigrate | ⟨migrated, ended, hmigrate, hpure⟩
  · exact hmigrate
  · have hend := handler.stops_end (migrateEdges (registry.edges.drop behind) 0) started
    rw [hmigrate] at hend
    rw [StorageHandler.stops_pure hpure]
    exact hend

variable {started : StorageSession ReferenceState}

/-- What a stop in the loop over the edges is in the whole run. -/
theorem Stops.ensureSchema {behind : Nat}
    (hread : readSchema session.state.entries = .ok existing)
    (hstart : handler.run (registry.start existing) session = (.ok behind, started))
    (h : handler.Stops (migrateEdges (registry.edges.drop behind) 0) started stop) :
    handler.Stops registry.ensureSchema session stop := by
  have hlift := handler.run_lift (readSchema (handler.snapshot session.state).entries) session
  rw [show readSchema (handler.snapshot session.state).entries = .ok existing from hread] at hlift
  refine StorageHandler.Stops.bind_right (handler.run_takeSnapshot session) ?_
  rw [show readSchema (handler.snapshot session.state).entries = .ok existing from hread]
  refine StorageHandler.Stops.bind_right hlift ?_
  exact StorageHandler.Stops.bind_right hstart (StorageHandler.Stops.bind_left _ h)

/-- The count does not matter to the loop. -/
theorem migrateEdges_shift (edges : List MigrationEdge) (migrated shift : Nat)
    (session : StorageSession ReferenceState) :
    handler.run (migrateEdges edges (migrated + shift)) session =
      ((handler.run (migrateEdges edges migrated) session).1.map (· + shift),
        (handler.run (migrateEdges edges migrated) session).2) := by
  induction edges generalizing migrated session with
  | nil => rfl
  | cons edge rest ih =>
    cases hrun : handler.run edge.migrate session with
    | mk result after =>
    cases result with
    | error error =>
      rw [migrateEdges, migrateEdges, handler.run_bind_error hrun, handler.run_bind_error hrun]
      rfl
    | ok done =>
      rw [migrateEdges, migrateEdges, handler.run_bind_ok hrun, handler.run_bind_ok hrun,
        Nat.add_right_comm]
      exact ih _ _

variable {done rest : List MigrationEdge}

/-- Edges that a run applied were applied one after the other, and it could have been stopped
    behind each of them. -/
theorem applied_of_run_ok {migrated total : Nat} (hids : UnusedIds (done ++ rest) session.state)
    (h : (handler.run (migrateEdges (done ++ rest) migrated) session).1 = .ok total) :
    ∃ reached, AppliedEdges done migrated session reached ∧
      handler.Stops (migrateEdges (done ++ rest) migrated) session reached := by
  induction done generalizing migrated session with
  | nil => exact ⟨session, ⟨rfl, nofun⟩, Prog.Cut.here⟩
  | cons edge done ih =>
    cases hrun : handler.run edge.migrate session with
    | mk result after =>
    have hreference := migrate_reference hids
    rw [hrun] at hreference
    rcases hreference with ⟨⟨error, hfails⟩, -⟩ | ⟨hok, hread, hids'⟩
    · cases hfails
      rw [List.cons_append, migrateEdges, handler.run_bind_error hrun] at h
      cases h
    · cases hok
      rw [List.cons_append, migrateEdges, handler.run_bind_ok hrun] at h
      obtain ⟨reached, happlied, hstops⟩ := ih hids' h
      exact ⟨reached, happlied.cons hrun hread, StorageHandler.Stops.bind_right hrun hstops⟩

variable {reached : StorageSession ReferenceState}

/-- A store behind some edges of the chain is located there. -/
theorem located_of_applied (hedges : registry.edges = done ++ rest)
    (hstarted : readSchema started.state.entries =
      (decodeSchemaRecord (SchemaRecord.base registry.base).encode).map some)
    (happlied : AppliedEdges done 0 started reached) (hbase : done = [] → registry.base.Fits)
    (hlast : ∀ last ∈ done.getLast?, last.toVersion.Fits) :
    ∃ record, readSchema reached.state.entries = .ok (some record) ∧
      registry.locate record = .ok done.length := by
  rcases List.eq_nil_or_concat done with rfl | ⟨init, last, rfl⟩
  · have hsame := happlied.run
    rw [migrateEdges, handler.run_pure] at hsame
    obtain ⟨-, rfl⟩ := Prod.mk.inj hsame
    have hfits : (SchemaRecord.base registry.base).version.Fits := hbase rfl
    rw [SchemaRecord.decode_encode hfits] at hstarted
    exact ⟨_, hstarted, MigrationRegistry.locate_base rfl⟩
  · have hrecord := happlied.record last (by simp)
    have hfits : last.record.version.Fits := hlast last (by simp)
    rw [SchemaRecord.decode_encode hfits] at hrecord
    refine ⟨last.record, hrecord, ?_⟩
    have hsplit : registry.edges = init ++ last :: rest := by simp [hedges]
    rw [MigrationRegistry.locate_record hsplit]
    simp

/-- A new run from a store behind some edges goes on with the others. -/
theorem ensureSchema_of_applied {record : SchemaRecord} (hedges : registry.edges = done ++ rest)
    (hread : readSchema session.state.entries = .ok (some record))
    (hlocate : registry.locate record = .ok done.length) :
    handler.ensureSchema registry session.state =
      ((handler.run (migrateEdges rest 0) ⟨session.state, []⟩).1.map SchemaOutcome.ofEdges,
      (handler.run (migrateEdges rest 0) ⟨session.state, []⟩).2) := by
  have hstart : handler.run (registry.start (some record)) ⟨session.state, []⟩ =
      (.ok done.length, ⟨session.state, []⟩) := by
    rw [MigrationRegistry.start, handler.run_lift, hlocate]
  have hfound : readSchema (handler.snapshot (⟨session.state, []⟩ :
      StorageSession ReferenceState).state).entries = .ok (some record) := hread
  have hstarted := ensureSchema_started hfound hstart
  rw [hedges, List.drop_left] at hstarted
  exact hstarted

/-- All names of the chain fit. -/
def MigrationRegistry.NamesFit (registry : MigrationRegistry) : Prop :=
  ∀ version ∈ registry.base :: registry.edges.map MigrationEdge.toVersion, version.Fits

theorem MigrationRegistry.NamesFit.base (h : registry.NamesFit) : registry.base.Fits :=
  h _ (List.mem_cons_self ..)

theorem MigrationRegistry.NamesFit.edge (h : registry.NamesFit) {edge : MigrationEdge}
    (hedge : edge ∈ registry.edges) : edge.toVersion.Fits :=
  h _ (List.mem_cons_of_mem _ (List.mem_map_of_mem hedge))

/-- A new run from a store behind some edges ends as the run that applied them. -/
theorem sameEnd_of_applied (hfits : registry.NamesFit)
    (hread : readSchema state.entries = .ok existing)
    (hstart : handler.run (registry.start existing) ⟨state, []⟩ = (.ok 0, started))
    (hstarted : readSchema started.state.entries =
      (decodeSchemaRecord (SchemaRecord.base registry.base).encode).map some)
    (hedges : registry.edges = done ++ rest) (happlied : AppliedEdges done 0 started reached) :
    SameEnd (handler.ensureSchema registry reached.state) (handler.ensureSchema registry state) := by
  obtain ⟨record, hrecord, hlocate⟩ := located_of_applied hedges hstarted happlied
    (fun _ => hfits.base) fun last hlast => hfits.edge (by
      rw [hedges]
      exact List.mem_append_left _ (List.mem_of_getLast? hlast))
  -- Both runs come through the store behind these edges.
  have hrun : handler.ensureSchema registry state = _ := ensureSchema_started hread hstart
  rw [List.drop_zero, hedges, happlied.run_append, migrateEdges_shift] at hrun
  rw [ensureSchema_of_applied hedges hrecord hlocate, hrun]
  obtain ⟨hresult, hstate⟩ := handler.run_state (migrateEdges rest 0)
    (show (⟨reached.state, []⟩ : StorageSession ReferenceState).state = reached.state from rfl)
  refine ⟨hstate, fun error => ?_⟩
  simp only
  rw [map_ofEdges_eq_error, map_ofEdges_eq_error, hresult]
  cases (handler.run (migrateEdges rest 0) reached).1 <;> simp [Except.map]

/-- Wherever the process is stopped, a new run ends as the uninterrupted one. -/
theorem resumes_same (hfits : registry.NamesFit) (hbase : AtBase registry state)
    (hids : NewIds registry state) (h : handler.Stops registry.ensureSchema ⟨state, []⟩ stop) :
    SameEnd (handler.ensureSchema registry stop.state) (handler.ensureSchema registry state) := by
  have hstay : stop.state = state →
      SameEnd (handler.ensureSchema registry stop.state) (handler.ensureSchema registry state) := by
    intro hsame
    rw [hsame]
    exact ⟨rfl, fun _ => Iff.rfl⟩
  obtain ⟨existing, hread, hstart⟩ := start_reference hbase hids
  have hstops := stops_ensureSchema hread h
  rcases hstart with ⟨error, started, hstart, hsame⟩ | ⟨started, hstart, hunused, hstarted⟩
  · rw [hstart] at hstops
    rcases hstops with rfl | rfl | ⟨behind, other, hother, -⟩
    · exact hstay rfl
    · exact hstay hsame
    · cases hother
  · rw [hstart] at hstops
    rcases hstops with rfl | rfl | ⟨behind, other, hother, hmigrate⟩
    · exact hstay rfl
    · exact sameEnd_of_applied hfits hread hstart hstarted (List.nil_append _).symm ⟨rfl, nofun⟩
    · cases hother
      rw [List.drop_zero] at hmigrate
      obtain ⟨done, rest, reached, hedges, happlied, hstate⟩ := stops_migrateEdges hunused hmigrate
      rw [hstate]
      exact sameEnd_of_applied hfits hread hstart hstarted hedges happlied

variable {outcome : SchemaOutcome}

/-- A run that succeeds has applied all edges. -/
theorem applied_of_ensureSchema (hbase : AtBase registry state) (hids : NewIds registry state)
    (h : (handler.ensureSchema registry state).1 = .ok outcome) :
    ∃ existing started, readSchema state.entries = .ok existing ∧
      handler.run (registry.start existing) ⟨state, []⟩ = (.ok 0, started) ∧
      UnusedIds registry.edges started.state ∧
      readSchema started.state.entries =
        (decodeSchemaRecord (SchemaRecord.base registry.base).encode).map some ∧
      ∃ total, (handler.run (migrateEdges registry.edges 0) started).1 = .ok total ∧
        (handler.ensureSchema registry state).2 =
          (handler.run (migrateEdges registry.edges 0) started).2 := by
  obtain ⟨existing, hread, ⟨error, started, hstart, -⟩ | ⟨started, hstart, hunused, hstarted⟩⟩ :=
    start_reference hbase hids
  · rw [StorageHandler.ensureSchema, ensureSchema_stopped hread hstart] at h
    cases h
  · have hrun : handler.ensureSchema registry state = _ := ensureSchema_started hread hstart
    rw [List.drop_zero] at hrun
    rw [hrun] at h ⊢
    refine ⟨existing, started, hread, hstart, hunused, hstarted, ?_⟩
    cases hmigrated : (handler.run (migrateEdges registry.edges 0) started).1 with
    | error error =>
      rw [hmigrated] at h
      cases h
    | ok total => exact ⟨total, rfl, rfl⟩

/-- The run after a run that succeeds commits nothing. -/
theorem resumes_settled (hfits : registry.NamesFit) (hbase : AtBase registry state)
    (hids : NewIds registry state) (h : (handler.ensureSchema registry state).1 = .ok outcome) :
    handler.ensureSchema registry (handler.ensureSchema registry state).2.state =
      (.ok .current, ⟨(handler.ensureSchema registry state).2.state, []⟩) := by
  obtain ⟨existing, started, -, -, hunused, hstarted, total, hmigrated, hend⟩ :=
    applied_of_ensureSchema hbase hids h
  have hall : registry.edges ++ [] = registry.edges := List.append_nil _
  obtain ⟨reached, happlied, -⟩ := applied_of_run_ok (by rw [hall]; exact hunused)
    (by rw [hall]; exact hmigrated)
  obtain ⟨record, hrecord, hlocate⟩ := located_of_applied hall.symm hstarted happlied
    (fun _ => hfits.base) fun last hlast => hfits.edge (List.mem_of_getLast? hlast)
  rw [hend, happlied.run, ensureSchema_of_applied hall.symm hrecord hlocate]
  rfl

/-- A name that does not fit cannot be resumed from. -/
theorem namesFit_of_resumes (hbase : AtBase registry state) (hids : NewIds registry state)
    (h : (handler.ensureSchema registry state).1 = .ok outcome)
    (hsame : ∀ stop, handler.Stops registry.ensureSchema ⟨state, []⟩ stop →
      SameEnd (handler.ensureSchema registry stop.state) (handler.ensureSchema registry state)) :
    registry.NamesFit := by
  obtain ⟨existing, started, hread, hstart, hunused, hstarted, total, hmigrated, -⟩ :=
    applied_of_ensureSchema hbase hids h
  -- A stop at a store with the record of a version.
  have hreads : ∀ record : SchemaRecord, ∀ stop : StorageSession ReferenceState,
      readSchema stop.state.entries = (decodeSchemaRecord record.encode).map some →
      handler.Stops (migrateEdges registry.edges 0) started stop → record.version.Fits := by
    intro record stop hrecord hstop
    by_contra hlong
    rw [SchemaRecord.decode_encode_long hlong] at hrecord
    have hfails : (handler.ensureSchema registry stop.state).1 = .error schemaCorrupt := by
      rw [StorageHandler.ensureSchema, ensureSchema_unread hrecord]
    rw [((hsame stop (Stops.ensureSchema hread hstart hstop)).failure _).mp hfails] at h
    cases h
  intro version hversion
  rcases List.mem_cons.mp hversion with rfl | hmem
  · exact hreads (.base registry.base) started hstarted Prog.Cut.here
  · obtain ⟨edge, hedge, rfl⟩ := List.mem_map.mp hmem
    obtain ⟨done, rest, hsplit⟩ := List.append_of_mem hedge
    have hedges : registry.edges = (done ++ [edge]) ++ rest := by simp [hsplit]
    rw [hedges] at hunused hmigrated
    obtain ⟨reached, happlied, hstop⟩ := applied_of_run_ok hunused hmigrated
    rw [← hedges] at hstop
    exact hreads edge.record reached (happlied.record edge (by simp)) hstop

/-- From every store at the base version, or without a schema record, in which no transaction of
    the chain has been applied. If all names of the chain fit, then a run ends as the uninterrupted
    one wherever the process was stopped before, also if that one fails. A migration that succeeds
    resumes to the same result, with nothing left to commit, exactly if all names fit. -/
theorem resumed_migration_iff (hbase : AtBase registry state) (hids : NewIds registry state) :
    (registry.NamesFit → ∀ stop, handler.Stops registry.ensureSchema ⟨state, []⟩ stop →
      SameEnd (handler.ensureSchema registry stop.state) (handler.ensureSchema registry state)) ∧
    ∀ outcome, (handler.ensureSchema registry state).1 = .ok outcome →
      (Resumes registry state ↔ registry.NamesFit) := by
  refine ⟨fun hfits _ => resumes_same hfits hbase hids, fun outcome h => ?_⟩
  constructor
  · intro hresumes
    exact namesFit_of_resumes hbase hids h hresumes.same
  · intro hfits
    exact ⟨fun _ => resumes_same hfits hbase hids, resumes_settled hfits hbase hids h⟩

end Registry

/-! ## Chains without data -/

/-- The reference store applies an edge with a plan of no operations. -/
theorem migrate_applied {edge : MigrationEdge} {key : EntryKey} (hkey : schemaKey = .ok key)
    (hplan : edge.transform = some fun _ => .ok []) (hids : UnusedIds [edge] session.state)
    (hgeneration : session.state.generation.toNat + 1 < 2 ^ 64) :
    (handler.run edge.migrate session).1 = .ok () := by
  obtain ⟨transaction, hprepare⟩ := exists_prepare hkey hplan (handler.snapshot session.state)
  obtain ⟨id, hid⟩ := exists_migrationTransactionId [edge.tag.asStr, edge.digest.asBytes]
  have hedge : edge.transactionId = .ok id := hid
  have hunused := hids.unused edge (List.mem_singleton_self _) id hedge
  have hbuilt := hprepare
  simp only [MigrationEdge.prepare, hedge, hplan, Except.okOr, schemaRecordOperation, hkey,
    Result.ok_bind, Result.pure_eq_ok, List.nil_append] at hbuilt
  obtain ⟨-, -, htransaction⟩ := StoreTransaction.new_eq_ok.mp hbuilt
  -- The condition is the one that the snapshot shows.
  have hmatches : expectationMatches (session.state.entries.get key)
      (snapshotExpectation (handler.snapshot session.state) key) = true := by
    have hentries : (handler.snapshot session.state).entries = session.state.entries := rfl
    rw [snapshotExpectation, hentries]
    cases session.state.entries.get key <;> simp [expectationMatches]
  have hnext : checkedAdd session.state.generation 1 = some (session.state.generation + 1) := by
    rw [checkedAdd, if_pos (show session.state.generation.toNat + (1 : UInt64).toNat < 2 ^ 64
      from hgeneration)]
  have hrevision : (handler.snapshot session.state).revision =
      .ofGeneration session.state.generation := rfl
  have hcommit : ∃ receipt, (session.state.commit transaction).1 = .ok (.committed receipt) := by
    subst htransaction
    simp [ReferenceState.commit, hunused, StoreTransaction.computedOperationDigest, hrevision,
      conditionMatches, hmatches, hnext]
  obtain ⟨receipt, hcommit⟩ := hcommit
  have hrun : handler.run edge.migrate session = _ :=
    handler.run_commitPlan edge.prepare edgeOutcome session
  rw [hrun, hprepare]
  show ((session.state.commit transaction).1 >>= edgeOutcome) = .ok ()
  rw [hcommit]
  rfl

section OneEdge

variable {registry : MigrationRegistry} {edge : MigrationEdge} {key : EntryKey}

/-- A store with nothing but the base record of a chain. -/
def baseStore (registry : MigrationRegistry) (key : EntryKey) : ReferenceState :=
  ⟨0, SortedMap.empty.insert key (SchemaRecord.base registry.base).encode, .empty⟩

theorem readSchema_baseStore (hkey : schemaKey = .ok key) (hfits : registry.base.Fits) :
    readSchema (baseStore registry key).entries = .ok (some (.base registry.base)) := by
  have hdecode : decodeSchemaRecord (SchemaRecord.base registry.base).encode =
      .ok (.base registry.base) := SchemaRecord.decode_encode hfits
  simp [readSchema, hkey, baseStore, hdecode]

/-- The ids of a chain of one edge are new to that store. -/
theorem newIds_baseStore (hkey : schemaKey = .ok key) (hfits : registry.base.Fits)
    (hedges : registry.edges = [edge]) : NewIds registry (baseStore registry key) where
  edges := by
    rw [hedges]
    exact ⟨List.nodup_singleton _, fun _ _ _ _ => rfl⟩
  stamp := by
    intro hread
    rw [readSchema_baseStore hkey hfits] at hread
    cases hread

/-- A chain of one edge without data migrates that store. -/
theorem migrated_baseStore (hkey : schemaKey = .ok key) (hfits : registry.base.Fits)
    (hedges : registry.edges = [edge]) (hplan : edge.transform = some fun _ => .ok []) :
    (handler.ensureSchema registry (baseStore registry key)).1 = .ok (.migrated 1) := by
  have hids := (newIds_baseStore hkey hfits hedges).edges
  rw [hedges] at hids
  have hread := readSchema_baseStore hkey hfits
  have hstart : handler.run (registry.start (some (.base registry.base)))
      ⟨baseStore registry key, []⟩ = (.ok 0, ⟨baseStore registry key, []⟩) := by
    rw [MigrationRegistry.start, handler.run_lift, MigrationRegistry.locate_base rfl]
  have hrun : handler.ensureSchema registry (baseStore registry key) = _ :=
    ensureSchema_started hread hstart
  rw [List.drop_zero, hedges] at hrun
  rw [hrun]
  have hsession : UnusedIds [edge]
      (⟨baseStore registry key, []⟩ : StorageSession ReferenceState).state := hids
  have hedge := migrate_applied hkey hplan hsession (show 0 + 1 < 2 ^ 64 by decide)
  cases hmigrate : handler.run edge.migrate ⟨baseStore registry key, []⟩ with
  | mk result after =>
    rw [hmigrate] at hedge
    cases hedge
    rw [migrateEdges, handler.run_bind_ok hmigrate]
    rfl

end OneEdge

end Resume

/-! ## A short and a long name -/

/-- A migration from `v1` to `v2` resumes. -/
theorem sampleRegistry_resumes :
    letI := DnsName.hostNames
    ∃ key, schemaKey = .ok key ∧ Resumes sampleRegistry (baseStore sampleRegistry key) := by
  let _ := DnsName.hostNames
  obtain ⟨key, hkey⟩ := exists_schemaKey
  have hbase : sampleRegistry.base.Fits := by decide
  refine ⟨key, hkey, ?_⟩
  refine ((resumed_migration_iff (Or.inr (readSchema_baseStore hkey hbase))
    (newIds_baseStore hkey hbase rfl)).2 _ (migrated_baseStore hkey hbase rfl rfl)).mpr ?_
  intro version hversion
  have hcases : version = firstVersion ∨ version = secondVersion := by
    simpa [sampleRegistry, sampleEdge] using hversion
  rcases hcases with rfl | rfl <;> decide

/-- A version with a name of 256 bytes. -/
def longVersion : SchemaName := ⟨List.replicate 256 0x76, by decide +kernel⟩

/-- A chain with one edge to that version. -/
def longRegistry [DnsName] : MigrationRegistry where
  base := firstVersion
  edges := [sampleEdge longVersion]
  accepted := by rfl

/-- A migration from `v1` to that version succeeds, but no process can go on behind it. -/
theorem longRegistry_sticks :
    letI := DnsName.hostNames
    ∃ key, schemaKey = .ok key ∧
      (ReferenceState.handler.ensureSchema longRegistry (baseStore longRegistry key)).1 =
        .ok (.migrated 1) ∧
      ¬ Resumes longRegistry (baseStore longRegistry key) := by
  let _ := DnsName.hostNames
  obtain ⟨key, hkey⟩ := exists_schemaKey
  have hbase : longRegistry.base.Fits := by decide
  have hmigrated : (ReferenceState.handler.ensureSchema longRegistry
      (baseStore longRegistry key)).1 = .ok (.migrated 1) := migrated_baseStore hkey hbase rfl rfl
  refine ⟨key, hkey, hmigrated, fun hresumes => ?_⟩
  have hfits := namesFit_of_resumes (Or.inr (readSchema_baseStore hkey hbase))
    (newIds_baseStore hkey hbase rfl) hmigrated hresumes.same
  exact absurd (hfits longVersion (by simp [longRegistry, sampleEdge])) (by decide +kernel)

end Radiata
