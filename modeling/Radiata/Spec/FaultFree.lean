import Radiata.Spec.CustodyRun

/-!
# Runs without faults

The operations of a node whose store and whose key provider answer every call as they should: a
transaction that the store accepts is committed, a key that is asked for is created, and a key that
is deleted is gone. Such a run is the run of a handler, so what an operation does is a value.

## Key results

- `Calm.serve`: the handler
- `Calm.conforms`: its answers are answers of a conforming store and provider
- `calmly_transact`: a transaction whose expectations hold is committed
-/

namespace Radiata

/-- The ids that are drawn, and the keys that are created. -/
structure CalmSource where
  node : Nat → NodeId
  operation : Nat → KeyOperationId
  transaction : Nat → TransactionId
  handle : KeyOperationId → KeyHandle
  key : KeyHandle → PublicKey
  sign : KeyHandle → Bytes → Signature

/-- The key that the provider creates for an operation. -/
def CalmSource.create (source : CalmSource) (operation : KeyOperationId) : CreatedKey :=
  ⟨source.handle operation, source.key (source.handle operation)⟩

/-- A node without faults: its custody, the keys that were deleted and the number of draws. -/
structure Calm where
  custody : Custody
  deleted : List KeyHandle
  draws : Nat

namespace Calm

def slot (s : Calm) : CommitSlot := s.custody.node.slot

def store (s : Calm) : RecordStore := s.custody.node.disk.store

def setSlot (s : Calm) (slot : CommitSlot) : Calm :=
  { s with custody := { s.custody with node := { s.custody.node with slot := slot } } }

def setDisk (s : Calm) (disk : Disk) : Calm :=
  { s with custody := { s.custody with node := { s.custody.node with disk := disk } } }

def setVault (s : Calm) (vault : Vault) : Calm :=
  { s with custody := { s.custody with vault := vault } }

def draw (s : Calm) : Calm := { s with draws := s.draws + 1 }

@[simp] theorem store_draw (s : Calm) : s.draw.store = s.store := rfl

/-- The answer of a node without faults. -/
def serve (source : CalmSource) : (call : NodeCall) → Calm → call.Answer × Calm
  | .snapshot, s => (.ok s.store, s)
  | .prepare base actions journal, s =>
    let transaction := prepared (source.transaction s.draws) base actions journal
    if transaction.batch.keys.Nodup ∧
        (s.custody.node.disk.prepared.all fun other => other.id ≠ transaction.id) = true then
      (.ok transaction, (s.setDisk (s.custody.node.disk.prepare transaction)).draw)
    else (.error (.invalidInput "metadata storage transaction"), s)
  | .beginCommit id, s =>
    match s.slot with
    | .ready => (.ok (), s.setSlot (.frozen id false true))
    | .frozen _ _ _ => (.error (.notReady "metadata storage commit"), s)
  | .providerCommit transaction, s =>
    if transaction ∈ s.custody.node.disk.receipts then (some (.ok .committed), s)
    else if s.store.accepts transaction.batch then
      (some (.ok .committed), s.setDisk (s.custody.node.disk.applied transaction))
    else (some (.ok .conflict), s)
  | .beginReconcile _, s =>
    match s.slot with
    | .frozen id journalProven false =>
      (.ok (id, journalProven), s.setSlot (.frozen id journalProven true))
    | _ => (.error (.notReady "metadata storage reconcile"), s)
  | .providerReconcile id, s =>
    if s.custody.node.disk.receipts.any fun transaction => transaction.id = id then
      (some (.ok .committed), s)
    else (some (.ok .aborted), s)
  | .finishReady, s => ((), s.setSlot .ready)
  | .finishFrozen, s =>
    match s.slot with
    | .frozen id journalProven _ => (.ok (), s.setSlot (.frozen id journalProven false))
    | .ready => (.error (.internal "metadata storage commit state"), s)
  | .dropProviderCall, s =>
    match s.slot with
    | .frozen id journalProven _ => ((), s.setSlot (.frozen id journalProven false))
    | .ready => ((), s)
  | .freezeJournaled id, s =>
    match s.slot with
    | .ready => (.ok (), s.setSlot (.frozen id true false))
    | .frozen pending _ providerCallActive =>
      if pending = id then (.ok (), s.setSlot (.frozen id true providerCallActive))
      else (.error (.notReady "metadata storage journal recovery"), s)
  | .isReady, s => (decide (s.slot = .ready), s)
  | .generateNode, s => (.ok (source.node s.draws), s.draw)
  | .generateOperation, s =>
    if source.operation s.draws ∉ s.custody.vault.requested ∧
        (s.custody.vault.keys.all fun entry => entry.1 ≠ source.operation s.draws) = true then
      (.ok (source.operation s.draws), s.draw)
    else (.error (.internal "key operation id"), s)
  | .sign handle message, s => (.ok (source.sign handle message), s)
  | .createKey operation, s =>
    (.ok (.present (source.create operation)), s.setVault
      ⟨operation :: s.custody.vault.requested,
        (operation, source.create operation) :: s.custody.vault.keys⟩)
  | .reconcileCreate operation, s =>
    match s.custody.vault.keys.find? fun entry => entry.1 = operation with
    | some entry => (.ok (.present entry.2), s)
    | none => (.ok .absent, s)
  | .publicKey handle, s => (.ok (source.key handle), s)
  | .deleteKey _ handle, s => (.ok .absent, { s with deleted := handle :: s.deleted })
  | .reconcileDelete _ handle, s =>
    (.ok (if handle ∈ s.deleted then .absent else .present), s)

/-- A node without faults answers as a conforming store and a conforming provider do. -/
theorem conforms (source : CalmSource) (call : NodeCall) (s : Calm) :
    Custody.answers call s.custody (serve source call s).1 (serve source call s).2.custody := by
  cases call with
  | snapshot => exact ⟨⟨rfl, Or.inl rfl⟩, rfl⟩
  | prepare base actions journal =>
    simp only [serve]
    split
    · rename_i hprepare
      refine ⟨Or.inr ⟨source.transaction s.draws, fun other hother => ?_, hprepare.1, rfl, rfl⟩, rfl⟩
      exact of_decide_eq_true (List.all_eq_true.mp hprepare.2 other hother)
    · exact ⟨Or.inl ⟨_, rfl, rfl⟩, rfl⟩
  | beginCommit id =>
    obtain ⟨⟨⟨slot, disk⟩, vault⟩, deleted, draws⟩ := s
    cases slot with
    | ready => exact ⟨⟨rfl, rfl⟩, rfl⟩
    | frozen pending proven active => exact ⟨⟨rfl, rfl⟩, rfl⟩
  | providerCommit transaction =>
    simp only [serve]
    split
    · rename_i hmem
      exact ⟨⟨rfl, .replayed hmem⟩, rfl⟩
    split
    · rename_i hnew haccepts
      exact ⟨⟨rfl, .applied _ hnew haccepts (Or.inl rfl)⟩, rfl⟩
    · exact ⟨⟨rfl, .refused⟩, rfl⟩
  | beginReconcile own =>
    obtain ⟨⟨⟨slot, disk⟩, vault⟩, deleted, draws⟩ := s
    cases slot with
    | ready => exact ⟨⟨rfl, rfl⟩, rfl⟩
    | frozen pending proven active => cases active <;> exact ⟨⟨rfl, rfl⟩, rfl⟩
  | providerReconcile id =>
    simp only [serve]
    split
    · rename_i hany
      obtain ⟨transaction, hmem, hid⟩ := List.any_eq_true.mp hany
      exact ⟨⟨rfl, .committed transaction hmem (of_decide_eq_true hid)⟩, rfl⟩
    · rename_i hnone
      refine ⟨⟨rfl, .aborted fun transaction hmem hid => hnone ?_⟩, rfl⟩
      exact List.any_eq_true.mpr ⟨transaction, hmem, decide_eq_true hid⟩
  | finishReady => exact ⟨rfl, rfl⟩
  | finishFrozen =>
    obtain ⟨⟨⟨slot, disk⟩, vault⟩, deleted, draws⟩ := s
    cases slot with
    | ready => exact ⟨⟨rfl, rfl⟩, rfl⟩
    | frozen pending proven active => exact ⟨⟨rfl, rfl⟩, rfl⟩
  | dropProviderCall =>
    obtain ⟨⟨⟨slot, disk⟩, vault⟩, deleted, draws⟩ := s
    cases slot with
    | ready => exact ⟨rfl, rfl⟩
    | frozen pending proven active => exact ⟨rfl, rfl⟩
  | freezeJournaled id =>
    obtain ⟨⟨⟨slot, disk⟩, vault⟩, deleted, draws⟩ := s
    cases slot with
    | ready => exact ⟨⟨rfl, rfl⟩, rfl⟩
    | frozen pending proven active =>
      by_cases hpending : pending = id
      · subst hpending
        simp [serve, slot, setSlot, Custody.answers, NodeCall.answers, Vault.answers]
      · simp [serve, slot, Custody.answers, NodeCall.answers, Vault.answers, hpending]
  | isReady => exact ⟨⟨rfl, rfl⟩, rfl⟩
  | generateNode => exact ⟨rfl, rfl⟩
  | generateOperation =>
    simp only [serve]
    split
    · rename_i hnew
      refine ⟨rfl, rfl, fun operation hoperation => ?_⟩
      cases hoperation
      refine ⟨hnew.1, ?_⟩
      rintro ⟨created, hcreated⟩
      exact of_decide_eq_true (List.all_eq_true.mp hnew.2 _ hcreated) rfl
    · exact ⟨rfl, rfl, (by simp)⟩
  | sign handle message => exact ⟨rfl, rfl⟩
  | createKey operation =>
    refine ⟨rfl, rfl, Or.inr ⟨_, rfl⟩, fun created hcreated => ?_⟩
    cases hcreated
    exact List.mem_cons_self
  | reconcileCreate operation =>
    simp only [serve]
    split
    · rename_i entry hfind
      refine ⟨rfl, rfl, fun created hcreated => ?_, (by simp)⟩
      cases hcreated
      have hkey : entry.1 = operation := by simpa using List.find?_some hfind
      rw [← hkey]
      exact List.mem_of_find?_eq_some hfind
    · rename_i hfind
      refine ⟨rfl, rfl, (by simp), fun _ => ?_⟩
      rintro ⟨created, hcreated⟩
      exact List.find?_eq_none.mp hfind _ hcreated (decide_eq_true rfl)
  | publicKey handle => exact ⟨rfl, rfl⟩
  | deleteKey operation handle => exact ⟨rfl, rfl⟩
  | reconcileDelete operation handle => exact ⟨rfl, rfl⟩

/-- The ids that are drawn up to `limit` are new. -/
structure Supplied (source : CalmSource) (limit : Nat) (s : Calm) : Prop where
  distinct : ∀ m n, m < n → n < limit → source.transaction m ≠ source.transaction n ∧
    source.operation m ≠ source.operation n
  receipts : ∀ transaction ∈ s.custody.node.disk.receipts,
    transaction ∈ s.custody.node.disk.prepared
  transactions : ∀ n, s.draws ≤ n → n < limit → ∀ transaction ∈ s.custody.node.disk.prepared,
    transaction.id ≠ source.transaction n
  operations : ∀ n, s.draws ≤ n → n < limit → source.operation n ∉ s.custody.vault.requested ∧
    ¬ s.custody.vault.Created (source.operation n)

/-- The store moves on to the given records, with at most `count` ids drawn. -/
structure Becomes (source : CalmSource) (limit count : Nat) (s : Calm)
    (records : MetadataKey → Option MetadataRecord) (t : Calm) : Prop where
  ready : t.slot = .ready
  vault : t.custody.vault = s.custody.vault
  lookup : ∀ key, t.store.lookup key = records key
  supplied : t.Supplied source limit
  drawn : s.draws ≤ t.draws
  draws : t.draws ≤ s.draws + count

end Calm

/-! ## Programs -/

section Calmly

variable {source : CalmSource} {limit : Nat} {α β : Type} {s t u : Calm}

/-- The program ends from `s` with the result in `t`. -/
def Calmly (source : CalmSource) (p : NodeM α) (s : Calm) (result : Result α) (t : Calm) : Prop :=
  Prog.run (Calm.serve source) p.run s = (result, t)

theorem Calmly.bind {p : NodeM α} {f : α → NodeM β} {value : α} {result : Result β}
    (hp : Calmly source p s (.ok value) t) (hf : Calmly source (f value) t result u) :
    Calmly source (p >>= f) s result u := by
  unfold Calmly at hp hf ⊢
  rw [Prog.run_exceptT_bind, hp]
  exact hf

/-- The first error ends a sequence. -/
theorem Calmly.stop {p : NodeM α} {f : α → NodeM β} {error : Error}
    (hp : Calmly source p s (.error error) t) : Calmly source (p >>= f) s (.error error) t := by
  unfold Calmly at hp ⊢
  rw [Prog.run_exceptT_bind, hp]

theorem Calmly.lift {p : NodeM α} {result : Result α} (hp : Calmly source p s result t) :
    Calmly source (ExceptT.lift p.run) s (.ok result) t := by
  unfold Calmly at hp ⊢
  show Prog.run _ (p.run >>= fun result => pure (Except.ok result)) s = _
  rw [Prog.run_bind, hp]
  rfl

theorem calmly_pure (value : α) (s : Calm) : Calmly source (pure value) s (.ok value) s := rfl

theorem calmly_ofResult (result : Result α) (s : Calm) :
    Calmly source (NodeM.ofResult result) s result s := rfl

theorem Calmly.ofResult {result : Result α} (value : α) {f : α → NodeM β} {out : Result β}
    (h : result = .ok value) (hf : Calmly source (f value) s out t) :
    Calmly source (NodeM.ofResult result >>= f) s out t := by
  subst h
  exact (calmly_ofResult (.ok value) s).bind hf

theorem calmly_snapshot (s : Calm) : Calmly source NodeM.snapshot s (.ok s.store) s := rfl

theorem calmly_generateNode (s : Calm) :
    Calmly source NodeM.generateNode s (.ok (source.node s.draws)) s.draw := rfl

theorem calmly_publicKey (handle : KeyHandle) (s : Calm) :
    Calmly source (NodeM.publicKey handle) s (.ok (source.key handle)) s := rfl

theorem calmly_deleteKey (operation : KeyOperationId) (handle : KeyHandle) (s : Calm) :
    Calmly source (NodeM.deleteKey operation handle) s (.ok .absent)
      { s with deleted := handle :: s.deleted } := rfl

theorem calmly_generateOperation (hsupplied : s.Supplied source limit) (hlimit : s.draws < limit) :
    Calmly source NodeM.generateOperation s (.ok (source.operation s.draws)) s.draw := by
  obtain ⟨hrequested, hcreated⟩ := hsupplied.operations s.draws (Nat.le_refl _) hlimit
  have hkeys : (s.custody.vault.keys.all fun entry => entry.1 ≠ source.operation s.draws) = true := by
    refine List.all_eq_true.mpr fun entry hentry => decide_eq_true fun heq => hcreated ⟨entry.2, ?_⟩
    rw [← heq]
    exact hentry
  show Calm.serve source .generateOperation s = _
  simp only [Calm.serve]
  rw [if_pos ⟨hrequested, hkeys⟩]

theorem Calm.Supplied.draw (h : s.Supplied source limit) : s.draw.Supplied source limit :=
  ⟨h.distinct, h.receipts, fun n hn => h.transactions n (Nat.le_of_succ_le hn),
    fun n hn => h.operations n (Nat.le_of_succ_le hn)⟩

theorem Calm.Supplied.deleteKey (h : s.Supplied source limit) (handle : KeyHandle) :
    ({ s with deleted := handle :: s.deleted } : Calm).Supplied source limit :=
  ⟨h.distinct, h.receipts, h.transactions, h.operations⟩

theorem calmly_prepare {base : Nat} {actions : List RecordAction} {journal : Option JournalPurpose}
    (hkeys : (prepared (source.transaction s.draws) base actions journal).batch.keys.Nodup)
    (hnew : ∀ other ∈ s.custody.node.disk.prepared, other.id ≠ source.transaction s.draws) :
    Calmly source (NodeM.prepare base actions journal) s
      (.ok (prepared (source.transaction s.draws) base actions journal))
      (s.setDisk (s.custody.node.disk.prepare
        (prepared (source.transaction s.draws) base actions journal))).draw := by
  show Calm.serve source (.prepare base actions journal) s = _
  simp only [Calm.serve]
  rw [if_pos]
  exact ⟨hkeys, List.all_eq_true.mpr fun other hother => decide_eq_true (hnew other hother)⟩

variable {transaction : RecordTransaction}

theorem calmly_providerCommit (hreceipts : transaction ∉ s.custody.node.disk.receipts)
    (haccepts : s.store.accepts transaction.batch = true) :
    Calmly source (NodeM.providerCommit transaction) s (.ok (some (.ok .committed)))
      (s.setDisk (s.custody.node.disk.applied transaction)) := by
  show (Except.ok (Calm.serve source (.providerCommit transaction) s).1,
    (Calm.serve source (.providerCommit transaction) s).2) = _
  simp only [Calm.serve]
  rw [if_neg hreceipts, if_pos haccepts]

theorem calmly_commitRecords (hready : s.slot = .ready)
    (hreceipts : transaction ∉ s.custody.node.disk.receipts)
    (haccepts : s.store.accepts transaction.batch = true) :
    Calmly source (commitRecords transaction) s (.ok .committed)
      (s.setDisk (s.custody.node.disk.applied transaction)) := by
  obtain ⟨⟨⟨slot, disk⟩, vault⟩, deleted, draws⟩ := s
  cases hready
  -- The slot is frozen around the call of the provider.
  have hcommit : Calmly source (NodeM.providerCommit transaction)
      ⟨⟨⟨.frozen transaction.id false true, disk⟩, vault⟩, deleted, draws⟩ _ _ :=
    calmly_providerCommit hreceipts haccepts
  have hbegin : Calmly source (NodeM.beginCommit transaction.id)
      ⟨⟨⟨.ready, disk⟩, vault⟩, deleted, draws⟩ (.ok ())
      ⟨⟨⟨.frozen transaction.id false true, disk⟩, vault⟩, deleted, draws⟩ := rfl
  exact hbegin.bind (hcommit.bind rfl)

/-- A transaction of which every expectation holds is committed. -/
theorem calmly_transact (actions : List RecordAction) (journal : Option JournalPurpose)
    (hsupplied : s.Supplied source limit) (hready : s.slot = .ready) (hlimit : s.draws < limit)
    (hkeys : ∀ id, ((actions ++ journalAction id journal).map StoreAction.key).Nodup)
    (hexpected : ∀ id, ∀ action ∈ actions ++ journalAction id journal,
      s.store.lookup action.key = action.expected) :
    ∃ transaction s₁ t, Calmly source (NodeM.prepare s.store.revision actions journal) s
        (.ok transaction) s₁ ∧
      Calmly source (commitRecords transaction) s₁ (.ok .committed) t ∧
      s.Becomes source limit 1 (fun key => Store.updated
        (actions ++ journalAction transaction.id journal) (s.store.lookup key) key) t := by
  have hnew := hsupplied.transactions s.draws (Nat.le_refl _) hlimit
  have haccepts : s.store.accepts
      (prepared (source.transaction s.draws) s.store.revision actions journal).batch = true :=
    Store.accepts_iff.mpr ⟨rfl, hexpected _⟩
  refine ⟨_, _, _, calmly_prepare (hkeys _) hnew, calmly_commitRecords hready ?_ haccepts, ?_⟩
  · intro hmem
    exact hnew _ (hsupplied.receipts _ hmem) rfl
  refine ⟨hready, rfl, Store.lookup_apply_eq haccepts (hkeys _), ⟨hsupplied.distinct, ?_, ?_, ?_⟩,
    Nat.le_succ _, Nat.le_refl _⟩
  · intro other hother
    rcases List.mem_cons.mp hother with rfl | hold
    · exact List.mem_cons_self
    · exact List.mem_cons_of_mem _ (hsupplied.receipts other hold)
  · intro n hn hlt other hother
    rcases List.mem_cons.mp hother with rfl | hold
    · exact (hsupplied.distinct _ n hn hlt).1
    · exact hsupplied.transactions n (Nat.le_of_succ_le hn) hlt other hold
  · intro n hn hlt
    exact hsupplied.operations n (Nat.le_of_succ_le hn) hlt

theorem calmly_commitWithReconcile
    (h : Calmly source (commitRecords transaction) s (.ok .committed) t) :
    Calmly source (commitWithReconcile transaction) s (.ok .committed) t := h.bind rfl

end Calmly

end Radiata
