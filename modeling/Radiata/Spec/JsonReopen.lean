import Radiata.Spec.JsonCorrect
import Radiata.Spec.PendingCorrect

/-!
# Reopening the JSON store

Reopening validates the whole chain of generations by code of its own. The invariant
`Loads` says that the directory of a store validates to exactly the head the store has
in memory; a commit that adds its generation keeps it, because everything the loader
checks about the new document is what the writer put there.

## Key results

- `loadChain_eq`: a directory that loads reopens with its head, however it is listed
- `Loads.planned`: the next generation loads on top of the chain
- `json_reopen_exact`: reopening after any commits, and after a commit that was stopped
-/

namespace Radiata

/-! ## The listing of a directory -/

/-- A listing of the directory: every name once, in some order. -/
def Lists (listing : List Bytes) (files : Files) : Prop :=
  listing.Nodup ∧ ∀ name, name ∈ listing ↔ (files.get name).isSome = true

/-- The generations by number, with the names of their files. -/
def Indexed (files : Files) (index : SortedMap UInt64 (Bytes × TransactionId)) : Prop :=
  ∀ generation name transaction, index.get generation = some (name, transaction) ↔
    generationOf name = some (generation, transaction) ∧ (files.get name).isSome = true

/-- The generations among the names seen so far. -/
def Collected (seen : List Bytes) (index : SortedMap UInt64 (Bytes × TransactionId)) : Prop :=
  ∀ generation name transaction, index.get generation = some (name, transaction) ↔
    generationOf name = some (generation, transaction) ∧ name ∈ seen

theorem Collected.skip {seen : List Bytes} {index : SortedMap UInt64 (Bytes × TransactionId)}
    (h : Collected seen index) {name : Bytes} (hname : generationOf name = none) :
    Collected (seen ++ [name]) index := by
  intro generation other transaction
  rw [h generation other transaction, List.mem_append, List.mem_singleton]
  constructor
  · exact fun ⟨hother, hseen⟩ => ⟨hother, .inl hseen⟩
  · rintro ⟨hother, hseen | rfl⟩
    · exact ⟨hother, hseen⟩
    · rw [hname] at hother
      cases hother

theorem Collected.add {seen : List Bytes} {index : SortedMap UInt64 (Bytes × TransactionId)}
    (h : Collected seen index) {name : Bytes} {generation : UInt64} {transaction : TransactionId}
    (hname : generationOf name = some (generation, transaction))
    (hnew : index.get generation = none) :
    Collected (seen ++ [name]) (index.insert generation (name, transaction)) := by
  intro generation' other transaction'
  rw [SortedMap.get_insert, List.mem_append, List.mem_singleton]
  by_cases heq : generation' = generation
  · rw [if_pos heq, heq]
    constructor
    · intro hpair
      cases hpair
      exact ⟨hname, .inr rfl⟩
    · rintro ⟨hother, hseen | rfl⟩
      · -- another file of the generation would have been indexed
        have hindexed := (h generation other transaction').mpr ⟨hother, hseen⟩
        rw [hnew] at hindexed
        cases hindexed
      · rw [hname] at hother
        cases hother
        rfl
  · rw [if_neg heq, h generation' other transaction']
    constructor
    · exact fun ⟨hother, hseen⟩ => ⟨hother, .inl hseen⟩
    · rintro ⟨hother, hseen | rfl⟩
      · exact ⟨hother, hseen⟩
      · rw [hname] at hother
        cases hother
        exact absurd rfl heq

/-- The loop over a listing in which no generation occurs twice. -/
theorem collectGenerations_eq {files : Files} {index : SortedMap UInt64 (Bytes × TransactionId)}
    (hindexed : Indexed files index) {names seen : List Bytes}
    {found : SortedMap UInt64 (Bytes × TransactionId)} (hfound : Collected seen found)
    (hnodup : (seen ++ names).Nodup)
    (hthere : ∀ name ∈ seen ++ names, (files.get name).isSome = true) :
    ∃ final, collectGenerations names found = .ok final ∧ Collected (seen ++ names) final := by
  induction names generalizing seen found with
  | nil => exact ⟨found, rfl, by rwa [List.append_nil]⟩
  | cons name names ih =>
    have happend : seen ++ name :: names = (seen ++ [name]) ++ names := by simp
    rw [happend] at hnodup hthere ⊢
    have hread : (if Bytes.isUtf8 name then parseGenerationName name else none) =
        generationOf name := rfl
    rw [collectGenerations, hread]
    cases hname : generationOf name with
    | none => exact ih (hfound.skip hname) hnodup hthere
    | some pair =>
      obtain ⟨generation, transaction⟩ := pair
      -- a second file of the generation would have the same name
      have hnew : found.get generation = none := by
        cases hget : found.get generation with
        | none => rfl
        | some other =>
          obtain ⟨otherName, otherTransaction⟩ := other
          obtain ⟨hother, hseen⟩ := (hfound _ _ _).mp hget
          have hfirst := (hindexed _ _ _).mpr
            ⟨hother, hthere otherName (by simp [hseen])⟩
          have hsecond := (hindexed _ _ _).mpr ⟨hname, hthere name (by simp)⟩
          have hsame : name = otherName := by
            rw [hfirst] at hsecond
            cases hsecond
            rfl
          rw [List.append_assoc, List.nodup_append] at hnodup
          exact absurd hsame.symm (hnodup.2.2 otherName hseen name (by simp))
      dsimp only
      rw [hnew]
      exact ih (hfound.add hname hnew) hnodup hthere

/-- Every listing of a directory collects its generations. -/
theorem collectGenerations_of_lists {files : Files}
    {index : SortedMap UInt64 (Bytes × TransactionId)} (hindexed : Indexed files index)
    {listing : List Bytes} (hlists : Lists listing files) :
    collectGenerations listing .empty = .ok index := by
  have hempty : Collected [] .empty := by
    intro generation name transaction
    simp
  obtain ⟨final, hok, hfinal⟩ := collectGenerations_eq hindexed hempty hlists.1
    (fun name hname => (hlists.2 name).mp hname)
  have hsame : final = index := by
    apply SortedMap.ext_get
    intro generation
    apply Option.ext
    rintro ⟨name, transaction⟩
    rw [hfinal, hindexed, List.nil_append, hlists.2]
  rw [hok, hsame]

/-- The files of an index are those of the directory. -/
theorem Indexed.isSome {files : Files} {index : SortedMap UInt64 (Bytes × TransactionId)}
    (h : Indexed files index) {row : UInt64 × Bytes × TransactionId} (hrow : row ∈ index.toList) :
    generationOf row.2.1 = some (row.1, row.2.2) ∧ (files.get row.2.1).isSome = true :=
  (h _ _ _).mp ((SortedMap.mem_toList_iff _ _ _).mp hrow)

/-! ## The loop over the generations -/

section Load

variable [DnsName] [SerdeJson]

theorem loadGenerations_append (files : Files) (storeUuid : StoreUuid)
    (first second : List (UInt64 × Bytes × TransactionId)) (position : Nat) (state : LoadState) :
    loadGenerations files storeUuid (first ++ second) position state
      = loadGenerations files storeUuid first position state >>=
          loadGenerations files storeUuid second (position + first.length) := by
  induction first generalizing position state with
  | nil => rfl
  | cons row first ih =>
    obtain ⟨generation, name, transaction⟩ := row
    rw [List.cons_append, loadGenerations, loadGenerations, List.length_cons]
    cases loadGeneration files storeUuid state position generation name transaction with
    | error e => rfl
    | ok next =>
      rw [Result.ok_bind, Result.ok_bind, ih]
      congr 2
      omega

variable {files : Files}

/-- The loop reads the files it is given and no others. -/
theorem loadGenerations_congr {files' : Files} (storeUuid : StoreUuid)
    {rows : List (UInt64 × Bytes × TransactionId)}
    (h : ∀ row ∈ rows, files'.get row.2.1 = files.get row.2.1) (position : Nat)
    (state : LoadState) :
    loadGenerations files' storeUuid rows position state
      = loadGenerations files storeUuid rows position state := by
  induction rows generalizing position state with
  | nil => rfl
  | cons row rows ih =>
    obtain ⟨generation, name, transaction⟩ := row
    have hread : readGeneration files' name = readGeneration files name := by
      have hget : files'.get name = files.get name := h _ (List.mem_cons_self ..)
      rw [readGeneration, readGeneration, hget]
    rw [loadGenerations, loadGenerations, loadGeneration, loadGeneration, hread]
    congr 1
    funext next
    exact ih (fun other hother => h other (List.mem_cons_of_mem _ hother)) _ _

/-! ## The fields of a document -/

omit [SerdeJson] in
/-- Reading back entries in their order, from those read before. -/
theorem decodeEntries_eq {entries : Entries}
    (hnamespaces : ∀ e ∈ entries.toList, e.1.namespaceTag.Reparses)
    {done rest : List (EntryKey × StoreValue)} (hsplit : entries.toList = done ++ rest)
    {found : Entries} (hfound : found.toList = done) :
    decodeEntries (rest.map fun e =>
        (e.1.namespaceTag.asStr, hexEncode e.1.key.asBytes, hexEncode e.2.asBytes)) found
      = .ok entries := by
  induction rest generalizing done found with
  | nil =>
    have hsame : found = entries := by
      obtain ⟨list, hlist⟩ := entries
      obtain ⟨list', hlist'⟩ := found
      rw [List.append_nil] at hsplit
      cases hsplit
      cases hfound
      rfl
    rw [hsame]
    rfl
  | cons e rest ih =>
    obtain ⟨⟨namespaceTag, key⟩, value⟩ := e
    have hsorted := entries.sorted
    rw [hsplit, List.pairwise_append] at hsorted
    have hbelow : ∀ other ∈ found.toList, other.1 < (⟨namespaceTag, key⟩ : EntryKey) := by
      intro other hother
      rw [hfound] at hother
      exact hsorted.2.2 other hother _ (List.mem_cons_self ..)
    have hnew : found.get ⟨namespaceTag, key⟩ = none := by
      rw [SortedMap.get_eq_none_iff]
      intro other hother heq
      have hlt := hbelow other hother
      rw [heq] at hlt
      exact lt_irrefl _ hlt
    have hreparses : QualifiedTag.parse namespaceTag.asStr = .ok namespaceTag :=
      hnamespaces (⟨namespaceTag, key⟩, value) (by rw [hsplit]; simp)
    rw [List.map_cons, decodeEntries]
    simp only [hreparses, hexDecode_hexEncode, Except.mapError, Result.ok_bind]
    rw [hnew]
    have hnext : entries.toList = (done ++ [(⟨namespaceTag, key⟩, value)]) ++ rest := by
      rw [hsplit, List.append_assoc]
      rfl
    have hlist : (found.insert ⟨namespaceTag, key⟩ value).toList
        = done ++ [(⟨namespaceTag, key⟩, value)] := by
      rw [SortedMap.toList_insert_of_lt _ _ hbelow, hfound]
    exact ih hnext hlist

omit [DnsName] [SerdeJson] in
theorem forgetAll_append (first second : List Bytes) (receipts : Receipts) :
    forgetAll (first ++ second) receipts = forgetAll first receipts >>= forgetAll second := by
  induction first generalizing receipts with
  | nil => rfl
  | cons text first ih =>
    rw [List.cons_append, forgetAll, forgetAll]
    cases (CanonicalId.parse text : Result TransactionId) with
    | error e => rfl
    | ok target =>
      dsimp only
      split
      · rfl
      · exact ih _

omit [SerdeJson] in
/-- The receipts the apply loop removes can be removed again, in its order. -/
theorem forgetAll_applied (operations : List StoreOperation) {applied : Applied}
    {receipts : Receipts}
    (h : forgetAll (applied.forgotten.map CanonicalId.asStr) receipts = .ok applied.receipts) :
    forgetAll ((operations.foldl Applied.apply applied).forgotten.map CanonicalId.asStr) receipts
      = .ok (operations.foldl Applied.apply applied).receipts := by
  induction operations generalizing applied with
  | nil => exact h
  | cons operation operations ih =>
    refine ih ?_
    cases operation with
    | forgetReceipt target digest =>
      rw [Applied.apply]
      split
      · rename_i hany
        have hthere : (applied.receipts.get target).isNone = false := by
          cases hget : applied.receipts.get target with
          | none => rw [hget] at hany; cases hany
          | some receipt => rfl
        rw [List.map_append, forgetAll_append, h, Result.ok_bind, List.map_singleton, forgetAll,
          CanonicalId.parse_asStr]
        dsimp only
        rw [hthere]
        rfl
      · exact h
    | _ => exact h

/-! ## The next generation -/

omit [DnsName] [SerdeJson] in
/-- The size of a store with a document, as the loader computes it. -/
theorem JsonStorage.addBytes_eq_ok {storage : JsonStorage} {totalBytes total : UInt64}
    {documentBytes : Bytes} (h : storage.addBytes totalBytes documentBytes = .ok total) :
    (u64TryFrom documentBytes.length).bind (checkedAdd totalBytes) = some total ∧
      documentBytes.length ≤ storage.maxTotalBytes.toNat := by
  unfold addBytes at h
  split at h
  · cases h
  · rename_i length hlength
    split at h
    · cases h
    · rename_i sum hsum
      split at h
      · cases h
      · rename_i hle
        cases h
        have hadd := checkedAdd_eq_some.mp hsum
        have hnat := u64TryFrom_eq_some.mp hlength
        have hmax := UInt64.le_iff_toNat_le.mp (not_lt.mp hle)
        rw [hlength]
        exact ⟨hsum, by omega⟩

/-- What the loader needs of a head: namespaces that parse from their text, and receipts as
    commits make them. -/
structure Head.Sound (head : Head) : Prop where
  namespaces : ∀ e ∈ head.entries.toList, e.1.namespaceTag.Reparses
  receipts : head.receipts.Stamped

/-- The parent that the next generation names. -/
def Head.parent (head : Head) : Option (UInt64 × Digest) :=
  if 0 < head.generation then some (head.generation, head.digest) else none

/-- The directory validates to the head. -/
structure Loads (files : Files) (head : Head) : Prop where
  sound : head.Sound
  digest : head.generation = 0 → head.digest = zeroDigest
  chain : ∃ index, Indexed files index ∧ index.toList.length = head.generation.toNat ∧
    (∀ row ∈ index.toList, row.1 ≤ head.generation) ∧
    loadGenerations files head.storeUuid index.toList 0 .start
      = .ok ⟨head.entries, head.receipts, head.totalBytes, head.parent⟩

/-- A directory that loads reopens with its head, however it is listed. -/
theorem loadChain_eq {head : Head} (h : Loads files head) {listing : List Bytes}
    (hlists : Lists listing files) : loadChain listing files head.storeUuid = .ok head := by
  obtain ⟨index, hindexed, -, -, hload⟩ := h.chain
  rw [loadChain, collectGenerations_of_lists hindexed hlists, Result.ok_bind, hload, Result.ok_bind]
  have hparent : head.parent.getD (0, zeroDigest) = (head.generation, head.digest) := by
    rw [Head.parent]
    by_cases hpos : 0 < head.generation
    · rw [if_pos hpos]
      rfl
    · have hzero : head.generation = 0 := by
        rw [UInt64.lt_iff_toNat_lt, UInt64.toNat_zero] at hpos
        apply UInt64.toNat_inj.mp
        rw [UInt64.toNat_zero]
        omega
      rw [if_neg hpos, hzero, h.digest hzero]
      rfl
  show Except.ok (LoadState.head _ _) = _
  rw [LoadState.head, hparent]

theorem Loads.bounds {head : Head} (h : Loads files head) :
    head.Bounds files := by
  obtain ⟨index, hindexed, -, hle, -⟩ := h.chain
  intro name generation transaction hname hthere
  have hget := (hindexed _ _ _).mpr ⟨hname, hthere⟩
  exact hle _ ((SortedMap.mem_toList_iff _ _ _).mpr hget)

/-- Only the generations of a directory are loaded. -/
theorem Loads.same {files' : Files} {head : Head} (h : Loads files head)
    (hsame : SameGenerations files files') : Loads files' head := by
  obtain ⟨index, hindexed, hlength, hle, hload⟩ := h.chain
  refine ⟨h.sound, h.digest, index, ?_, hlength, hle, ?_⟩
  · intro generation name transaction
    rw [hindexed]
    constructor
    · rintro ⟨hname, hthere⟩
      exact ⟨hname, by rwa [hsame name (by rw [hname]; rfl)]⟩
    · rintro ⟨hname, hthere⟩
      exact ⟨hname, by rwa [hsame name (by rw [hname]; rfl)] at hthere⟩
  · rw [loadGenerations_congr _ _ _ _, hload]
    intro row hrow
    exact hsame _ (by rw [(hindexed.isSome hrow).1]; rfl)

section Next

variable {storage : JsonStorage} {head : Head} {transaction : StoreTransaction} {plan : CommitPlan}
  (hplanned : Planned storage head transaction plan) (hnext : plan.head.Sound)

include hplanned

/-- The entries and the receipts of the planned head are those of the apply loop. -/
theorem Planned.applied :
    (head.applied transaction).entries = plan.head.entries ∧
      (head.applied transaction).receipts.insert transaction.id plan.receipt
        = plan.head.receipts := by
  have hstate := hplanned.state
  rw [← head.applied_eq, ← hplanned.receipt] at hstate
  exact ⟨(congrArg ReferenceState.entries hstate).symm,
    (congrArg ReferenceState.receipts hstate).symm⟩

include hnext

/-- A commit writes a document that can be parsed. -/
theorem Planned.wellFormed :
    (generationInput head transaction plan.head.generation (head.applied transaction)
      plan.receipt).WellFormed := by
  obtain ⟨hentries, hreceipts⟩ := hplanned.applied
  have hgeneration := hplanned.toNat_generation
  refine ⟨?_, ?_, ?_, ?_, ?_, ?_, ?_, ?_⟩
  · show plan.receipt.committedRevision = _
    rw [hplanned.receipt]
    rfl
  · show plan.receipt = ⟨transaction.id, transaction.operationDigest, _⟩
    rw [hplanned.receipt]
    rfl
  · intro parent hparent
    have hparent' : parent ∈ head.parent := hparent
    rw [Head.parent] at hparent'
    split at hparent'
    · cases hparent'
      show head.generation < plan.head.generation
      rw [UInt64.lt_iff_toNat_lt]
      omega
    · cases hparent'
  · intro hparent
    have hparent' : head.parent = none := hparent
    rw [Head.parent] at hparent'
    split at hparent'
    · cases hparent'
    · rename_i hzero
      rw [UInt64.lt_iff_toNat_lt, UInt64.toNat_zero] at hzero
      apply UInt64.toNat_inj.mp
      show plan.head.generation.toNat = 1
      omega
  · intro entry hentry
    obtain ⟨e, he, rfl⟩ := List.mem_map.mp hentry
    rw [hentries] at he
    exact ⟨e.1.namespaceTag, rfl, hnext.namespaces e he⟩
  · show (documentEntries _).Pairwise _
    rw [documentEntries, List.pairwise_map]
    refine (head.applied transaction).entries.sorted.imp ?_
    intro a b hab
    rcases EntryKey.lt_iff.mp hab with hns | ⟨hns, hkey⟩
    · exact .inl hns
    · exact .inr ⟨congrArg QualifiedTag.asStr hns, hkey⟩
  · show (documentReceipts _).Pairwise _
    rw [documentReceipts, List.pairwise_map]
    exact SortedMap.sorted _
  · intro receipt hreceipt
    obtain ⟨⟨id, r⟩, he, rfl⟩ := List.mem_map.mp hreceipt
    have hget := (SortedMap.mem_toList_iff _ _ _).mp he
    have hget' : plan.head.receipts.get id = some r := by
      rw [← hreceipts]
      exact hget
    exact (hnext.receipts id r hget').2

/-- The document of a plan, as the loader reads it. -/
theorem Planned.parse : ∃ document, GenerationDocument.parse plan.documentBytes = .ok document ∧
    document.storeUuid = hexEncode head.storeUuid.1 ∧
    document.generation = plan.head.generation ∧
    document.transactionId = transaction.id.asStr ∧
    document.parentGeneration = head.parent.map Prod.fst ∧
    document.parentDigest = head.parent.map (fun parent => hexEncode parent.2.asBytes) ∧
    document.forgotten = (head.applied transaction).forgotten.map CanonicalId.asStr ∧
    document.operationDigest = hexEncode transaction.operationDigest.asBytes ∧
    document.receipts = expectedReceipts plan.head.receipts ∧
    document.entries = plan.head.entries.toList.map (fun e =>
      (e.1.namespaceTag.asStr, hexEncode e.1.key.asBytes, hexEncode e.2.asBytes)) := by
  obtain ⟨hentries, hreceipts⟩ := hplanned.applied
  obtain ⟨length, hlength, hbytes⟩ := Result.bind_eq_ok.mp hplanned.document
  have hparse := GenerationDocument.parse_sealed (hplanned.wellFormed hnext) hlength
  rw [Except.ok.inj hbytes] at hparse
  refine ⟨_, hparse, rfl, rfl, rfl, rfl, rfl, rfl, rfl, ?_, ?_⟩
  · show (documentReceipts _).map _ = _
    rw [hreceipts, documentReceipts, List.map_map]
    rfl
  · show (documentEntries _).map _ = _
    rw [hentries, documentEntries, List.map_map]
    rfl

/-- The next generation is accepted on top of the chain of its head. -/
theorem Planned.loadGeneration {files : Files} (hbytes : storage.maxTotalBytes ≤ maxTotalBytes)
    (hget : files.get plan.finalName = some plan.documentBytes) :
    loadGeneration files plan.head.storeUuid
        ⟨head.entries, head.receipts, head.totalBytes, head.parent⟩ head.generation.toNat
        plan.head.generation plan.finalName transaction.id
      = .ok ⟨plan.head.entries, plan.head.receipts, plan.head.totalBytes, plan.head.parent⟩ := by
  obtain ⟨-, hreceipts⟩ := hplanned.applied
  obtain ⟨document, hparse, huuid, hgeneration, hid, hparentGeneration, hparentDigest, hforgotten,
    hdigest, hlisted, hentries⟩ := hplanned.parse hnext
  obtain ⟨htotal, hlimit⟩ := JsonStorage.addBytes_eq_ok hplanned.totalBytes
  have hposition : u64TryFrom (head.generation.toNat + 1) = some plan.head.generation :=
    u64TryFrom_eq_some.mpr hplanned.toNat_generation
  have hread : readGeneration files plan.finalName = .ok (plan.documentBytes, document) := by
    have hsize : ¬ plan.documentBytes.length > maxTotalBytes.toNat := by
      rw [UInt64.le_iff_toNat_le] at hbytes
      omega
    rw [readGeneration, hget]
    dsimp only
    rw [if_neg hsize, hparse]
  have hcontinues : document.continues plan.head.storeUuid plan.head.generation transaction.id
      head.parent = true := by
    simp [GenerationDocument.continues, huuid, hgeneration, hid, hparentGeneration, hparentDigest,
      hplanned.storeUuid]
  have hforget : forgetAll document.forgotten head.receipts
      = .ok (head.applied transaction).receipts := by
    rw [hforgotten]
    exact forgetAll_applied transaction.operations rfl
  have hreceipt : generationReceipt document plan.head.generation transaction.id
      = .ok plan.receipt := by
    rw [generationReceipt, StoreRevision.new_u64ToBEBytes]
    simp only [Except.mapError, Result.ok_bind]
    rw [hdigest, hexDecode_hexEncode, Result.ok_bind, fixedBytes_digest, Result.ok_bind,
      hplanned.receipt]
    rfl
  have hdecode : decodeEntries document.entries .empty = .ok plan.head.entries := by
    rw [hentries]
    exact decodeEntries_eq hnext.namespaces (List.nil_append _).symm rfl
  have hparent : some (plan.head.generation, GenerationDocument.digest plan.documentBytes)
      = plan.head.parent := by
    have hpos : 0 < plan.head.generation := by
      rw [UInt64.lt_iff_toNat_lt, hplanned.toNat_generation]
      exact Nat.succ_pos _
    rw [Head.parent, if_pos hpos, hplanned.digest]
  rw [Radiata.loadGeneration, ensure_eq_ok (decide_eq_true hposition), Result.ok_bind, hread,
    Result.ok_bind]
  dsimp only
  rw [ensure_eq_ok hcontinues, Result.ok_bind, hforget, Result.ok_bind, hreceipt, Result.ok_bind,
    hreceipts, ensure_eq_ok (decide_eq_true hlisted), Result.ok_bind, hdecode, Result.ok_bind,
    addGenerationBytes, htotal, hparent]
  rfl

/-- The directory with the next generation loads the planned head. -/
theorem Loads.planned {files files' : Files} (h : Loads files head)
    (hbytes : storage.maxTotalBytes ≤ maxTotalBytes)
    (hadds : AddsGeneration plan.finalName plan.documentBytes files files') :
    Loads files' plan.head := by
  obtain ⟨index, hindexed, hlength, hle, hload⟩ := h.chain
  have hfinal := hplanned.generationOf_finalName
  have hnumber := hplanned.toNat_generation
  have habsent := hplanned.get_finalName h.bounds
  have hget : files'.get plan.finalName = some plan.documentBytes := by
    rw [hadds plan.finalName (by rw [hfinal]; rfl), if_pos rfl]
  have hbelow : ∀ row ∈ index.toList, row.1 < plan.head.generation := by
    intro row hrow
    have hrowle := hle row hrow
    rw [UInt64.le_iff_toNat_le] at hrowle
    rw [UInt64.lt_iff_toNat_lt]
    omega
  have hlist := index.toList_insert_of_lt (plan.finalName, transaction.id) hbelow
  refine ⟨hnext, ?_, index.insert plan.head.generation (plan.finalName, transaction.id), ?_, ?_,
    ?_, ?_⟩
  · exact fun hzero => absurd hzero hplanned.generation_ne_zero
  · intro generation name id
    rw [SortedMap.get_insert]
    by_cases hname : name = plan.finalName
    · -- the new file is the only one of its generation
      rw [hname, hfinal, hget]
      split
      · rename_i hgeneration
        simp [hgeneration]
      · rename_i hgeneration
        constructor
        · intro hindex
          have hthere := ((hindexed _ _ _).mp hindex).2
          rw [habsent] at hthere
          cases hthere
        · rintro ⟨heq, -⟩
          cases heq
          exact absurd rfl hgeneration
    · split
      · rename_i hgeneration
        constructor
        · intro heq
          cases heq
          exact absurd rfl hname
        · rintro ⟨hother, hthere⟩
          rw [hadds name (by rw [hother]; rfl), if_neg hname] at hthere
          have hbound := h.bounds _ _ _ hother hthere
          rw [hgeneration, UInt64.le_iff_toNat_le] at hbound
          omega
      · rw [hindexed]
        constructor
        · rintro ⟨hother, hthere⟩
          exact ⟨hother, by rwa [hadds name (by rw [hother]; rfl), if_neg hname]⟩
        · rintro ⟨hother, hthere⟩
          exact ⟨hother, by rwa [hadds name (by rw [hother]; rfl), if_neg hname] at hthere⟩
  · rw [hlist, List.length_append, hlength, hnumber]
    rfl
  · intro row hrow
    rw [hlist, List.mem_append, List.mem_singleton] at hrow
    rcases hrow with hrow | rfl
    · exact le_of_lt (hbelow row hrow)
    · exact le_rfl
  · have hkept : ∀ row ∈ index.toList, files'.get row.2.1 = files.get row.2.1 := by
      intro row hrow
      obtain ⟨hname, hthere⟩ := hindexed.isSome hrow
      rw [hadds _ (by rw [hname]; rfl), if_neg]
      intro heq
      rw [heq, habsent] at hthere
      cases hthere
    rw [hlist, loadGenerations_append, loadGenerations_congr _ hkept, hplanned.storeUuid, hload,
      Result.ok_bind, Nat.zero_add, hlength, loadGenerations, ← hplanned.storeUuid,
      hplanned.loadGeneration hnext hbytes hget]
    rfl

end Next

/-! ## Runs -/

omit [SerdeJson] in
/-- Operations on namespaces that parse from their text keep every namespace so. -/
theorem reparses_foldl_applyOperation {operations : List StoreOperation}
    (hoperations : ∀ operation ∈ operations, operation.Reparses) {entries : Entries}
    (h : ∀ e ∈ entries.toList, e.1.namespaceTag.Reparses) :
    ∀ e ∈ (operations.foldl applyOperation entries).toList, e.1.namespaceTag.Reparses := by
  induction operations generalizing entries with
  | nil => exact h
  | cons operation operations ih =>
    refine ih (fun other hother => hoperations other (List.mem_cons_of_mem _ hother)) ?_
    have hoperation := hoperations operation (List.mem_cons_self ..)
    rintro ⟨k, v⟩ he
    rw [SortedMap.mem_toList_iff] at he
    cases operation with
    | put namespaceTag key expectation value =>
      rw [applyOperation, SortedMap.get_insert] at he
      split at he
      · rename_i hk
        rw [hk]
        exact hoperation
      · exact h (k, v) ((SortedMap.mem_toList_iff _ _ _).mpr he)
    | delete namespaceTag key expectation =>
      rw [applyOperation, SortedMap.get_erase] at he
      split at he
      · cases he
      · exact h (k, v) ((SortedMap.mem_toList_iff _ _ _).mpr he)
    | check namespaceTag key expectation =>
      exact h (k, v) ((SortedMap.mem_toList_iff _ _ _).mpr he)
    | forgetReceipt target digest => exact h (k, v) ((SortedMap.mem_toList_iff _ _ _).mpr he)

variable {transaction : StoreTransaction}

theorem Planned.sound {storage : JsonStorage} {head : Head} {plan : CommitPlan}
    (hplanned : Planned storage head transaction plan) (hsound : head.Sound)
    (hoperations : ∀ operation ∈ transaction.operations, operation.Reparses) :
    plan.head.Sound := by
  constructor
  · have hentries : plan.head.entries
        = transaction.operations.foldl applyOperation head.entries :=
      congrArg ReferenceState.entries hplanned.state
    rw [hentries]
    exact reparses_foldl_applyOperation hoperations hsound.namespaces
  · have hreference : head.reference.receipts.Stamped := hsound.receipts
    have hstamped := ReferenceState.commit_stamped hreference transaction
    rw [hplanned.commit] at hstamped
    exact hstamped

/-- A commit without faults, on the head and the directory. -/
def JsonStorage.commit (storage : JsonStorage) (state : Head × Files)
    (transaction : StoreTransaction) : Head × Files :=
  let run := Prog.run FsCall.perform (storage.commitInner state.1 transaction) state.2
  (run.1.2, run.2)

/-- Commits in a row. -/
def JsonStorage.commitAll (storage : JsonStorage) (state : Head × Files)
    (transactions : List StoreTransaction) : Head × Files :=
  transactions.foldl storage.commit state

variable {storage : JsonStorage} {storeUuid : StoreUuid}

/-- A store whose directory validates to its head. -/
def JsonStore (storeUuid : StoreUuid) (state : Head × Files) : Prop :=
  Loads state.2 state.1 ∧ state.1.storeUuid = storeUuid

theorem JsonStore.commit (hbytes : storage.maxTotalBytes ≤ maxTotalBytes) {state : Head × Files}
    (h : JsonStore storeUuid state)
    (hoperations : ∀ operation ∈ transaction.operations, operation.Reparses) :
    JsonStore storeUuid (storage.commit state transaction) := by
  obtain ⟨head, files⟩ := state
  obtain ⟨hloads, huuid⟩ := h
  rcases prepareCommit_cases storage head transaction with
    ⟨outcome, hprepare, -⟩ | ⟨plan, hprepare, hplanned⟩ | ⟨e, hprepare, -⟩
  · have hcommit : storage.commit (head, files) transaction = (head, files) := by
      rw [JsonStorage.commit, JsonStorage.commitInner, hprepare]
      rfl
    rw [hcommit]
    exact ⟨hloads, huuid⟩
  · obtain ⟨hresult, hadds⟩ := hplanned.run hloads.bounds
    have hcommit : storage.commit (head, files) transaction = (plan.head,
        (Prog.run FsCall.perform (storage.writeCommit head transaction plan) files).2) := by
      rw [JsonStorage.commit, JsonStorage.commitInner, hprepare]
      exact congrArg (·, (Prog.run FsCall.perform (storage.writeCommit head transaction plan)
        files).2) (congrArg Prod.snd hresult)
    rw [hcommit]
    exact ⟨hloads.planned hplanned (hplanned.sound hloads.sound hoperations) hbytes hadds,
      hplanned.storeUuid.trans huuid⟩
  · have hcommit : storage.commit (head, files) transaction = (head, files) := by
      rw [JsonStorage.commit, JsonStorage.commitInner, hprepare]
      rfl
    rw [hcommit]
    exact ⟨hloads, huuid⟩

theorem JsonStore.commitAll (hbytes : storage.maxTotalBytes ≤ maxTotalBytes)
    {transactions : List StoreTransaction}
    (hoperations : ∀ transaction ∈ transactions, ∀ operation ∈ transaction.operations,
      operation.Reparses) {state : Head × Files} (h : JsonStore storeUuid state) :
    JsonStore storeUuid (storage.commitAll state transactions) := by
  induction transactions generalizing state with
  | nil => exact h
  | cons transaction transactions ih =>
    exact ih (fun other hother => hoperations other (List.mem_cons_of_mem _ hother))
      (h.commit hbytes (hoperations transaction (List.mem_cons_self ..)))

theorem JsonStore.fresh (h : FreshDirectory files) (storeUuid : StoreUuid) :
    JsonStore storeUuid (Head.fresh storeUuid, files) := by
  have hsound : (Head.fresh storeUuid).Sound := by
    constructor
    · intro e he
      cases he
    · intro id receipt hget
      cases hget
  have hrows : ∀ row ∈ (SortedMap.empty : SortedMap UInt64 (Bytes × TransactionId)).toList,
      row.1 ≤ (Head.fresh storeUuid).generation := by
    intro row hrow
    cases hrow
  refine ⟨⟨hsound, fun _ => rfl, .empty, ?_, rfl, hrows, rfl⟩, rfl⟩
  intro generation name transaction
  constructor
  · intro hget
    cases hget
  · rintro ⟨hname, hthere⟩
    rw [h name (by rw [hname]; rfl)] at hthere
    cases hthere

/-- A process stopped inside a commit reopens with the head before it or the one after it,
    and with the one after it if the name of the generation is visible. -/
theorem JsonStore.cut (hbytes : storage.maxTotalBytes ≤ maxTotalBytes) {state : Head × Files}
    (h : JsonStore storeUuid state)
    (hoperations : ∀ operation ∈ transaction.operations, operation.Reparses)
    (hcut : (storage.commitInner state.1 transaction).Cut state.2 files) :
    (JsonStore storeUuid (state.1, files) ∧
        ∀ next, checkedAdd state.1.generation 1 = some next →
          files.get (finalName next transaction.id) = none) ∨
      JsonStore storeUuid ((storage.commit state transaction).1, files) := by
  obtain ⟨head, before⟩ := state
  obtain ⟨hloads, huuid⟩ := h
  -- a directory with the generations of before
  have hpre : SameGenerations before files → JsonStore storeUuid (head, files) ∧
      ∀ next, checkedAdd head.generation 1 = some next →
        files.get (finalName next transaction.id) = none := by
    intro hsame
    refine ⟨⟨hloads.same hsame, huuid⟩, ?_⟩
    intro next hnext
    have hnumber := checkedAdd_eq_some.mp hnext
    have hname : generationOf (finalName next transaction.id) = some (next, transaction.id) := by
      refine generationOf_finalName ?_ transaction.id
      rintro rfl
      simp at hnumber
    cases hget : files.get (finalName next transaction.id) with
    | none => rfl
    | some bytes =>
      have hle : next ≤ head.generation :=
        (hloads.same hsame).bounds _ _ _ hname (by rw [hget]; rfl)
      have hone : (1 : UInt64).toNat = 1 := rfl
      rw [UInt64.le_iff_toNat_le, hnumber] at hle
      omega
  rcases prepareCommit_cases storage head transaction with
    ⟨outcome, hprepare, -⟩ | ⟨plan, hprepare, hplanned⟩ | ⟨e, hprepare, -⟩
  · rw [JsonStorage.commitInner, hprepare] at hcut
    rw [Prog.cut_pure hcut] at hpre ⊢
    exact .inl (hpre (.refl before))
  · rw [JsonStorage.commitInner, hprepare] at hcut
    rcases cut_writeCommit hplanned.generationOf_tempName hcut with hsame | hadds
    · exact .inl (hpre hsame)
    · have hhead : (storage.commit (head, before) transaction).1 = plan.head := by
        rw [JsonStorage.commit, JsonStorage.commitInner, hprepare]
        exact congrArg Prod.snd (hplanned.run hloads.bounds).1
      rw [hhead]
      exact .inr ⟨hloads.planned hplanned (hplanned.sound hloads.sound hoperations) hbytes hadds,
        hplanned.storeUuid.trans huuid⟩
  · rw [JsonStorage.commitInner, hprepare] at hcut
    rw [Prog.cut_pure hcut] at hpre ⊢
    exact .inl (hpre (.refl before))

/-- Reopening a store after any commits gives the head it has in memory. A store whose
    process was stopped anywhere inside one further commit reopens with the head before or
    the head after that commit, and with the head after it if the final name of the next
    generation is visible. -/
theorem json_reopen_exact (hbytes : storage.maxTotalBytes ≤ maxTotalBytes) {files : Files}
    (hfresh : FreshDirectory files) (transactions : List StoreTransaction)
    (hoperations : ∀ transaction ∈ transactions, ∀ operation ∈ transaction.operations,
      operation.Reparses) :
    (∀ listing,
      Lists listing (storage.commitAll (Head.fresh storeUuid, files) transactions).2 →
      loadChain listing (storage.commitAll (Head.fresh storeUuid, files) transactions).2 storeUuid
        = .ok (storage.commitAll (Head.fresh storeUuid, files) transactions).1) ∧
    ∀ transaction : StoreTransaction,
      (∀ operation ∈ transaction.operations, operation.Reparses) → ∀ cut,
      (storage.commitInner (storage.commitAll (Head.fresh storeUuid, files) transactions).1
        transaction).Cut (storage.commitAll (Head.fresh storeUuid, files) transactions).2 cut →
      ∀ listing, Lists listing cut →
        (loadChain listing cut storeUuid
            = .ok (storage.commitAll (Head.fresh storeUuid, files) transactions).1 ∨
          loadChain listing cut storeUuid
            = .ok (storage.commitAll (Head.fresh storeUuid, files)
              (transactions ++ [transaction])).1) ∧
        ∀ next, checkedAdd
            (storage.commitAll (Head.fresh storeUuid, files) transactions).1.generation 1
              = some next →
          (cut.get (finalName next transaction.id)).isSome = true →
          loadChain listing cut storeUuid
            = .ok (storage.commitAll (Head.fresh storeUuid, files)
              (transactions ++ [transaction])).1 := by
  have hstore := (JsonStore.fresh hfresh storeUuid).commitAll hbytes hoperations
  have hload : ∀ {head files listing}, JsonStore storeUuid (head, files) → Lists listing files →
      loadChain listing files storeUuid = .ok head := by
    rintro head files listing ⟨hloads, rfl⟩ hlists
    exact loadChain_eq hloads hlists
  refine ⟨fun listing hlists => hload hstore hlists, ?_⟩
  intro transaction hreparses cut hcut listing hlists
  have hafter : storage.commitAll (Head.fresh storeUuid, files) (transactions ++ [transaction])
      = storage.commit (storage.commitAll (Head.fresh storeUuid, files) transactions)
        transaction := by
    rw [JsonStorage.commitAll, List.foldl_append]
    rfl
  rw [hafter]
  rcases hstore.cut hbytes hreparses hcut with ⟨hpre, hinvisible⟩ | hpost
  · refine ⟨.inl (hload hpre hlists), ?_⟩
    intro next hnext hvisible
    rw [hinvisible next hnext] at hvisible
    cases hvisible
  · exact ⟨.inr (hload hpost hlists), fun _ _ _ => hload hpost hlists⟩

end Load

/-! ## A sample -/

theorem reparses_sampleTag : @QualifiedTag.Reparses .hostNames sampleTag := by
  show @QualifiedTag.parse .hostNames (@QualifiedTag.asStr .hostNames sampleTag) = .ok sampleTag
  decide +kernel

theorem reparses_samplePut :
    ∀ operation ∈ @StoreTransaction.operations .hostNames samplePut,
      @StoreOperation.Reparses .hostNames operation := by
  intro operation hoperation
  rw [List.mem_singleton.mp hoperation]
  exact reparses_sampleTag

/-- Deletes the entry and forgets the receipt of the put. -/
def sampleErase : @StoreTransaction .hostNames :=
  letI := DnsName.hostNames
  let operations : List StoreOperation := [.delete sampleTag ⟨[1]⟩ (StoreValue.digest ⟨[2]⟩),
    .forgetReceipt samplePut.id samplePut.operationDigest]
  ⟨.ofDigits 0 1, digestStoreOperations (.ofGeneration 1) operations, .ofGeneration 1, operations⟩

/-- A store reopens after the two commits, and a process that is stopped in the second one reopens
    with one of the two heads. -/
theorem json_reopen_exact_sampleErase :
    letI := DnsName.hostNames
    letI := SerdeJson.compact
    ((ReferenceState.fresh 0).commit samplePut).2.accepts sampleErase = true ∧
    ∃ before after, sampleStorage.commitAll (Head.fresh sampleUuid, .empty) [samplePut] = before ∧
      sampleStorage.commitAll (Head.fresh sampleUuid, .empty) [samplePut, sampleErase] = after ∧
      loadChain (after.2.toList.map Prod.fst) after.2 sampleUuid = .ok after.1 ∧
      ∀ cut, (sampleStorage.commitInner before.1 sampleErase).Cut before.2 cut →
        loadChain (cut.toList.map Prod.fst) cut sampleUuid = .ok before.1 ∨
          loadChain (cut.toList.map Prod.fst) cut sampleUuid = .ok after.1 := by
  let _ := DnsName.hostNames
  let _ := SerdeJson.compact
  have herase : ∀ operation ∈ sampleErase.operations, operation.Reparses :=
    List.forall_mem_cons.mpr ⟨reparses_sampleTag, List.forall_mem_singleton.mpr trivial⟩
  have hlists : ∀ files : Files, Lists (files.toList.map Prod.fst) files := fun _ =>
    ⟨SortedMap.nodup_keys _, SortedMap.mem_keys _⟩
  refine ⟨by decide +kernel, _, _, rfl, rfl, ?_, fun cut hcut => ?_⟩
  · exact (json_reopen_exact le_rfl (fun _ _ => rfl) [samplePut, sampleErase]
      (List.forall_mem_cons.mpr ⟨reparses_samplePut, List.forall_mem_singleton.mpr herase⟩)).1 _ (hlists _)
  · exact ((json_reopen_exact le_rfl (fun _ _ => rfl) [samplePut]
      (List.forall_mem_singleton.mpr reparses_samplePut)).2 sampleErase herase cut hcut _
        (hlists cut)).1

end Radiata
