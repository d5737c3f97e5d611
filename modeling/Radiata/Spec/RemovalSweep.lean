import Mathlib.Data.List.Induction
import Radiata.Spec.ResourceCorrect
import Radiata.Spec.TraceSweep

/-!
# The removal sweep

All deletions of a pass name the revision of its snapshot, so a store accepts the first of them
and refuses the others: a pass removes at most one record. It still comes to an end, pass by pass,
as the heap holds the oldest of the fresh removals.

## Key results

- `foldl_pushCandidate`: the heap after a scan
- `run_sweepRemoved`: what a pass leaves on a store without other writers
- `removalSweepExact_iff`: when a pass does its job
- `excess_passes`: what is left to remove after some passes
- `removal_sweep_iff`
-/

namespace Radiata

open Prog (run)

/-! ## The heap -/

section Heap

variable [DnsName]

/-- The heap holds the oldest of the candidates that were pushed. -/
theorem foldl_pushCandidate (cap : Nat) (candidates : List Removal) :
    candidates.foldl (pushCandidate cap) [] =
      (Removal.oldestFirst candidates.reverse).take cap := by
  induction candidates using List.reverseRecOn with
  | nil => exact List.take_nil.symm
  | append_singleton candidates candidate ih =>
    rw [List.foldl_append, ih, List.reverse_append]
    show pushCandidate cap _ candidate =
      (List.orderedInsert (fun a b => a.stamped.nanos ≤ b.stamped.nanos) candidate
        (Removal.oldestFirst candidates.reverse)).take cap
    rw [List.take_orderedInsert]
    have hlength := List.length_take_le cap (Removal.oldestFirst candidates.reverse)
    unfold pushCandidate
    simp only [List.orderedInsert_length]
    split
    · rw [List.dropLast_eq_take, List.orderedInsert_length]
      congr 1
      omega
    · apply Eq.symm
      apply List.take_of_length_le
      rw [List.orderedInsert_length]
      omega

end Heap

variable [DnsName]

/-! ## Removals -/

/-- The removal record of an entry. -/
def removalOf (entry : EntryKey × StoreValue) : Option Removal :=
  match ResourceRecord.decode entry.2.asBytes with
  | .ok record =>
    if record.removed = false then none
    else some ⟨entry.1, entry.2, fromMillis record.timestampMillis⟩
  | .error _ => none

/-- The entry is a resource record. -/
def IsResource (entry : EntryKey × StoreValue) : Prop :=
  ∃ record, ResourceRecord.decode entry.2.asBytes = .ok record

def expiredOf (now : SystemTime) (retention : Duration) (entries : List (EntryKey × StoreValue)) :
    List Removal :=
  (entries.filterMap removalOf).filter fun removal => isExpired now retention removal.stamped

def freshOf (now : SystemTime) (retention : Duration) (entries : List (EntryKey × StoreValue)) :
    List Removal :=
  (entries.filterMap removalOf).filter fun removal => !isExpired now retention removal.stamped

theorem removalOf_eq_some {entry : EntryKey × StoreValue} {removal : Removal}
    (h : removalOf entry = some removal) : removal.key = entry.1 ∧ removal.value = entry.2 := by
  unfold removalOf at h
  split at h
  · split at h
    · cases h
    · cases h
      exact ⟨rfl, rfl⟩
  · cases h

section Sorted

variable {now : SystemTime} {retention : Duration} {entry : EntryKey × StoreValue}
  {rest : List (EntryKey × StoreValue)} {removal : Removal}

theorem sorted_cons_live (h : removalOf entry = none) :
    expiredOf now retention (entry :: rest) = expiredOf now retention rest ∧
      freshOf now retention (entry :: rest) = freshOf now retention rest := by
  unfold expiredOf freshOf
  rw [List.filterMap_cons_none h]
  exact ⟨rfl, rfl⟩

theorem sorted_cons_expired (h : removalOf entry = some removal)
    (hexpired : isExpired now retention removal.stamped = true) :
    expiredOf now retention (entry :: rest) = removal :: expiredOf now retention rest ∧
      freshOf now retention (entry :: rest) = freshOf now retention rest := by
  unfold expiredOf freshOf
  rw [List.filterMap_cons_some h]
  simp [hexpired]

theorem sorted_cons_fresh (h : removalOf entry = some removal)
    (hfresh : ¬ isExpired now retention removal.stamped = true) :
    expiredOf now retention (entry :: rest) = expiredOf now retention rest ∧
      freshOf now retention (entry :: rest) = removal :: freshOf now retention rest := by
  unfold expiredOf freshOf
  rw [List.filterMap_cons_some h]
  simp [hfresh]

end Sorted

/-! ## One deletion -/

variable {store : Store EntryKey StoreValue}

theorem run_deleteExact_stale {revision : Nat} (h : store.revision ≠ revision) (removal : Removal) :
    run serveAlone (deleteExact revision removal).run store = (.ok false, store) := by
  have hrefused : store.accepts ⟨revision, [removal.delete]⟩ = false := by
    rw [Bool.eq_false_iff]
    intro haccepts
    exact h (Store.accepts_iff.mp haccepts).1.symm
  have hcommit : run serveAlone (PassM.commit ⟨revision, [removal.delete]⟩ :
      PassM EntryKey StoreValue _).run store = (.ok .conflict, store) := by
    show serveAlone (.commit ⟨revision, [removal.delete]⟩) store = _
    simp only [serveAlone, hrefused, Bool.false_eq_true, if_false]
  unfold deleteExact
  rw [Prog.run_exceptT_bind, hcommit]
  rfl

theorem deletable_singleton {removal : Removal}
    (h : store.lookup removal.key = some removal.value) : Deletable [removal.delete] store where
  nodup := List.nodup_singleton _
  deletes := by
    intro action haction
    cases List.mem_singleton.mp haction
    exact ⟨_, _, rfl⟩
  stored := by
    intro action haction
    cases List.mem_singleton.mp haction
    exact h

/-- The store after the deletion of a record. -/
def deleted (store : Store EntryKey StoreValue) (removal : Removal) : Store EntryKey StoreValue :=
  store.apply ⟨store.revision, [removal.delete]⟩

theorem revision_deleted_ne (store : Store EntryKey StoreValue) (removal : Removal) :
    (deleted store removal).revision ≠ store.revision := Nat.succ_ne_self _

theorem run_deleteExact_current {removal : Removal}
    (h : store.lookup removal.key = some removal.value) :
    run serveAlone (deleteExact store.revision removal).run store =
      (.ok true, deleted store removal) := by
  have haccepts : store.accepts ⟨store.revision, [removal.delete]⟩ = true :=
    Store.accepts_iff.mpr ⟨rfl, (deletable_singleton h).stored⟩
  have hcommit : run serveAlone (PassM.commit ⟨store.revision, [removal.delete]⟩ :
      PassM EntryKey StoreValue _).run store = (.ok .committed, deleted store removal) := by
    show serveAlone (.commit ⟨store.revision, [removal.delete]⟩) store = _
    simp only [serveAlone, haccepts, if_true]
    rfl
  unfold deleteExact
  rw [Prog.run_exceptT_bind, hcommit]
  rfl

/-! ## The scan -/

section Scan

variable {now : SystemTime} {retention : Duration} {cap : Nat}

/-- What the scan of the pass makes of an entry that decodes. -/
theorem scanRemoved_cons {revision : Nat} {entry : EntryKey × StoreValue}
    {rest : List (EntryKey × StoreValue)} {scan : RemovalScan} {record : ResourceRecord}
    (h : ResourceRecord.decode entry.2.asBytes = .ok record) :
    scanRemoved now retention cap revision (entry :: rest) scan =
      match removalOf entry with
      | none => scanRemoved now retention cap revision rest scan
      | some removal =>
        if isExpired now retention removal.stamped then do
          let deleted ← deleteExact revision removal
          scanRemoved now retention cap revision rest
            { scan with removed := if deleted then scan.removed + 1 else scan.removed }
        else
          scanRemoved now retention cap revision rest
            { scan with
              freshTotal := scan.freshTotal + 1
              oldest := pushCandidate cap scan.oldest removal } := by
  obtain ⟨key, value⟩ := entry
  show (ExceptT.mk (pure (ResourceRecord.decode value.asBytes)) >>= _ :
    PassM EntryKey StoreValue RemovalScan) = _
  have hvalue : ResourceRecord.decode value.asBytes = .ok record := h
  rw [hvalue]
  show (if record.removed = false then _ else _ : PassM EntryKey StoreValue RemovalScan) = _
  unfold removalOf
  simp only [hvalue]
  by_cases hremoved : record.removed = false
  · rw [if_pos hremoved, if_pos hremoved]
  · rw [if_neg hremoved, if_neg hremoved]

/-- The scan after another revision: nothing is deleted. -/
theorem run_scanRemoved_stale {revision : Nat} {store : Store EntryKey StoreValue}
    {entries : List (EntryKey × StoreValue)} (hrevision : store.revision ≠ revision)
    (hdecodes : ∀ entry ∈ entries, IsResource entry) (scan : RemovalScan) :
    run serveAlone (scanRemoved now retention cap revision entries scan).run store =
      (.ok ⟨scan.removed, scan.freshTotal + (freshOf now retention entries).length,
        (freshOf now retention entries).foldl (pushCandidate cap) scan.oldest⟩, store) := by
  induction entries generalizing scan with
  | nil => rfl
  | cons entry rest ih =>
    obtain ⟨record, hrecord⟩ := hdecodes entry List.mem_cons_self
    have hrest := ih fun other hother => hdecodes other (List.mem_cons_of_mem _ hother)
    rw [scanRemoved_cons hrecord]
    cases hremoval : removalOf entry with
    | none =>
      obtain ⟨-, hfreshOf⟩ := @sorted_cons_live _ now retention _ rest hremoval
      rw [hfreshOf]
      exact hrest scan
    | some removal =>
      by_cases hexpired : isExpired now retention removal.stamped = true
      · obtain ⟨-, hfreshOf⟩ := sorted_cons_expired hremoval hexpired
        rw [hfreshOf]
        simp only [hexpired, if_true]
        rw [Prog.run_exceptT_bind, run_deleteExact_stale hrevision]
        exact hrest scan
      · obtain ⟨-, hfreshOf⟩ := sorted_cons_fresh hremoval hexpired
        rw [hfreshOf, List.length_cons, List.foldl_cons, Nat.add_comm (freshOf ..).length 1,
          ← Nat.add_assoc]
        simp only [hexpired, Bool.false_eq_true, if_false]
        exact hrest _

/-- The scan at the revision of the snapshot: the first expired removal is deleted. -/
theorem run_scanRemoved_current {store : Store EntryKey StoreValue}
    {entries : List (EntryKey × StoreValue)}
    (hstored : ∀ entry ∈ entries, store.lookup entry.1 = some entry.2)
    (hdecodes : ∀ entry ∈ entries, IsResource entry) (scan : RemovalScan) :
    run serveAlone (scanRemoved now retention cap store.revision entries scan).run store =
      match expiredOf now retention entries with
      | [] => (.ok ⟨scan.removed, scan.freshTotal + (freshOf now retention entries).length,
          (freshOf now retention entries).foldl (pushCandidate cap) scan.oldest⟩, store)
      | removal :: _ => (.ok ⟨scan.removed + 1,
          scan.freshTotal + (freshOf now retention entries).length,
          (freshOf now retention entries).foldl (pushCandidate cap) scan.oldest⟩,
          deleted store removal) := by
  induction entries generalizing scan with
  | nil => rfl
  | cons entry rest ih =>
    obtain ⟨record, hrecord⟩ := hdecodes entry List.mem_cons_self
    have hdecodesRest : ∀ other ∈ rest, IsResource other := fun other hother =>
      hdecodes other (List.mem_cons_of_mem _ hother)
    have hrest := ih (fun other hother => hstored other (List.mem_cons_of_mem _ hother)) hdecodesRest
    rw [scanRemoved_cons hrecord]
    cases hremoval : removalOf entry with
    | none =>
      obtain ⟨hexpiredOf, hfreshOf⟩ := @sorted_cons_live _ now retention _ rest hremoval
      rw [hexpiredOf, hfreshOf]
      exact hrest scan
    | some removal =>
      by_cases hexpired : isExpired now retention removal.stamped = true
      · -- From here on the revision is another one.
        obtain ⟨hkey, hvalue⟩ := removalOf_eq_some hremoval
        have hlookup : store.lookup removal.key = some removal.value := by
          rw [hkey, hvalue]
          exact hstored entry List.mem_cons_self
        obtain ⟨hexpiredOf, hfreshOf⟩ := sorted_cons_expired hremoval hexpired
        rw [hexpiredOf, hfreshOf]
        simp only [hexpired, if_true]
        rw [Prog.run_exceptT_bind, run_deleteExact_current hlookup]
        exact run_scanRemoved_stale (revision_deleted_ne store removal) hdecodesRest _
      · obtain ⟨hexpiredOf, hfreshOf⟩ := sorted_cons_fresh hremoval hexpired
        rw [hexpiredOf, hfreshOf, List.length_cons, List.foldl_cons,
          Nat.add_comm (freshOf ..).length 1, ← Nat.add_assoc]
        simp only [hexpired, Bool.false_eq_true, if_false]
        exact hrest _

/-- A scan stops at an entry that is no resource record. -/
theorem run_scanRemoved_error {revision : Nat} {store : Store EntryKey StoreValue}
    {entries : List (EntryKey × StoreValue)} (h : ∃ entry ∈ entries, ¬ IsResource entry)
    (scan : RemovalScan) :
    ∃ e, (run serveAlone (scanRemoved now retention cap revision entries scan).run store).1 =
      .error e := by
  induction entries generalizing scan store with
  | nil =>
    obtain ⟨entry, hmem, -⟩ := h
    cases hmem
  | cons entry rest ih =>
    cases hrecord : ResourceRecord.decode entry.2.asBytes with
    | error e =>
      refine ⟨e, ?_⟩
      show (run serveAlone (ExceptT.mk (pure (ResourceRecord.decode entry.2.asBytes)) >>= _ :
        PassM EntryKey StoreValue RemovalScan).run store).1 = _
      rw [hrecord]
      rfl
    | ok record =>
      have hrest : ∃ other ∈ rest, ¬ IsResource other := by
        obtain ⟨other, hmem, hother⟩ := h
        rcases List.mem_cons.mp hmem with rfl | hmem
        · exact absurd ⟨record, hrecord⟩ hother
        · exact ⟨other, hmem, hother⟩
      rw [scanRemoved_cons hrecord]
      cases removalOf entry with
      | none => exact ih hrest scan
      | some removal =>
        dsimp only
        split
        · rw [Prog.run_exceptT_bind]
          split
          · exact ih hrest _
          · exact ⟨_, rfl⟩
        · exact ih hrest _

end Scan

/-! ## The deletions after the scan -/

theorem run_deleteOverflow_stale {revision : Nat} (h : store.revision ≠ revision)
    (candidates : List Removal) (removed : Nat) :
    run serveAlone (deleteOverflow revision candidates removed).run store = (.ok removed, store) := by
  induction candidates with
  | nil => rfl
  | cons candidate rest ih =>
    unfold deleteOverflow
    rw [Prog.run_exceptT_bind, run_deleteExact_stale h]
    exact ih

theorem run_deleteOverflow_cons {candidate : Removal}
    (h : store.lookup candidate.key = some candidate.value) (rest : List Removal) (removed : Nat) :
    run serveAlone (deleteOverflow store.revision (candidate :: rest) removed).run store =
      (.ok (removed + 1), deleted store candidate) := by
  unfold deleteOverflow
  rw [Prog.run_exceptT_bind, run_deleteExact_current h]
  exact run_deleteOverflow_stale (revision_deleted_ne store candidate) rest _

/-! ## A pass -/

/-- The removal records of a store. -/
def removals (store : Store EntryKey StoreValue) : List Removal :=
  (store.scan inResources).filterMap removalOf

/-- The removals of a store that are past their retention, and those that are not. -/
def expiredRemovals (now : SystemTime) (retention : Duration) (store : Store EntryKey StoreValue) :
    List Removal :=
  expiredOf now retention (store.scan inResources)

def freshRemovals (now : SystemTime) (retention : Duration) (store : Store EntryKey StoreValue) :
    List Removal :=
  freshOf now retention (store.scan inResources)

/-- The fresh removals a pass is to delete: the oldest. -/
def dueFresh (now : SystemTime) (retention : Duration) (cap : Nat)
    (store : Store EntryKey StoreValue) : List Removal :=
  (Removal.oldestFirst (freshRemovals now retention store).reverse).take
    (min ((freshRemovals now retention store).length - cap) cap)

/-- Every entry of the resource namespace is a resource record. -/
def AllResources (store : Store EntryKey StoreValue) : Prop :=
  ∀ entry ∈ store.scan inResources, IsResource entry

section Pass

variable {now : SystemTime} {retention : Duration} {cap : Nat} {before : Store EntryKey StoreValue}

variable {removal : Removal}

theorem mem_removals :
    removal ∈ removals before ↔ before.lookup removal.key = some removal.value ∧
      inResources removal.key = true ∧ removalOf (removal.key, removal.value) = some removal := by
  unfold removals
  rw [List.mem_filterMap]
  constructor
  · intro hmem
    obtain ⟨⟨key, value⟩, hentry, hremoval⟩ := hmem
    obtain ⟨hkey, hvalue⟩ := removalOf_eq_some hremoval
    obtain ⟨hlookup, hin⟩ := Store.mem_scan.mp hentry
    rw [hkey, hvalue]
    exact ⟨hlookup, hin, hremoval⟩
  · intro h
    exact ⟨_, Store.mem_scan.mpr ⟨h.1, h.2.1⟩, h.2.2⟩

theorem nodup_keys_removals (store : Store EntryKey StoreValue) :
    ((removals store).map Removal.key).Nodup :=
  (store.nodup_keys_scan inResources).sublist
    (List.sublist_map_filterMap (fun _ _ h => (removalOf_eq_some h).1) _)

theorem mem_expiredRemovals :
    removal ∈ expiredRemovals now retention before ↔
      removal ∈ removals before ∧ isExpired now retention removal.stamped = true :=
  List.mem_filter

theorem mem_freshRemovals :
    removal ∈ freshRemovals now retention before ↔
      removal ∈ removals before ∧ isExpired now retention removal.stamped = false := by
  unfold freshRemovals freshOf removals
  rw [List.mem_filter, Bool.not_eq_true']

theorem mem_freshRemovals_of_mem_dueFresh {removal : Removal}
    (h : removal ∈ dueFresh now retention cap before) :
    removal ∈ freshRemovals now retention before := by
  have hmem := (List.perm_insertionSort _ _).mem_iff.mp (List.mem_of_mem_take h)
  exact List.mem_reverse.mp hmem

theorem length_dueFresh (now : SystemTime) (retention : Duration) (cap : Nat)
    (store : Store EntryKey StoreValue) : (dueFresh now retention cap store).length =
      min ((freshRemovals now retention store).length - cap) cap := by
  have hsorted : (Removal.oldestFirst (freshRemovals now retention store).reverse).length =
      (freshRemovals now retention store).length := by
    rw [Removal.oldestFirst, List.length_insertionSort, List.length_reverse]
  rw [dueFresh, List.length_take, hsorted]
  omega

/-- The heap gives the oldest of the fresh removals. -/
theorem take_heap {fresh : List Removal} :
    (fresh.foldl (pushCandidate cap) []).take
        (min (0 + fresh.length - cap) (fresh.foldl (pushCandidate cap) []).length) =
      (Removal.oldestFirst fresh.reverse).take (min (fresh.length - cap) cap) := by
  have hsorted : (Removal.oldestFirst fresh.reverse).length = fresh.length := by
    rw [Removal.oldestFirst, List.length_insertionSort, List.length_reverse]
  rw [foldl_pushCandidate, List.take_take, List.length_take, hsorted]
  congr 1
  omega

/-- The first of the removals that are due. -/
def firstDue (now : SystemTime) (retention : Duration) (cap : Nat)
    (store : Store EntryKey StoreValue) : Option Removal :=
  (expiredRemovals now retention store ++ dueFresh now retention cap store).head?

/-- A pass over resource records deletes the first removal that is due, and no other. -/
theorem run_sweepRemoved (h : AllResources before) :
    run serveAlone (sweepRemoved now retention cap).run before =
      match firstDue now retention cap before with
      | none => (.ok 0, before)
      | some removal => (.ok 1, deleted before removal) := by
  have hstored : ∀ entry ∈ before.scan inResources, before.lookup entry.1 = some entry.2 :=
    fun entry hentry => (Store.mem_scan.mp hentry).1
  have hsnapshot : run serveAlone (PassM.snapshot : PassM EntryKey StoreValue _).run before =
      (.ok before, before) := rfl
  have hscan := @run_scanRemoved_current _ now retention cap _ _ hstored h ⟨0, 0, []⟩
  unfold sweepRemoved firstDue expiredRemovals
  rw [Prog.run_exceptT_bind, hsnapshot]
  dsimp only
  rw [Prog.run_exceptT_bind, hscan]
  cases hexpired : expiredOf now retention (before.scan inResources) with
  | nil =>
    dsimp only
    rw [take_heap, List.nil_append]
    unfold dueFresh freshRemovals
    cases hdue : (Removal.oldestFirst (freshOf now retention (before.scan inResources)).reverse).take
        (min ((freshOf now retention (before.scan inResources)).length - cap) cap) with
    | nil => rfl
    | cons removal rest =>
      have hmem : removal ∈ freshRemovals now retention before := by
        apply @mem_freshRemovals_of_mem_dueFresh _ now retention cap
        unfold dueFresh freshRemovals
        rw [hdue]
        exact List.mem_cons_self
      exact run_deleteOverflow_cons (mem_removals.mp (mem_freshRemovals.mp hmem).1).1 rest 0
  | cons removal rest =>
    exact run_deleteOverflow_stale (revision_deleted_ne before removal) _ _

theorem firstDue_cases (h : firstDue now retention cap before = some removal) :
    removal ∈ expiredRemovals now retention before ∨
      expiredRemovals now retention before = [] ∧ removal ∈ dueFresh now retention cap before := by
  unfold firstDue at h
  cases hexpired : expiredRemovals now retention before with
  | nil =>
    rw [hexpired] at h
    exact .inr ⟨rfl, List.mem_of_mem_head? h⟩
  | cons first rest =>
    rw [hexpired] at h
    cases h
    exact .inl List.mem_cons_self

theorem mem_removals_of_firstDue (h : firstDue now retention cap before = some removal) :
    removal ∈ removals before := by
  cases firstDue_cases h with
  | inl hexpired => exact (mem_expiredRemovals.mp hexpired).1
  | inr hfresh => exact (mem_freshRemovals.mp (mem_freshRemovals_of_mem_dueFresh hfresh.2)).1

theorem firstDue_eq_none_iff : firstDue now retention cap before = none ↔
    expiredRemovals now retention before = [] ∧ dueFresh now retention cap before = [] := by
  rw [firstDue, List.head?_eq_none_iff, List.append_eq_nil_iff]

/-- What is under the keys after a deletion. -/
theorem lookup_deleted (h : removal ∈ removals before) (key : EntryKey) :
    (deleted before removal).lookup key = if key = removal.key then none else before.lookup key := by
  have hcleared := cleared_apply (deletable_singleton (mem_removals.mp h).1) key
  simpa [Removal.delete, StoreAction.key, deleted] using hcleared

theorem mem_removals_deleted {other : Removal} (h : removal ∈ removals before) :
    other ∈ removals (deleted before removal) ↔ other ∈ removals before ∧ other ≠ removal := by
  rw [mem_removals, lookup_deleted h]
  constructor
  · intro hother
    have hkey : other.key ≠ removal.key := by
      intro heq
      rw [if_pos heq] at hother
      cases hother.1
    rw [if_neg hkey] at hother
    exact ⟨mem_removals.mpr hother, fun heq => hkey (congrArg Removal.key heq)⟩
  · intro hother
    have hkey : other.key ≠ removal.key := fun heq =>
      hother.2 (List.inj_on_of_nodup_map (nodup_keys_removals before) hother.1 h heq)
    rw [if_neg hkey]
    exact mem_removals.mp hother.1

/-- A deletion takes one removal. -/
theorem perm_removals_deleted (h : removal ∈ removals before) :
    (removals before).Perm (removal :: removals (deleted before removal)) := by
  have hnodup : (removal :: removals (deleted before removal)).Nodup := by
    rw [List.nodup_cons]
    exact ⟨fun hmem => ((mem_removals_deleted h).mp hmem).2 rfl, (nodup_keys_removals _).of_map⟩
  rw [List.perm_ext_iff_of_nodup (nodup_keys_removals before).of_map hnodup]
  intro other
  rw [List.mem_cons, mem_removals_deleted h]
  by_cases heq : other = removal
  · simp [heq, h]
  · simp [heq]

theorem length_deleted_of_expired (h : removal ∈ expiredRemovals now retention before) :
    (expiredRemovals now retention before).length =
        (expiredRemovals now retention (deleted before removal)).length + 1 ∧
      (freshRemovals now retention before).length =
        (freshRemovals now retention (deleted before removal)).length := by
  obtain ⟨hmem, hexpired⟩ := mem_expiredRemovals.mp h
  have hperm := perm_removals_deleted hmem
  have hexpiredPerm := (hperm.filter fun other => isExpired now retention other.stamped).length_eq
  have hfreshPerm := (hperm.filter fun other => !isExpired now retention other.stamped).length_eq
  rw [List.filter_cons_of_pos (by simp [hexpired])] at hexpiredPerm
  rw [List.filter_cons_of_neg (by simp [hexpired])] at hfreshPerm
  exact ⟨hexpiredPerm, hfreshPerm⟩

theorem length_deleted_of_fresh (h : removal ∈ freshRemovals now retention before) :
    (expiredRemovals now retention before).length =
        (expiredRemovals now retention (deleted before removal)).length ∧
      (freshRemovals now retention before).length =
        (freshRemovals now retention (deleted before removal)).length + 1 := by
  obtain ⟨hmem, hfresh⟩ := mem_freshRemovals.mp h
  have hperm := perm_removals_deleted hmem
  have hexpiredPerm := (hperm.filter fun other => isExpired now retention other.stamped).length_eq
  have hfreshPerm := (hperm.filter fun other => !isExpired now retention other.stamped).length_eq
  rw [List.filter_cons_of_neg (by simp [hfresh])] at hexpiredPerm
  rw [List.filter_cons_of_pos (by simp [hfresh])] at hfreshPerm
  exact ⟨hexpiredPerm, hfreshPerm⟩

theorem allResources_deleted (h : AllResources before) (hmem : removal ∈ removals before) :
    AllResources (deleted before removal) := by
  intro entry hentry
  obtain ⟨hlookup, hin⟩ := Store.mem_scan.mp hentry
  rw [lookup_deleted hmem] at hlookup
  by_cases hkey : entry.1 = removal.key
  · rw [if_pos hkey] at hlookup
    cases hlookup
  · rw [if_neg hkey] at hlookup
    exact h entry (Store.mem_scan.mpr ⟨hlookup, hin⟩)

/-- What a pass answers, and leaves. -/
def sweepAnswer (now : SystemTime) (retention : Duration) (cap : Nat)
    (store : Store EntryKey StoreValue) : Result Nat :=
  (run serveAlone (sweepRemoved now retention cap).run store).1

def sweepPass (now : SystemTime) (retention : Duration) (cap : Nat)
    (store : Store EntryKey StoreValue) : Store EntryKey StoreValue :=
  (run serveAlone (sweepRemoved now retention cap).run store).2

theorem sweepAnswer_eq (h : AllResources before) : sweepAnswer now retention cap before =
    .ok (if (firstDue now retention cap before).isSome then 1 else 0) := by
  unfold sweepAnswer
  rw [run_sweepRemoved h]
  cases firstDue now retention cap before <;> rfl

theorem sweepPass_eq (h : AllResources before) : sweepPass now retention cap before =
    match firstDue now retention cap before with
    | none => before
    | some removal => deleted before removal := by
  unfold sweepPass
  rw [run_sweepRemoved h]
  cases firstDue now retention cap before <;> rfl

/-- A pass over other entries fails. -/
theorem sweepAnswer_error (h : ¬ AllResources before) :
    ∃ e, sweepAnswer now retention cap before = .error e := by
  have hentry : ∃ entry ∈ before.scan inResources, ¬ IsResource entry := by
    simpa [AllResources] using h
  obtain ⟨e, herror⟩ := @run_scanRemoved_error _ now retention cap before.revision before _ hentry
    ⟨0, 0, []⟩
  have hsnapshot : run serveAlone (PassM.snapshot : PassM EntryKey StoreValue _).run before =
      (.ok before, before) := rfl
  refine ⟨e, ?_⟩
  unfold sweepAnswer sweepRemoved
  rw [Prog.run_exceptT_bind, hsnapshot]
  dsimp only
  rw [Prog.run_exceptT_bind]
  split
  · rename_i hrun
    rw [hrun] at herror
    cases herror
  · rename_i hrun
    rw [hrun] at herror
    cases herror
    rfl

/-- The record of a removal is gone if it was the first that was due. -/
theorem lookup_sweepPass (h : AllResources before) (hmem : removal ∈ removals before) :
    (sweepPass now retention cap before).lookup removal.key =
      if firstDue now retention cap before = some removal then none else some removal.value := by
  have hlookup := (mem_removals.mp hmem).1
  rw [sweepPass_eq h]
  cases hfirst : firstDue now retention cap before with
  | none =>
    rw [if_neg nofun]
    exact hlookup
  | some first =>
    have hfirstMem := mem_removals_of_firstDue hfirst
    dsimp only
    rw [lookup_deleted hfirstMem, hlookup]
    by_cases heq : first = removal
    · subst heq
      rw [if_pos rfl, if_pos rfl]
    · have hkey : removal.key ≠ first.key := fun hkey =>
        heq (List.inj_on_of_nodup_map (nodup_keys_removals before) hfirstMem hmem hkey.symm)
      rw [if_neg hkey, if_neg (fun hsome => heq (Option.some.inj hsome))]

theorem lookup_sweepPass_other (h : AllResources before) {key : EntryKey}
    (hother : ∀ removal ∈ removals before, removal.key ≠ key) :
    (sweepPass now retention cap before).lookup key = before.lookup key := by
  rw [sweepPass_eq h]
  cases hfirst : firstDue now retention cap before with
  | none => rfl
  | some first =>
    have hmem := mem_removals_of_firstDue hfirst
    dsimp only
    rw [lookup_deleted hmem, if_neg (hother first hmem).symm]

/-! ## Exactness -/

/-- What a pass is for: the expired removals go, and of the fresh ones the oldest beyond the cap,
    as many as the cap at most; its answer is the number of records that are gone. -/
structure RemovalSweepExact (now : SystemTime) (retention : Duration) (cap : Nat)
    (before after : Store EntryKey StoreValue) (result : Result Nat) : Prop where
  expired : ∀ removal ∈ expiredRemovals now retention before, after.lookup removal.key = none
  oldest : ∃ gone, List.Lowest (fun removal => removal.stamped.nanos) gone
      (freshRemovals now retention before) ∧
    gone.length = min cap ((freshRemovals now retention before).length - cap) ∧
    ∀ removal ∈ freshRemovals now retention before,
      after.lookup removal.key = if removal ∈ gone then none else some removal.value
  others : ∀ key, (∀ removal ∈ removals before, removal.key ≠ key) →
    after.lookup key = before.lookup key
  counted : result =
    .ok ((removals before).countP fun removal => (after.lookup removal.key).isNone)

/-- The answer of a pass is the number of records that are gone. -/
theorem sweepAnswer_counted (h : AllResources before) :
    sweepAnswer now retention cap before = .ok ((removals before).countP fun removal =>
      ((sweepPass now retention cap before).lookup removal.key).isNone) := by
  have hcount : (removals before).countP (fun removal =>
        ((sweepPass now retention cap before).lookup removal.key).isNone) =
      (removals before).countP fun removal =>
        decide (firstDue now retention cap before = some removal) := by
    apply List.countP_congr
    intro removal hmem
    rw [lookup_sweepPass h hmem]
    by_cases hfirst : firstDue now retention cap before = some removal <;> simp [hfirst]
  rw [sweepAnswer_eq h, hcount]
  cases hfirst : firstDue now retention cap before with
  | none => simp
  | some first =>
    have hone := List.count_eq_one_of_mem (nodup_keys_removals before).of_map
      (mem_removals_of_firstDue hfirst)
    have hsame : ((removals before).countP fun removal => decide (some first = some removal)) =
        (removals before).count first := by
      apply List.countP_congr
      intro removal _
      rw [decide_eq_true_iff, beq_iff_eq]
      exact ⟨fun hsome => (Option.some.inj hsome).symm, fun heq => congrArg some heq.symm⟩
    rw [hsame, hone]
    rfl

/-- The removals that are due are at most one. -/
def OneDue (now : SystemTime) (retention : Duration) (cap : Nat)
    (store : Store EntryKey StoreValue) : Prop :=
  (expiredRemovals now retention store).length +
    min cap ((freshRemovals now retention store).length - cap) ≤ 1

theorem lowest_dueFresh (now : SystemTime) (retention : Duration) (cap : Nat)
    (store : Store EntryKey StoreValue) :
    List.Lowest (fun removal => removal.stamped.nanos) (dueFresh now retention cap store)
      (freshRemovals now retention store) := by
  have hnodup : (freshRemovals now retention store).Nodup :=
    (nodup_keys_removals store).of_map.filter _
  exact (List.lowest_take_insertionSort (List.nodup_reverse.mpr hnodup) _).of_perm
    (List.reverse_perm _)

/-- Where one removal is due at most, it is the first. -/
theorem firstDue_eq_some_iff (h : OneDue now retention cap before) :
    firstDue now retention cap before = some removal ↔
      removal ∈ expiredRemovals now retention before ∨ removal ∈ dueFresh now retention cap before := by
  have hlength : (expiredRemovals now retention before ++ dueFresh now retention cap before).length ≤
      1 := by
    rw [List.length_append, length_dueFresh, Nat.min_comm]
    exact h
  rw [firstDue, ← List.mem_append]
  constructor
  · exact List.mem_of_mem_head?
  · intro hmem
    cases hdue : expiredRemovals now retention before ++ dueFresh now retention cap before with
    | nil =>
      rw [hdue] at hmem
      cases hmem
    | cons first rest =>
      rw [hdue] at hmem hlength
      rw [List.head?_cons, List.eq_of_mem_of_length_le_one hlength hmem List.mem_cons_self]

theorem removalSweepExact_of_oneDue (h : AllResources before) (hone : OneDue now retention cap before) :
    RemovalSweepExact now retention cap before (sweepPass now retention cap before)
      (sweepAnswer now retention cap before) where
  expired := by
    intro removal hexpired
    rw [lookup_sweepPass h (mem_expiredRemovals.mp hexpired).1,
      if_pos ((firstDue_eq_some_iff hone).mpr (.inl hexpired))]
  oldest := by
    refine ⟨_, lowest_dueFresh now retention cap before, ?_, ?_⟩
    · rw [length_dueFresh, Nat.min_comm]
    · intro removal hfresh
      obtain ⟨hmem, hnot⟩ := mem_freshRemovals.mp hfresh
      rw [lookup_sweepPass h hmem]
      simp [firstDue_eq_some_iff hone, mem_expiredRemovals, hnot]
  others := fun key hother => lookup_sweepPass_other h hother
  counted := sweepAnswer_counted h

/-- A pass takes the first removal only. -/
theorem oneDue_of_exact (h : AllResources before)
    (hexact : RemovalSweepExact now retention cap before (sweepPass now retention cap before)
      (sweepAnswer now retention cap before)) : OneDue now retention cap before := by
  obtain ⟨gone, hlowest, hlength, hgone⟩ := hexact.oldest
  have hfirst : ∀ removal ∈ expiredRemovals now retention before ++ gone,
      firstDue now retention cap before = some removal := by
    intro removal hmem
    have hboth : removal ∈ removals before ∧
        (sweepPass now retention cap before).lookup removal.key = none := by
      cases List.mem_append.mp hmem with
      | inl hexpired =>
        exact ⟨(mem_expiredRemovals.mp hexpired).1, hexact.expired removal hexpired⟩
      | inr hmemGone =>
        have hfresh := hlowest.subset hmemGone
        refine ⟨(mem_freshRemovals.mp hfresh).1, ?_⟩
        rw [hgone removal hfresh, if_pos hmemGone]
    have hlookup := hboth.2
    rw [lookup_sweepPass h hboth.1] at hlookup
    by_contra hnot
    rw [if_neg hnot] at hlookup
    cases hlookup
  have hnodup : (expiredRemovals now retention before ++ gone).Nodup := by
    rw [List.nodup_append]
    refine ⟨(nodup_keys_removals before).of_map.filter _, hlowest.nodup, ?_⟩
    intro removal hexpired other hmemGone heq
    have hfresh := (mem_freshRemovals.mp (hlowest.subset hmemGone)).2
    rw [← heq, (mem_expiredRemovals.mp hexpired).2] at hfresh
    cases hfresh
  unfold OneDue
  rw [← hlength, ← List.length_append]
  match hdue : expiredRemovals now retention before ++ gone with
  | [] => exact Nat.zero_le _
  | [_] => exact Nat.le_refl _
  | first :: second :: rest =>
    rw [hdue] at hfirst hnodup
    have hsame := (hfirst first List.mem_cons_self).symm.trans
      (hfirst second (List.mem_cons_of_mem _ List.mem_cons_self))
    simp [Option.some.inj hsame] at hnodup

theorem removalSweepExact_iff : RemovalSweepExact now retention cap before
      (sweepPass now retention cap before) (sweepAnswer now retention cap before) ↔
    AllResources before ∧ OneDue now retention cap before := by
  constructor
  · intro hexact
    have h : AllResources before := by
      by_contra hnot
      obtain ⟨e, herror⟩ := @sweepAnswer_error _ now retention cap _ hnot
      have hcounted := hexact.counted
      rw [herror] at hcounted
      cases hcounted
    exact ⟨h, oneDue_of_exact h hexact⟩
  · intro h
    exact removalSweepExact_of_oneDue h.1 h.2

/-! ## Repeated passes -/

/-- Repeated passes end with no expired removal, and no more fresh ones than the cap. -/
def Settles (now : SystemTime) (retention : Duration) (cap : Nat)
    (before : Store EntryKey StoreValue) : Prop :=
  ∃ enough, ∀ passes, enough ≤ passes →
    expiredRemovals now retention ((sweepPass now retention cap)^[passes] before) = [] ∧
    (freshRemovals now retention ((sweepPass now retention cap)^[passes] before)).length ≤ cap

/-- The removals that are still to go. -/
def excess (now : SystemTime) (retention : Duration) (cap : Nat)
    (store : Store EntryKey StoreValue) : Nat :=
  (expiredRemovals now retention store).length + ((freshRemovals now retention store).length - cap)

theorem allResources_sweepPass (h : AllResources before) :
    AllResources (sweepPass now retention cap before) := by
  rw [sweepPass_eq h]
  cases hfirst : firstDue now retention cap before with
  | none => exact h
  | some removal => exact allResources_deleted h (mem_removals_of_firstDue hfirst)

/-- A pass takes one of the removals that are to go, if the cap is not zero. -/
theorem excess_sweepPass (h : AllResources before) (hcap : cap ≠ 0) :
    excess now retention cap (sweepPass now retention cap before) =
      excess now retention cap before - 1 := by
  rw [sweepPass_eq h]
  unfold excess
  cases hfirst : firstDue now retention cap before with
  | none =>
    obtain ⟨hexpired, hfresh⟩ := firstDue_eq_none_iff.mp hfirst
    have hlength := length_dueFresh now retention cap before
    rw [hfresh, List.length_nil] at hlength
    dsimp only
    rw [hexpired, List.length_nil]
    omega
  | some removal =>
    cases firstDue_cases hfirst with
    | inl hexpired =>
      obtain ⟨hexpiredLength, hfreshLength⟩ := length_deleted_of_expired hexpired
      dsimp only
      omega
    | inr hfresh =>
      obtain ⟨hexpired, hdue⟩ := hfresh
      have hlength := length_dueFresh now retention cap before
      have hpositive := List.length_pos_of_mem hdue
      obtain ⟨hexpiredLength, hfreshLength⟩ :=
        length_deleted_of_fresh (mem_freshRemovals_of_mem_dueFresh hdue)
      dsimp only
      omega

/-- A pass with a cap of zero takes no fresh removal. -/
theorem length_fresh_sweepPass_zero (h : AllResources before) :
    (freshRemovals now retention (sweepPass now retention 0 before)).length =
      (freshRemovals now retention before).length := by
  rw [sweepPass_eq h]
  cases hfirst : firstDue now retention 0 before with
  | none => rfl
  | some removal =>
    cases firstDue_cases hfirst with
    | inl hexpired => exact (length_deleted_of_expired hexpired).2.symm
    | inr hfresh =>
      have hlength := length_dueFresh now retention 0 before
      have hpositive := List.length_pos_of_mem hfresh.2
      omega

theorem allResources_passes (h : AllResources before) (passes : Nat) :
    AllResources ((sweepPass now retention cap)^[passes] before) := by
  induction passes with
  | zero => exact h
  | succ passes ih =>
    rw [Function.iterate_succ_apply']
    exact allResources_sweepPass ih

theorem excess_passes (h : AllResources before) (hcap : cap ≠ 0) (passes : Nat) :
    excess now retention cap ((sweepPass now retention cap)^[passes] before) =
      excess now retention cap before - passes := by
  induction passes with
  | zero => rfl
  | succ passes ih =>
    rw [Function.iterate_succ_apply', excess_sweepPass (allResources_passes h passes) hcap, ih]
    omega

theorem length_fresh_passes_zero (h : AllResources before) (passes : Nat) :
    (freshRemovals now retention ((sweepPass now retention 0)^[passes] before)).length =
      (freshRemovals now retention before).length := by
  induction passes with
  | zero => rfl
  | succ passes ih =>
    rw [Function.iterate_succ_apply', length_fresh_sweepPass_zero (allResources_passes h passes), ih]

/-- The number of expired removals goes down by one with every pass. -/
theorem length_expired_passes (h : AllResources before) (passes : Nat) :
    (expiredRemovals now retention ((sweepPass now retention cap)^[passes] before)).length =
      (expiredRemovals now retention before).length - passes := by
  induction passes with
  | zero => rfl
  | succ passes ih =>
    rw [Function.iterate_succ_apply', sweepPass_eq (allResources_passes h passes)]
    cases hfirst : firstDue now retention cap ((sweepPass now retention cap)^[passes] before) with
    | none =>
      obtain ⟨hexpired, -⟩ := firstDue_eq_none_iff.mp hfirst
      rw [hexpired, List.length_nil] at ih
      dsimp only
      rw [hexpired, List.length_nil]
      omega
    | some removal =>
      cases firstDue_cases hfirst with
      | inl hexpired =>
        obtain ⟨hexpiredLength, -⟩ := length_deleted_of_expired hexpired
        dsimp only
        omega
      | inr hfresh =>
        obtain ⟨hexpired, hdue⟩ := hfresh
        obtain ⟨hexpiredLength, -⟩ :=
          length_deleted_of_fresh (mem_freshRemovals_of_mem_dueFresh hdue)
        rw [hexpired, List.length_nil] at ih hexpiredLength
        dsimp only
        omega

/-- Over resource records, repeated passes come to their end unless the cap is zero. -/
theorem settles_iff (h : AllResources before) : Settles now retention cap before ↔
    cap ≠ 0 ∨ freshRemovals now retention before = [] := by
  constructor
  · intro hsettles
    by_cases hcap : cap = 0
    · subst hcap
      obtain ⟨enough, hafter⟩ := hsettles
      have hle := (hafter enough (Nat.le_refl _)).2
      rw [length_fresh_passes_zero h] at hle
      exact .inr (List.length_eq_zero_iff.mp (Nat.le_zero.mp hle))
    · exact .inl hcap
  · intro hcap
    refine ⟨excess now retention cap before, fun passes henough => ?_⟩
    have hexpired := @length_expired_passes _ now retention cap _ h passes
    unfold excess at henough
    refine ⟨List.length_eq_zero_iff.mp (by omega), ?_⟩
    by_cases hzero : cap = 0
    · subst hzero
      rw [length_fresh_passes_zero h, hcap.resolve_left (fun hne => hne rfl)]
      exact Nat.le_refl _
    · have hexcess := @excess_passes _ now retention _ _ h hzero passes
      unfold excess at hexcess
      omega

/-- A pass does its job, and repeated passes come to their end, if the namespace holds resource
    records only, of which one at most is due, and the cap leaves room for fresh ones if there
    are any. -/
theorem removal_sweep_iff (now : SystemTime) (retention : Duration) (cap : Nat)
    (before : Store EntryKey StoreValue) :
    (RemovalSweepExact now retention cap before (sweepPass now retention cap before)
        (sweepAnswer now retention cap before) ∧ Settles now retention cap before) ↔
      AllResources before ∧
      (expiredRemovals now retention before).length +
        min cap ((freshRemovals now retention before).length - cap) ≤ 1 ∧
      (cap ≠ 0 ∨ freshRemovals now retention before = []) := by
  rw [removalSweepExact_iff, OneDue, and_assoc]
  constructor
  · intro h
    exact ⟨h.1, h.2.1, (settles_iff h.1).mp h.2.2⟩
  · intro h
    exact ⟨h.1, h.2.1, (settles_iff h.1).mpr h.2.2⟩

end Pass

/-! ## A sample -/

/-- The namespace of resource records. -/
def sampleResourceTag : @StoreNamespace .hostNames :=
  letI := DnsName.hostNames
  ⟨resourceRecordNamespaceText, 18, 27, resourceRecordNamespaceText, by decide +kernel⟩

def sampleResourceKey (name : Bytes) : @EntryKey .hostNames :=
  @EntryKey.mk .hostNames sampleResourceTag ⟨name⟩

/-- The record of a resource that was removed at the first millisecond. -/
def sampleRemovalValue (name : Bytes) : StoreValue :=
  letI := DnsName.hostNames
  let fields := ResourceFields.stamp (.ofDigits 0 2)
    sampleResource.1 sampleResource.2 1 (.ofDigits 0 2) 1 true
  let wire : ResourceBodyWire := { fields.wire with name := name }
  ⟨ResourceRecordWire.codec.encode
    ⟨wire, (bodyDigest (ResourceBodyWire.codec.encode wire)).asBytes, List.replicate 64 0⟩⟩

/-- A store with two removals. -/
def sampleRemovalStore : Store (@EntryKey .hostNames) StoreValue :=
  letI := DnsName.hostNames
  let first := Bytes.utf8 "example.com/resources/a"
  let second := Bytes.utf8 "example.com/resources/b"
  ⟨0, ((∅ : AList fun _ : EntryKey => StoreValue).insert (sampleResourceKey first)
    (sampleRemovalValue first)).insert (sampleResourceKey second) (sampleRemovalValue second)⟩

omit [DnsName] in
/-- Two expired removals: a pass deletes one of them. -/
theorem sampleRemovalStore_not_exact :
    letI := DnsName.hostNames
    ¬ RemovalSweepExact (fromMillis 10) sampleRetention 1 sampleRemovalStore
      (sweepPass (fromMillis 10) sampleRetention 1 sampleRemovalStore)
      (sweepAnswer (fromMillis 10) sampleRetention 1 sampleRemovalStore) := by
  let _ := DnsName.hostNames
  intro hexact
  have hone : OneDue (fromMillis 10) sampleRetention 1 sampleRemovalStore :=
    (removalSweepExact_iff.mp hexact).2
  have hexpired : (expiredRemovals (fromMillis 10) sampleRetention sampleRemovalStore).length = 2 := by
    decide +kernel
  unfold OneDue at hone
  omega

end Radiata
