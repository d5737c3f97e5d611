import Radiata.Native.KeyCustody
import Radiata.Spec.PendingCorrect
import Radiata.Spec.StoreSession

/-!
# Journals of different purposes

`discover_pending` scans by the prefix of a purpose and takes any longer key for corruption. Only
the purposes of key deletions have texts of different lengths, and a handle that extends another
one has a text that extends the other text.

## Key results

- `text_isPrefix_iff`: the purposes whose texts extend a text
- `discoverPending_of_key_eq`: what the scan of a purpose finds
- `journals_independent_iff`: when the journals of other purposes do not disturb a purpose
- `cleanupPending_of_discover`: a cleanup fails where the discovery does
-/

namespace Radiata

/-! ## Purpose texts -/

theorem hexDigit_inj {a b : UInt8} (ha : a.toNat < 16) (hb : b.toNat < 16)
    (h : hexDigit a = hexDigit b) : a = b := by
  have hvalue := (hexValue_hexDigit ha "").2
  rw [h, (hexValue_hexDigit hb "").2] at hvalue
  exact (Except.ok.inj hvalue).symm

theorem hexEncode_isPrefix_iff {a b : Bytes} : hexEncode a <+: hexEncode b ↔ a <+: b := by
  induction a generalizing b with
  | nil => simp [hexEncode]
  | cons x a ih =>
    cases b with
    | nil => simp [hexEncode]
    | cons y b =>
      simp only [hexEncode, List.cons_prefix_cons, ih]
      constructor
      · intro hsame
        obtain ⟨hhigh, hlow, hrest⟩ := hsame
        have hx := x.toNat_lt
        have hy := y.toNat_lt
        have hhigh := hexDigit_inj (by rw [toNat_high]; omega) (by rw [toNat_high]; omega) hhigh
        have hlow := hexDigit_inj (by rw [toNat_low]; omega) (by rw [toNat_low]; omega) hlow
        refine ⟨?_, hrest⟩
        rw [← high_or_low x, hhigh, hlow, high_or_low]
      · intro hsame
        obtain ⟨hbyte, hrest⟩ := hsame
        rw [hbyte]
        exact ⟨rfl, rfl, hrest⟩

/-- The kinds of purposes differ in the first three letters. -/
def JournalPurpose.kind : JournalPurpose → Bytes
  | .localIdentity => Bytes.utf8 "loc"
  | .clusterGenesis => Bytes.utf8 "clu"
  | .admission _ => Bytes.utf8 "adm"
  | .adoption _ => Bytes.utf8 "ado"
  | .keyDeletion _ => Bytes.utf8 "key"

theorem JournalPurpose.take_text (purpose : JournalPurpose) :
    purpose.text.take 3 = purpose.kind := by
  cases purpose <;> rfl

variable {purpose other : JournalPurpose}

theorem JournalPurpose.kind_eq_of_isPrefix (h : purpose.text <+: other.text) :
    purpose.kind = other.kind := by
  obtain ⟨rest, h⟩ := h
  have hlength : 3 ≤ purpose.text.length := by
    have hkind : (purpose.text.take 3).length = 3 := by
      rw [take_text]
      cases purpose <;> rfl
    rw [List.length_take] at hkind
    omega
  rw [← take_text, ← take_text, ← h, List.take_append_of_le_length hlength]

/-- A text is extended by its own and, if it is that of a deletion, by those of the handles that
    extend the handle. -/
theorem JournalPurpose.text_isPrefix_iff :
    purpose.text <+: other.text ↔ purpose = other ∨ ∃ handle longer, purpose = .keyDeletion handle ∧
      other = .keyDeletion longer ∧ handle.asBytes <+: longer.asBytes := by
  constructor
  · intro h
    have hkind := kind_eq_of_isPrefix h
    cases purpose <;> cases other <;>
      first | (simp only [kind] at hkind; exact absurd hkind (by decide)) | skip
    case localIdentity => exact Or.inl rfl
    case clusterGenesis => exact Or.inl rfl
    case admission a b =>
      rw [text, text, List.prefix_append_right_inj, hexEncode_isPrefix_iff] at h
      left
      rw [ByteValue.ext_asBytes (h.eq_of_length (by rw [a.width, b.width]))]
    case adoption a b =>
      rw [text, text, List.prefix_append_right_inj, hexEncode_isPrefix_iff] at h
      left
      rw [ByteValue.ext_asBytes (h.eq_of_length (by rw [a.width, b.width]))]
    case keyDeletion handle longer =>
      rw [text, text, List.prefix_append_right_inj, hexEncode_isPrefix_iff] at h
      exact Or.inr ⟨handle, longer, rfl, rfl, h⟩
  · intro h
    cases h with
    | inl heq => exact heq ▸ List.prefix_rfl
    | inr h =>
      obtain ⟨handle, longer, rfl, rfl, h⟩ := h
      rw [text, text, List.prefix_append_right_inj, hexEncode_isPrefix_iff]
      exact h

/-- Distinct purposes have distinct texts. -/
theorem JournalPurpose.text_inj (h : purpose.text = other.text) : purpose = other := by
  cases text_isPrefix_iff.mp ⟨[], (List.append_nil _).trans h⟩ with
  | inl heq => exact heq
  | inr hprefix =>
    obtain ⟨handle, longer, rfl, rfl, hprefix⟩ := hprefix
    rw [text, text, List.append_cancel_left_eq] at h
    have hlength := congrArg List.length h
    rw [length_hexEncode, length_hexEncode] at hlength
    cases handle
    cases longer
    have hbytes := hprefix.eq_of_length (by omega)
    simp only at hbytes
    simp [hbytes]

/-! ## Discovery -/

section Discovery

variable [DnsName]

/-- A pending record that `prepare_journaled_transaction` writes for a purpose. The callers name
    their namespaces by texts that parse to them. -/
def JournaledValue (pending : StoreNamespace) (purpose : JournalPurpose) (value : StoreValue) :
    Prop :=
  ∃ snapshot id callerOperations changes prepared,
    (∀ operation ∈ callerOperations, operation.Reparses) ∧
    prepareJournaledTransaction snapshot id purpose.text callerOperations changes = .ok prepared ∧
    .put pending (pendingKey purpose.text) .absent value ∈ prepared.transaction.operations

/-- The pending records of a snapshot are those of journaled transactions of some purposes. -/
def JournaledSnapshot (pending : StoreNamespace) (snapshot : StoreSnapshot) : Prop :=
  ∀ key value, snapshot.get pending key = some value →
    ∃ purpose : JournalPurpose, key = pendingKey purpose.text ∧ JournaledValue pending purpose value

variable {pending : StoreNamespace}

/-- A pending record decodes to a record of its purpose. -/
theorem JournaledValue.decodes {purpose : JournalPurpose} {value : StoreValue}
    (hpending : pendingNamespace = .ok pending) (h : JournaledValue pending purpose value) :
    ∃ record, PendingTransactionV1.decode value.asBytes = .ok record ∧
      record.purpose = purpose.text := by
  obtain ⟨snapshot, id, callerOperations, changes, prepared, hcaller, hprepared, hput⟩ := h
  obtain ⟨tag, record, bytes, htag, hencode, hpurpose, hplanned, hinternal⟩ :=
    prepareJournaledTransaction_eq_ok hprepared hcaller
  obtain rfl : pending = tag := Except.ok.inj (hpending.symm.trans htag)
  -- The transaction has one operation on its record.
  obtain ⟨internal, -, hnodup, htransaction⟩ := prepareInternalTransaction_eq_ok hinternal
  have hmem : StoreOperation.put pending (pendingKey purpose.text) .absent ⟨bytes⟩
      ∈ record.plannedOperations ++ [.put pending (pendingKey purpose.text) .absent ⟨bytes⟩]
        ++ [putMarker internal record.transaction] := by simp
  rw [htransaction] at hput
  have hsame := List.inj_on_of_nodup_map hnodup hput hmem rfl
  cases hsame
  exact ⟨record, PendingTransactionV1.decode_of_encode hplanned hencode, hpurpose⟩

/-- The scan goes on only while the keys are that of the purpose. -/
theorem key_eq_of_discoverPending {snapshot : StoreSnapshot} {purpose : Bytes}
    {found : Option (StoreValue × PendingTransactionV1)}
    (hpending : pendingNamespace = .ok pending) (h : discoverPending snapshot purpose = .ok found) :
    ∀ entry ∈ snapshot.scan pending purpose, entry.key = pendingKey purpose := by
  obtain ⟨-, -, h⟩ := Result.bind_eq_ok.mp h
  rw [hpending, Result.ok_bind] at h
  refine (Except.foldlM_forall (P := fun _ => True) ?_ trivial h).2
  intro found entry _ next _ hnext
  refine ⟨trivial, ?_⟩
  by_contra hother
  simp [discoverEntry, hother] at hnext

/-- What the scan of a purpose finds where no other key has its prefix. -/
theorem discoverPending_of_key_eq {snapshot : StoreSnapshot} {purpose : Bytes}
    (hpending : pendingNamespace = .ok pending) (hvalid : validatePurpose purpose = .ok ())
    (hkeys : ∀ entry ∈ snapshot.scan pending purpose, entry.key = pendingKey purpose) :
    snapshot.get pending (pendingKey purpose) = none ∧
      discoverPending snapshot purpose = .ok none ∨
    ∃ value, snapshot.get pending (pendingKey purpose) = some value ∧
      discoverPending snapshot purpose =
        discoverEntry pending purpose none ⟨pending, pendingKey purpose, value⟩ := by
  have hsorted := pairwise_scan snapshot pending purpose
  have hmem : ∀ value, snapshot.get pending (pendingKey purpose) = some value →
      ⟨pending, pendingKey purpose, value⟩ ∈ snapshot.scan pending purpose :=
    fun value hvalue => mem_scan.mpr ⟨hvalue, rfl, List.prefix_rfl⟩
  have hscan : discoverPending snapshot purpose =
      (snapshot.scan pending purpose).foldlM (discoverEntry pending purpose) none := by
    rw [discoverPending, hvalid, Result.ok_bind, hpending, Result.ok_bind]
    rfl
  rw [hscan]
  cases hentries : snapshot.scan pending purpose with
  | nil =>
    left
    refine ⟨?_, rfl⟩
    cases hvalue : snapshot.get pending (pendingKey purpose) with
    | none => rfl
    | some value =>
      have hentry := hmem value hvalue
      rw [hentries] at hentry
      cases hentry
  | cons entry rest =>
    right
    rw [hentries] at hkeys hsorted
    obtain ⟨hvalue, htag, -⟩ := mem_scan.mp (hentries ▸ List.mem_cons_self ..)
    have hkey := hkeys entry (List.mem_cons_self ..)
    -- The keys ascend, so there is no second entry.
    cases rest with
    | nil =>
      rw [htag, hkey] at hvalue
      have hentry : entry = ⟨pending, pendingKey purpose, entry.value⟩ := by rw [← htag, ← hkey]
      refine ⟨entry.value, hvalue, ?_⟩
      rw [← hentry, List.foldlM_cons]
      cases discoverEntry pending purpose none entry <;> rfl
    | cons other rest =>
      have hless := (List.pairwise_cons.mp hsorted).1 other (List.mem_cons_self ..)
      rw [hkey, hkeys other (by simp)] at hless
      exact absurd hless (lt_irrefl _)

/-- `discover_pending` answers with the record of the purpose, or `None` if there is none. -/
def DiscoversOwn (pending : StoreNamespace) (snapshot : StoreSnapshot) (purpose : JournalPurpose) :
    Prop :=
  ∃ found, discoverPending snapshot purpose.text = .ok found ∧
    found.map Prod.fst = snapshot.get pending (pendingKey purpose.text) ∧
    ∀ value record, found = some (value, record) →
      PendingTransactionV1.decode value.asBytes = .ok record ∧ record.purpose = purpose.text

/-- A pending deletion of a key whose handle extends that of the purpose. -/
def ExtendedBy (pending : StoreNamespace) (snapshot : StoreSnapshot) (purpose : JournalPurpose) :
    Prop :=
  ∃ handle longer, purpose = .keyDeletion handle ∧ handle.asBytes <+: longer.asBytes ∧
    handle ≠ longer ∧
    (snapshot.get pending (pendingKey (JournalPurpose.keyDeletion longer).text)).isSome = true

/-- Whatever journals of whatever purposes are pending: the discovery of a purpose answers with its
    own record exactly if its text is valid and no pending deletion has a handle that properly
    extends the handle of the purpose. -/
theorem journals_independent_iff {pending : StoreNamespace} {snapshot : StoreSnapshot}
    (hpending : pendingNamespace = .ok pending) (hjournals : JournaledSnapshot pending snapshot)
    (purpose : JournalPurpose) :
    DiscoversOwn pending snapshot purpose ↔
      validatePurpose purpose.text = .ok () ∧ ¬ ExtendedBy pending snapshot purpose := by
  constructor
  · intro ⟨found, hfound, _⟩
    refine ⟨(Result.bind_eq_ok.mp hfound).choose_spec.1, ?_⟩
    intro ⟨handle, longer, hpurpose, hprefix, hne, hsome⟩
    obtain ⟨value, hvalue⟩ := Option.isSome_iff_exists.mp hsome
    have hextends : purpose.text <+: (JournalPurpose.keyDeletion longer).text :=
      JournalPurpose.text_isPrefix_iff.mpr (Or.inr ⟨handle, longer, hpurpose, rfl, hprefix⟩)
    have hkey := key_eq_of_discoverPending hpending hfound
      ⟨pending, pendingKey (JournalPurpose.keyDeletion longer).text, value⟩
      (mem_scan.mpr ⟨hvalue, rfl, hextends⟩)
    have htext : (JournalPurpose.keyDeletion longer).text = purpose.text :=
      congrArg StoreKey.asBytes hkey
    have hsame := JournalPurpose.text_inj htext
    rw [hpurpose] at hsame
    cases hsame
    exact hne rfl
  · intro ⟨hvalid, halone⟩
    have hkeys : ∀ entry ∈ snapshot.scan pending purpose.text,
        entry.key = pendingKey purpose.text := by
      intro entry hentry
      obtain ⟨hvalue, htag, hprefix⟩ := mem_scan.mp hentry
      rw [htag] at hvalue
      obtain ⟨other, hkey, -⟩ := hjournals entry.key entry.value hvalue
      rw [hkey] at hprefix hvalue ⊢
      cases JournalPurpose.text_isPrefix_iff.mp hprefix with
      | inl heq => rw [heq]
      | inr hextends =>
        obtain ⟨handle, longer, hpurpose, hother, hhandle⟩ := hextends
        by_cases hsame : handle = longer
        · rw [hpurpose, hother, hsame]
        · rw [hother] at hvalue
          exact absurd ⟨handle, longer, hpurpose, hhandle, hsame, by rw [hvalue]; rfl⟩ halone
    cases discoverPending_of_key_eq hpending hvalid hkeys with
    | inl hnone => exact ⟨none, hnone.2, hnone.1.symm, nofun⟩
    | inr hsome =>
      obtain ⟨value, hvalue, hdiscover⟩ := hsome
      obtain ⟨other, hkey, hjournaled⟩ := hjournals _ value hvalue
      obtain rfl := JournalPurpose.text_inj (congrArg StoreKey.asBytes hkey)
      obtain ⟨record, hdecode, hpurpose⟩ := hjournaled.decodes hpending
      have hentry : discoverEntry pending purpose.text none
          ⟨pending, pendingKey purpose.text, value⟩ = .ok (some (value, record)) := by
        simp [discoverEntry, hdecode, hpurpose]
      refine ⟨some (value, record), hdiscover.trans hentry, hvalue.symm, ?_⟩
      intro value' record' hsome
      cases hsome
      exact ⟨hdecode, hpurpose⟩

/-- The cleanup of a purpose fails where its discovery fails. -/
theorem cleanupPending_of_discover {pending : StoreNamespace} {snapshot : StoreSnapshot}
    (hpending : pendingNamespace = .ok pending) {purpose : Bytes} {error : Error}
    (h : discoverPending snapshot purpose = .error error) (operationId : TransactionId) :
    cleanupPending snapshot purpose operationId = .error error := by
  unfold cleanupPending
  cases hvalid : validatePurpose purpose with
  | error other =>
    rw [discoverPending, hvalid] at h
    obtain rfl : other = error := Except.error.inj h
    rfl
  | ok _ =>
    rw [hpending, h]
    rfl

end Discovery

/-! ## Two deletions -/

/-- The handles of two keys, the longer one an extension of the other. -/
def shortHandle : KeyHandle := .ofByte 1
def longHandle : KeyHandle := ⟨[1, 2], by decide⟩

/-- A snapshot with the pending record of one journaled deletion. -/
theorem exists_journaledDeletion :
    letI := DnsName.hostNames
    ∃ snapshot value, pendingNamespace = .ok journalTag ∧ JournaledSnapshot journalTag snapshot ∧
      snapshot.entries = SortedMap.empty.insert
        ⟨journalTag, pendingKey (JournalPurpose.keyDeletion longHandle).text⟩ value := by
  let _ := DnsName.hostNames
  obtain ⟨prepared, hprepared⟩ : ∃ prepared, prepareJournaledTransaction emptySnapshot default
      (JournalPurpose.keyDeletion longHandle).text [] [] = .ok prepared :=
    Result.exists_of_isSome_toOption (by decide +kernel)
  have hpending : pendingNamespace = .ok journalTag := by decide
  obtain ⟨tag, record, bytes, htag, -, -, -, hinternal⟩ :=
    prepareJournaledTransaction_eq_ok hprepared (fun _ h => nomatch h)
  obtain rfl : journalTag = tag := Except.ok.inj (hpending.symm.trans htag)
  obtain ⟨internal, -, -, htransaction⟩ := prepareInternalTransaction_eq_ok hinternal
  refine ⟨⟨.ofGeneration 0, SortedMap.empty.insert _ ⟨bytes⟩⟩, ⟨bytes⟩, hpending, ?_, rfl⟩
  intro key value hvalue
  rw [StoreSnapshot.get, SortedMap.get_insert] at hvalue
  split at hvalue
  · rename_i hkey
    cases hvalue
    cases hkey
    refine ⟨.keyDeletion longHandle, rfl, emptySnapshot, default, [], [], prepared,
      (fun _ h => nomatch h), hprepared, ?_⟩
    rw [htransaction]
    simp
  · cases hvalue

/-- Each of the purposes that the pending deletion does not extend finds its own record. -/
theorem genesis_beside_deletion :
    letI := DnsName.hostNames
    ∃ snapshot, JournaledSnapshot journalTag snapshot ∧
      DiscoversOwn journalTag snapshot .clusterGenesis ∧
      DiscoversOwn journalTag snapshot (.keyDeletion longHandle) := by
  let _ := DnsName.hostNames
  obtain ⟨snapshot, value, hpending, hjournals, hentries⟩ := exists_journaledDeletion
  refine ⟨snapshot, hjournals, (journals_independent_iff hpending hjournals _).mpr ⟨by decide, ?_⟩,
    (journals_independent_iff hpending hjournals _).mpr ⟨by decide, ?_⟩⟩
  · intro ⟨_, _, hpurpose, _⟩
    cases hpurpose
  · intro ⟨_, longer, hpurpose, hprefix, hne, hsome⟩
    cases hpurpose
    rw [StoreSnapshot.get, hentries, SortedMap.get_insert] at hsome
    split at hsome
    · rename_i hkey
      have htext : (JournalPurpose.keyDeletion longer).text =
          (JournalPurpose.keyDeletion longHandle).text :=
        congrArg (fun key => key.key.asBytes) hkey
      cases JournalPurpose.text_inj htext
      exact hne rfl
    · cases hsome

/-- Without a record of its own, the deletion of the shorter handle finds corruption. -/
theorem deletion_disturbed :
    letI := DnsName.hostNames
    ∃ snapshot, JournaledSnapshot journalTag snapshot ∧
      validatePurpose (JournalPurpose.keyDeletion shortHandle).text = .ok () ∧
      ¬ DiscoversOwn journalTag snapshot (.keyDeletion shortHandle) := by
  let _ := DnsName.hostNames
  obtain ⟨snapshot, value, hpending, hjournals, hentries⟩ := exists_journaledDeletion
  refine ⟨snapshot, hjournals, by decide, ?_⟩
  intro ⟨found, hfound, _⟩
  have hextends : (JournalPurpose.keyDeletion shortHandle).text <+:
      (JournalPurpose.keyDeletion longHandle).text := by decide
  have hkey := key_eq_of_discoverPending hpending hfound
    ⟨journalTag, pendingKey (JournalPurpose.keyDeletion longHandle).text, value⟩
    (mem_scan.mpr ⟨by rw [StoreSnapshot.get, hentries, SortedMap.get_insert_self], rfl, hextends⟩)
  have htext : (JournalPurpose.keyDeletion longHandle).text =
      (JournalPurpose.keyDeletion shortHandle).text := congrArg StoreKey.asBytes hkey
  exact absurd htext (by decide)

end Radiata
