import Radiata.ForStd.Rounds
import Radiata.Native.SyncLane
import Radiata.Spec.PagingCorrect

/-!
# The rounds of the anti-entropy driver

Over records that do not change the pages of one lane are a row: each is emitted at the cursor of
the one before, and together they hold every record. The cursor of the driver walks the row in
rounds. In the middle of a round the next page is due at every tick, and between two rounds nothing
is due for at most 32 ticks.

## Key results

- `exists_pageRow`: the pages of a lane hold all its records
- `PageCursor.turn_refines`: a tick is a turn of a walker over the row
- `PageCursor.walk_covers`: ticks over an unchanged lane take every page
-/

namespace Radiata

/-! ## Rows of pages -/

section Pages

variable {τ : Type}

variable {scan : List (Bytes × Bytes)}

/-- A page depends on its entries only. -/
theorem scanLoop_congr {select select' : Bytes → Bytes → Result (Option τ)}
    (h : ∀ entry ∈ scan, select entry.1 entry.2 = select' entry.1 entry.2) (cursor : Option Bytes)
    (limit : Nat) (items : List τ) :
    scanLoop cursor limit select scan items = scanLoop cursor limit select' scan items := by
  induction scan generalizing items with
  | nil => rfl
  | cons entry scan ih =>
    obtain ⟨key, value⟩ := entry
    rw [List.forall_mem_cons] at h
    have hhead : select key value = select' key value := h.1
    simp only [scanLoop, hhead, ih h.2]

/-- A page that is not the last one is full. -/
theorem limit_le_of_next {select : Bytes → Bytes → Result (Option τ)} {cursor : Option Bytes}
    {limit : Nat} {items : List τ} {page : Paged τ}
    (h : scanLoop cursor limit select scan items = .ok page) (hnext : page.next.isSome = true) :
    limit ≤ page.items.length := by
  induction scan generalizing items with
  | nil =>
    cases h
    cases hnext
  | cons entry scan ih =>
    obtain ⟨key, value⟩ := entry
    simp only [scanLoop] at h
    split at h
    · exact ih h
    · obtain ⟨selected, -, h⟩ := Result.bind_eq_ok.mp h
      cases selected with
      | none => exact ih h
      | some item =>
        dsimp only at h
        split at h
        · rename_i hfull
          cases h
          exact hfull
        · exact ih h

end Pages

section Rows

variable {ρ : Type} (kind : PageKind ρ)

/-- The page that a lane emits at a cursor. -/
def emitted (scan : List (Bytes × Bytes)) (cursor : Option Bytes) : Result (SyncPage ρ) :=
  SyncPage.emit kind scan cursor defaultPageLimit

/-- The pages of a lane from a cursor to the end. -/
inductive PageRow (scan : List (Bytes × Bytes)) : Option Bytes → List (SyncPage ρ) → Prop where
  | last (cursor : Option Bytes) (page : SyncPage ρ) : emitted kind scan cursor = .ok page →
      page.cursor = none → PageRow scan cursor [page]
  | more (cursor : Option Bytes) (page : SyncPage ρ) (key : Bytes) (pages : List (SyncPage ρ)) :
      emitted kind scan cursor = .ok page → page.cursor = some key → PageRow scan (some key) pages →
      PageRow scan cursor (page :: pages)

/-- Every stored record decodes. -/
def Decodes (scan : List (Bytes × Bytes)) : Prop :=
  ∀ entry ∈ scan, ∃ record, kind.decodeRecord entry.2 = .ok record

/-- The records of a scan. -/
def recordsOf (scan : List (Bytes × Bytes)) : List ρ :=
  selected (fun _ bytes => (kind.decodeRecord bytes).toOption) scan

variable {kind} {scan : List (Bytes × Bytes)}

theorem Decodes.select (h : Decodes kind scan) : ∀ entry ∈ scan,
    (some <$> kind.decodeRecord entry.2 : Result (Option ρ)) =
      .ok (kind.decodeRecord entry.2).toOption := by
  intro entry hentry
  obtain ⟨record, hrecord⟩ := h entry hentry
  rw [hrecord]
  rfl

variable {cursor : Option Bytes}

/-- A page of the paging loop is a page of the lane. -/
theorem emitted_of_scanPaged (h : Decodes kind scan) {page : Paged ρ}
    (hpage : scanPaged scan cursor 16
      (fun _ bytes => .ok (kind.decodeRecord bytes).toOption) = .ok page)
    (hlength : page.items.length ≤ 16) :
    ∃ sent, emitted kind scan cursor = .ok sent ∧ sent.records = page.items ∧
      sent.cursor = page.next ∧ (page.next.isSome = true → 16 ≤ page.items.length) := by
  have hfull : page.next.isSome = true → 16 ≤ page.items.length := limit_le_of_next hpage
  have hsame : scanPaged scan cursor (max 1 (min defaultPageLimit maxPageRecords))
      (fun _ bytes => some <$> kind.decodeRecord bytes) = .ok page := by
    rw [← hpage]
    exact scanLoop_congr h.select cursor 16 []
  have hbounded : page.items.length ≤ maxPageRecords := by
    simp only [maxPageRecords]
    omega
  have hcontinued : ¬ (page.items.length = 0 ∧ page.next.isSome = true) := by
    intro ⟨hempty, hnext⟩
    have := hfull hnext
    omega
  refine ⟨⟨page.items, page.next, hbounded, hcontinued⟩, ?_, rfl, rfl, hfull⟩
  unfold emitted SyncPage.emit
  rw [hsame, Result.ok_bind, SyncPage.new, dif_pos hbounded, dif_pos hcontinued]

/-- The pages of a stream are a row, in which all but the last are full. -/
theorem exists_row_of_stream (h : Decodes kind scan) {pages : List (Paged ρ)}
    (hstream : PageStream (fun _ bytes => .ok (kind.decodeRecord bytes).toOption) 16 scan cursor pages)
    (hlengths : ∀ page ∈ pages, page.items.length ≤ 16) :
    ∃ row, PageRow kind scan cursor row ∧
      row.flatMap SyncPage.records = pages.flatMap Paged.items ∧
      16 * row.length ≤ (row.flatMap SyncPage.records).length + 16 := by
  induction hstream with
  | last cursor page hpage hnext =>
    obtain ⟨sent, hsent, hrecords, hcursor, -⟩ := emitted_of_scanPaged h hpage
      (hlengths page (List.mem_singleton_self page))
    refine ⟨[sent], .last cursor sent hsent (hcursor.trans hnext), by simp [hrecords], ?_⟩
    simp
  | more cursor page key pages hpage hnext _ ih =>
    rw [List.forall_mem_cons] at hlengths
    obtain ⟨sent, hsent, hrecords, hcursor, hfull⟩ := emitted_of_scanPaged h hpage hlengths.1
    obtain ⟨row, hrow, hitems, hcount⟩ := ih hlengths.2
    refine ⟨sent :: row, .more cursor sent key row hsent (hcursor.trans hnext) hrow,
      by simp [hrecords, hitems], ?_⟩
    have hsixteen := hfull (by rw [hnext]; rfl)
    rw [← hrecords] at hsixteen
    simp only [List.flatMap_cons, List.length_cons, List.length_append]
    omega

/-- In key order the entries behind a cursor are the last ones. -/
theorem exists_before (hordered : KeyOrdered scan) (cursor : Option Bytes) :
    ∃ before, scan = before ++ behind cursor scan := by
  induction scan with
  | nil => exact ⟨[], rfl⟩
  | cons entry scan ih =>
    have hrest : KeyOrdered scan := (List.pairwise_cons.mp hordered).2
    cases hskip : skipped cursor entry.1 with
    | true =>
      obtain ⟨before, hbefore⟩ := ih hrest
      refine ⟨entry :: before, ?_⟩
      rw [behind, List.filter_cons_of_neg (by simp [hskip]), List.cons_append]
      exact congrArg _ hbefore
    | false =>
      refine ⟨[], ?_⟩
      rw [behind, List.filter_cons_of_pos (by simp [hskip]), List.nil_append]
      exact congrArg _ (behind_eq_self hordered hskip).symm

/-- The pages from a cursor hold the records behind it, and there are not too many. -/
theorem exists_pageRow (hordered : KeyOrdered scan) (h : Decodes kind scan) (cursor : Option Bytes) :
    ∃ pages, PageRow kind scan cursor pages ∧
      pages.flatMap SyncPage.records = recordsOf kind (behind cursor scan) ∧
      pages.length ≤ scan.length / 16 + 1 := by
  obtain ⟨before, hbefore⟩ := exists_before hordered cursor
  have hselect : ∀ key value : Bytes,
      (fun (_ bytes : Bytes) => (.ok (kind.decodeRecord bytes).toOption : Result (Option ρ))) key value =
        .ok ((fun (_ bytes : Bytes) => (kind.decodeRecord bytes).toOption) key value) := by
    intro _ _
    rfl
  obtain ⟨pages, hstream, hitems, hlengths⟩ := exists_pageStream hselect (show 1 ≤ 16 by decide)
    hordered scan.length cursor before hbefore (List.length_filter_le _ _)
  obtain ⟨row, hrow, hrecords, hcount⟩ := exists_row_of_stream h hstream hlengths
  have hfew : (row.flatMap SyncPage.records).length ≤ scan.length := by
    rw [hrecords, hitems]
    exact (List.length_filterMap_le _ _).trans (List.length_filter_le _ _)
  exact ⟨row, hrow, hrecords.trans hitems, by omega⟩

/-- The cursor of a lane stands before the pages that are left of its round. -/
inductive Remaining (kind : PageKind ρ) (scan : List (Bytes × Bytes)) :
    Option Bytes → List (SyncPage ρ) → Prop where
  | done : Remaining kind scan none []
  | within (key : Bytes) (pages : List (SyncPage ρ)) : PageRow kind scan (some key) pages →
      Remaining kind scan (some key) pages

variable {pages : List (SyncPage ρ)}

/-- A row starts with the page at its cursor and goes on behind it. -/
theorem PageRow.split (h : PageRow kind scan cursor pages) :
    ∃ page rest, emitted kind scan cursor = .ok page ∧
      pages = page :: rest ∧ Remaining kind scan page.cursor rest := by
  cases h with
  | last _ page hpage hnext =>
    refine ⟨page, [], hpage, rfl, ?_⟩
    rw [hnext]
    exact .done
  | more _ page key rest hpage hnext hrest =>
    refine ⟨page, rest, hpage, rfl, ?_⟩
    rw [hnext]
    exact .within key rest hrest

theorem PageRow.ne_nil (h : PageRow kind scan cursor pages) : pages ≠ [] := by
  obtain ⟨page, rest, -, rfl, -⟩ := h.split
  exact List.cons_ne_nil page rest

/-- Every page of a row is emitted at some cursor. -/
theorem PageRow.forall_mem (h : PageRow kind scan cursor pages) {p : SyncPage ρ → Prop}
    (hp : ∀ cursor page, emitted kind scan cursor = .ok page → p page) :
    ∀ page ∈ pages, p page := by
  induction h with
  | last cursor page hpage =>
    intro found hfound
    rw [List.mem_singleton.mp hfound]
    exact hp cursor page hpage
  | more cursor page key pages hpage _ _ ih =>
    rw [List.forall_mem_cons]
    exact ⟨hp cursor page hpage, ih⟩

theorem Remaining.forall_mem (h : Remaining kind scan cursor pages) {p : SyncPage ρ → Prop}
    (hp : ∀ cursor page, emitted kind scan cursor = .ok page → p page) :
    ∀ page ∈ pages, p page := by
  cases h with
  | done => exact List.forall_mem_nil p
  | within _ _ hrow => exact hrow.forall_mem hp

end Rows

/-! ## Rounds -/

section Walk

variable [DefaultHasher] {ρ : Type} (kind : PageKind ρ) (scan : List (Bytes × Bytes))

namespace PageCursor

/-- Whether a tick would start a round at once. -/
def kicked (cursor : PageCursor) (peersFp : UInt64) (page : SyncPage ρ) : Bool :=
  page.fingerprint kind != cursor.pageFingerprint || peersFp != cursor.peersFingerprint

/-- The cursor that a tick leaves after its page was sent or not. -/
def after (cursor : PageCursor) (peersFp : UInt64) (page : SyncPage ρ) : PageCursor :=
  let turned := cursor.turn (page.fingerprint kind) peersFp page.cursor
  if cursor.due (page.fingerprint kind) peersFp then turned.sent else turned.rested

/-- The page that is due in a tick. -/
def taken (cursor : PageCursor) (peersFp : UInt64) (page : SyncPage ρ) : Option (SyncPage ρ) :=
  if cursor.due (page.fingerprint kind) peersFp then some page else none

/-- The cursor is a walker over the pages of its lane. -/
structure Walks (cursor : PageCursor) (state : Rounds.State (SyncPage ρ)) : Prop where
  remaining : Remaining kind scan cursor.page state.rest
  idle : state.idle = cursor.ticksSinceSend.toNat

variable {kind scan}

variable {cursor : PageCursor} {page : SyncPage ρ}

theorem due_start {peersFp : UInt64} (hnone : cursor.page = none) :
    cursor.due (page.fingerprint kind) peersFp = true ↔
      cursor.kicked kind peersFp page = true ∨ 32 ≤ cursor.ticksSinceSend.toNat := by
  have hticks : pageResendTicks ≤ cursor.ticksSinceSend ↔ 32 ≤ cursor.ticksSinceSend.toNat :=
    UInt32.le_iff_toNat_le
  simp [due, hnone, kicked, hticks]

variable {state : Rounds.State (SyncPage ρ)}

variable {pages : List (SyncPage ρ)}

/-- A tick is a turn of the walker. -/
theorem turn_refines (hrow : PageRow kind scan none pages) (h : cursor.Walks kind scan state)
    (peersFp : UInt64) :
    ∃ page, emitted kind scan cursor.page = .ok page ∧ ∃ state',
      Rounds.turn pages 32 state (cursor.kicked kind peersFp page) =
        (cursor.taken kind peersFp page, state') ∧
      (cursor.after kind peersFp page).Walks kind scan state' := by
  obtain ⟨rest, idle⟩ := state
  obtain ⟨hremaining, hidle⟩ := h
  simp only at hremaining hidle
  obtain ⟨fingerprint, peersSeen, ticks, at'⟩ := cursor
  cases hremaining with
  | done =>
    obtain ⟨page, rest, hpage, rfl, hrest⟩ := hrow.split
    refine ⟨page, hpage, ?_⟩
    by_cases hdue : due ⟨fingerprint, peersSeen, ticks, none⟩ (page.fingerprint kind)
        peersFp = true
    · -- a round starts with this page
      refine ⟨⟨rest, 0⟩, ?_, ?_⟩
      · rw [Rounds.turn_start (by rw [hidle]; exact (due_start rfl).mp hdue), taken, if_pos hdue]
        rfl
      · constructor
        · simpa [after, hdue, turn, sent] using hrest
        · simp [after, hdue, sent]
    · have hquiet := mt (due_start rfl).mpr hdue
      rw [not_or, Bool.not_eq_true, Nat.not_le] at hquiet
      have hticks : ticks.toNat < 32 := hquiet.2
      refine ⟨⟨[], idle + 1⟩, ?_, ?_⟩
      · rw [hquiet.1, Rounds.turn_rest (by omega), taken, if_neg hdue]
      · constructor
        · simpa [after, hdue, turn, rested] using Remaining.done
        · -- the count is far from its end
          have hlast : ticks ≠ 0xFFFFFFFF := by
            intro heq
            rw [heq] at hticks
            exact absurd hticks (by decide)
          have hnext : (ticks + 1).toNat = ticks.toNat + 1 := by
            rw [UInt32.toNat_add]
            exact Nat.mod_eq_of_lt (by simpa using Nat.lt_trans (Nat.succ_lt_succ hticks) (by decide))
          simp [after, hdue, turn, rested, tickAfter, hlast, hnext, hidle]
  | within key _ hrest =>
    obtain ⟨page, rest, hpage, rfl, hbehind⟩ := hrest.split
    refine ⟨page, hpage, ⟨rest, 0⟩, ?_, ?_⟩
    · rw [Rounds.turn_cons]
      rfl
    · constructor
      · simpa [after, due, turn, sent] using hbehind
      · simp [after, due, sent]

/-- The page that a lane emits is the next one of its walker. -/
theorem Walks.next (hrow : PageRow kind scan none pages) (h : cursor.Walks kind scan state)
    (hpage : emitted kind scan cursor.page = .ok page) :
    page ∈ (state.rest ++ pages).head? := by
  obtain ⟨rest, idle⟩ := state
  have hremaining : Remaining kind scan cursor.page rest := h.remaining
  generalize cursor.page = at' at hpage hremaining
  cases hremaining with
  | done =>
    obtain ⟨page', rest, hpage', rfl, -⟩ := hrow.split
    obtain rfl : page = page' := Except.ok.inj (hpage.symm.trans hpage')
    rfl
  | within key _ hrest =>
    obtain ⟨page', rest, hpage', rfl, -⟩ := hrest.split
    obtain rfl : page = page' := Except.ok.inj (hpage.symm.trans hpage')
    rfl

end PageCursor

/-- What the ticks over an unchanged lane take; a tick sees the alive peers by their fingerprint. -/
def PageCursor.walk (kind : PageKind ρ) (scan : List (Bytes × Bytes)) :
    PageCursor → List UInt64 → List (Option (SyncPage ρ))
  | _, [] => []
  | cursor, peersFp :: rest =>
    match emitted kind scan cursor.page with
    | .error _ => none :: walk kind scan cursor rest
    | .ok page =>
      cursor.taken kind peersFp page :: walk kind scan (cursor.after kind peersFp page) rest

variable {kind scan}

theorem PageCursor.walk_cons {cursor : PageCursor} {page : SyncPage ρ}
    (hpage : emitted kind scan cursor.page = .ok page) (peersFp : UInt64) (rest : List UInt64) :
    cursor.walk kind scan (peersFp :: rest) =
      cursor.taken kind peersFp page :: (cursor.after kind peersFp page).walk kind scan rest := by
  rw [walk, hpage]

variable {state : Rounds.State (SyncPage ρ)}

/-- The cursor walks the row in rounds. -/
theorem PageCursor.walk_refines {pages : List (SyncPage ρ)} (hrow : PageRow kind scan none pages)
    (cursor : PageCursor) (h : cursor.Walks kind scan state) (peers : List UInt64) :
    ∃ kicks, kicks.length = peers.length ∧
      cursor.walk kind scan peers = Rounds.run pages 32 state kicks := by
  induction peers generalizing cursor state with
  | nil => exact ⟨[], rfl, rfl⟩
  | cons peersFp peers ih =>
    obtain ⟨page, hpage, state', hturn, hwalks⟩ := turn_refines hrow h peersFp
    obtain ⟨kicks, hlength, hrun⟩ := ih (cursor.after kind peersFp page) hwalks
    refine ⟨cursor.kicked kind peersFp page :: kicks, by simp [hlength], ?_⟩
    rw [walk_cons hpage, Rounds.run, hturn]
    exact congrArg _ hrun

omit [DefaultHasher] in
/-- Any cursor is a walker, and the rest of its round is not longer than the row may be. -/
theorem PageCursor.exists_walks (hordered : KeyOrdered scan) (h : Decodes kind scan)
    (cursor : PageCursor) :
    ∃ state, cursor.Walks kind scan state ∧ state.rest.length ≤ scan.length / 16 + 1 := by
  obtain ⟨fingerprint, peersSeen, ticks, at'⟩ := cursor
  cases at' with
  | none => exact ⟨⟨[], ticks.toNat⟩, ⟨.done, rfl⟩, Nat.zero_le _⟩
  | some key =>
    obtain ⟨pages, hrow, -, hlength⟩ := exists_pageRow hordered h (some key)
    exact ⟨⟨pages, ticks.toNat⟩, ⟨.within key pages hrow, rfl⟩, hlength⟩

/-- Ticks over an unchanged lane take every page, whatever the cursor and the peers were. -/
theorem PageCursor.walk_covers (hordered : KeyOrdered scan) (h : Decodes kind scan)
    (cursor : PageCursor) (peers : List UInt64)
    (hlength : 2 * (scan.length / 16 + 1) + 32 ≤ peers.length) :
    ∃ pages, PageRow kind scan none pages ∧
      pages.flatMap SyncPage.records = recordsOf kind scan ∧
      pages <:+: (cursor.walk kind scan peers).reduceOption ∧
      ∃ started rounds, (cursor.walk kind scan peers).reduceOption <+:
        started ++ (List.replicate rounds pages).flatten ∧ Remaining kind scan cursor.page started := by
  obtain ⟨pages, hrow, hrecords, hcount⟩ := exists_pageRow hordered h none
  rw [behind_none] at hrecords
  obtain ⟨state, hwalks, hrest⟩ := cursor.exists_walks hordered h
  obtain ⟨kicks, hkicks, hrun⟩ := cursor.walk_refines hrow hwalks peers
  refine ⟨pages, hrow, hrecords, ?_, ?_⟩
  · rw [hrun]
    exact Rounds.taken_covers hrow.ne_nil state kicks (by omega)
  · obtain ⟨rounds, hprefix⟩ : ∃ rounds, (Rounds.run pages 32 state kicks).reduceOption <+:
        state.rest ++ (List.replicate rounds pages).flatten := Rounds.taken_prefix state kicks
    rw [hrun]
    exact ⟨state.rest, rounds, hprefix, hwalks.remaining⟩

end Walk

end Radiata
