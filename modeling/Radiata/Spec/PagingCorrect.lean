import Radiata.Native.Paging

/-!
# Paging is complete, ordered and free of duplicates

A page takes the entries behind its cursor up to the entry that fills it, and its cursor
is the key of that entry. So the entries behind the new cursor are the ones the page has
not taken, and the pages of a stream are a partition of the scan into runs.

## Key results

- `scanLoop_split`: what one page takes and what it leaves
- `exists_pageStream`: every stream ends, and its pages together hold the selected entries
- `keysLoop_eq_scanLoop`: the twins agree
- `paging_complete`: the pages of a stream are a partition of the selection
-/

namespace Radiata

variable {τ : Type}

/-- The entries behind a cursor. -/
def behind (cursor : Option Bytes) (scan : List (Bytes × Bytes)) : List (Bytes × Bytes) :=
  scan.filter fun entry => !skipped cursor entry.1

@[simp] theorem behind_none (scan : List (Bytes × Bytes)) : behind none scan = scan := by
  simp [behind, skipped]

/-- A scan in key order with distinct keys. -/
def KeyOrdered (scan : List (Bytes × Bytes)) : Prop := (scan.map Prod.fst).Pairwise (· < ·)

/-- The selected entries of a scan, in its order. -/
def selected (pick : Bytes → Bytes → Option τ) (scan : List (Bytes × Bytes)) : List τ :=
  scan.filterMap fun entry => pick entry.1 entry.2

theorem selected_append (pick : Bytes → Bytes → Option τ) (scan scan' : List (Bytes × Bytes)) :
    selected pick (scan ++ scan') = selected pick scan ++ selected pick scan' :=
  List.filterMap_append

/-! ## One page -/

variable {cursor : Option Bytes} {key : Bytes}

/-- In key order an entry is behind everything that a later entry is behind of. -/
theorem skipped_eq_false_of_lt {key' : Bytes} (hlt : key < key') (h : skipped cursor key = false) :
    skipped cursor key' = false := by
  cases cursor with
  | none => rfl
  | some cursor =>
    simp only [skipped, decide_eq_false_iff_not, not_le] at h ⊢
    exact h.trans hlt

variable {scan : List (Bytes × Bytes)}

variable {value : Bytes}

/-- After the first entry behind the cursor no entry is skipped. -/
theorem behind_eq_self (hordered : KeyOrdered ((key, value) :: scan))
    (h : skipped cursor key = false) :
    behind cursor scan = scan := by
  unfold KeyOrdered at hordered
  rw [List.map_cons, List.pairwise_cons] at hordered
  refine List.filter_eq_self.mpr fun entry hentry => ?_
  have hlt := hordered.1 entry.1 (List.mem_map_of_mem hentry)
  rw [skipped_eq_false_of_lt hlt h]
  rfl

/-- The entries behind the last one that was taken are the ones that were not. -/
theorem behind_last {taken : List (Bytes × Bytes)}
    (hordered : KeyOrdered (taken ++ (key, value) :: scan)) :
    behind (some key) (taken ++ (key, value) :: scan) = scan := by
  unfold KeyOrdered at hordered
  rw [List.map_append, List.map_cons, List.pairwise_append, List.pairwise_cons] at hordered
  obtain ⟨-, ⟨hafter, -⟩, hbefore⟩ := hordered
  have htaken : behind (some key) taken = [] := by
    refine List.filter_eq_nil_iff.mpr fun entry hentry => ?_
    have hlt := hbefore entry.1 (List.mem_map_of_mem hentry) key (List.mem_cons_self ..)
    simp [skipped, hlt.le]
  have hscan : behind (some key) scan = scan := by
    refine List.filter_eq_self.mpr fun entry hentry => ?_
    have hlt := hafter entry.1 (List.mem_map_of_mem hentry)
    simp [skipped, hlt]
  unfold behind at htaken hscan ⊢
  rw [List.filter_append, htaken, List.filter_cons, hscan]
  simp [skipped]

/-- A page: either it takes everything behind the cursor, or it takes a first run that ends
    with a selected entry, which becomes the new cursor. -/
inductive PageCut (pick : Bytes → Bytes → Option τ) (limit : Nat) (items : List τ)
    (left : List (Bytes × Bytes)) : Paged τ → Prop where
  | last : (items ++ selected pick left).length ≤ limit →
      PageCut pick limit items left ⟨items ++ selected pick left, none⟩
  | more (taken scan : List (Bytes × Bytes)) (key value : Bytes) :
      left = taken ++ (key, value) :: scan → scan ≠ [] →
      (items ++ selected pick (taken ++ [(key, value)])).length ≤ limit →
      PageCut pick limit items left ⟨items ++ selected pick (taken ++ [(key, value)]), some key⟩

variable {pick : Bytes → Bytes → Option τ}

variable {limit : Nat} {left : List (Bytes × Bytes)}

/-- An entry that is left out changes nothing but the run. -/
theorem PageCut.cons_none {items : List τ} {page : Paged τ} (hpick : pick key value = none)
    (h : PageCut pick limit items left page) :
    PageCut pick limit items ((key, value) :: left) page := by
  have hselected : ∀ scan, selected pick ((key, value) :: scan) = selected pick scan := by
    intro scan
    simp [selected, hpick]
  cases h with
  | last hlength =>
    rw [← hselected left] at hlength ⊢
    exact .last hlength
  | more taken scan last lastValue hleft hscan hlength =>
    rw [← hselected (taken ++ [(last, lastValue)])] at hlength ⊢
    exact .more ((key, value) :: taken) scan last lastValue (by rw [hleft]; rfl) hscan hlength

/-- An entry that is taken goes to the front of what the rest of the page takes. -/
theorem PageCut.cons_some {items : List τ} {page : Paged τ} {item : τ}
    (hpick : pick key value = some item) (h : PageCut pick limit (items ++ [item]) left page) :
    PageCut pick limit items ((key, value) :: left) page := by
  have hselected : ∀ scan, items ++ [item] ++ selected pick scan =
      items ++ selected pick ((key, value) :: scan) := by
    intro scan
    simp [selected, hpick]
  cases h with
  | last hlength =>
    rw [hselected] at hlength ⊢
    exact .last hlength
  | more taken scan last lastValue hleft hscan hlength =>
    rw [hselected] at hlength ⊢
    exact .more ((key, value) :: taken) scan last lastValue (by rw [hleft]; rfl) hscan hlength

variable {select : Bytes → Bytes → Result (Option τ)}

/-- What one page takes of the entries behind its cursor. -/
theorem scanLoop_split (hselect : ∀ key value, select key value = .ok (pick key value))
    (cursor : Option Bytes) (scan : List (Bytes × Bytes)) (hordered : KeyOrdered scan)
    (items : List τ) (hroom : items.length < limit) :
    ∃ page, scanLoop cursor limit select scan items = .ok page ∧
      PageCut pick limit items (behind cursor scan) page := by
  induction scan generalizing items with
  | nil =>
    refine ⟨⟨items, none⟩, rfl, ?_⟩
    have hcut : (items ++ selected pick []).length ≤ limit →
        PageCut pick limit items [] ⟨items ++ selected pick [], none⟩ := PageCut.last
    simp only [selected, List.filterMap_nil, List.append_nil] at hcut
    exact hcut hroom.le
  | cons entry scan ih =>
    obtain ⟨key, value⟩ := entry
    have hrest : KeyOrdered scan := (List.pairwise_cons.mp hordered).2
    unfold scanLoop
    by_cases hskip : skipped cursor key = true
    · rw [if_pos hskip]
      have hbehind : behind cursor ((key, value) :: scan) = behind cursor scan := by
        simp [behind, hskip]
      rw [hbehind]
      exact ih hrest items hroom
    · rw [if_neg hskip, hselect, Result.ok_bind]
      have hkept : skipped cursor key = false := Bool.eq_false_iff.mpr hskip
      have hscan := behind_eq_self hordered hkept
      have hbehind : behind cursor ((key, value) :: scan) = (key, value) :: scan := by
        rw [behind, List.filter_cons, hkept]
        exact congrArg (List.cons (key, value)) hscan
      rw [hscan] at ih
      rw [hbehind]
      cases hpick : pick key value with
      | none =>
        obtain ⟨page, hpage, hcut⟩ := ih hrest items hroom
        exact ⟨page, hpage, hcut.cons_none hpick⟩
      | some item =>
        dsimp only
        by_cases hfull : (items ++ [item]).length ≥ limit
        · rw [if_pos hfull]
          have hlength : (items ++ [item]).length ≤ limit := by
            rw [List.length_append, List.length_singleton]
            omega
          have htaken : items ++ selected pick [(key, value)] = items ++ [item] := by
            simp [selected, hpick]
          cases hempty : scan with
          | nil =>
            refine ⟨⟨items ++ [item], none⟩, rfl, ?_⟩
            rw [← htaken] at hlength ⊢
            exact .last hlength
          | cons next rest =>
            refine ⟨⟨items ++ [item], some key⟩, rfl, ?_⟩
            rw [← htaken] at hlength ⊢
            exact .more [] (next :: rest) key value rfl (List.cons_ne_nil next rest) hlength
        · rw [if_neg hfull]
          obtain ⟨page, hpage, hcut⟩ := ih hrest (items ++ [item]) (by omega)
          exact ⟨page, hpage, hcut.cons_some hpick⟩

/-! ## Following the cursor -/

/-- The pages of a stream: each resumes from the cursor of the one before, until a page has
    none. -/
inductive PageStream (select : Bytes → Bytes → Result (Option τ)) (limit : Nat)
    (scan : List (Bytes × Bytes)) : Option Bytes → List (Paged τ) → Prop where
  | last (cursor : Option Bytes) (page : Paged τ) : scanPaged scan cursor limit select = .ok page →
      page.next = none → PageStream select limit scan cursor [page]
  | more (cursor : Option Bytes) (page : Paged τ) (key : Bytes) (pages : List (Paged τ)) :
      scanPaged scan cursor limit select = .ok page → page.next = some key →
      PageStream select limit scan (some key) pages →
      PageStream select limit scan cursor (page :: pages)

/-- The stream from a cursor is determined. -/
theorem PageStream.unique {pages pages' : List (Paged τ)}
    (h : PageStream select limit scan cursor pages)
    (h' : PageStream select limit scan cursor pages') : pages = pages' := by
  induction h generalizing pages' with
  | last cursor page hpage hnext =>
    cases h' with
    | last _ page' hpage' hnext' =>
      rw [hpage] at hpage'
      cases hpage'
      rfl
    | more _ page' key rest hpage' hnext' hrest =>
      rw [hpage] at hpage'
      cases hpage'
      rw [hnext] at hnext'
      cases hnext'
  | more cursor page key rest hpage hnext hrest ih =>
    cases h' with
    | last _ page' hpage' hnext' =>
      rw [hpage] at hpage'
      cases hpage'
      rw [hnext] at hnext'
      cases hnext'
    | more _ page' key' rest' hpage' hnext' hrest' =>
      rw [hpage] at hpage'
      cases hpage'
      rw [hnext] at hnext'
      cases hnext'
      rw [ih hrest']

/-- The stream over the entries that are left: it ends, its pages hold the selected ones,
    and none is too long. -/
theorem exists_pageStream (hselect : ∀ key value, select key value = .ok (pick key value))
    (hlimit : 1 ≤ limit) (hordered : KeyOrdered scan) (count : Nat) (cursor : Option Bytes)
    (before : List (Bytes × Bytes)) (hscan : scan = before ++ behind cursor scan)
    (hcount : (behind cursor scan).length ≤ count) :
    ∃ pages, PageStream select limit scan cursor pages ∧
      pages.flatMap Paged.items = selected pick (behind cursor scan) ∧
      ∀ page ∈ pages, page.items.length ≤ limit := by
  induction count generalizing cursor before with
  | zero =>
    -- nothing is left, so the page is the last one
    obtain ⟨page, hpage, hcut⟩ := scanLoop_split hselect cursor scan hordered [] hlimit
    have hempty : behind cursor scan = [] := List.length_eq_zero_iff.mp (Nat.le_zero.mp hcount)
    rw [hempty] at hcut ⊢
    cases hcut with
    | last hlength => exact ⟨_, .last cursor _ hpage rfl, by simp, by simpa using hlength⟩
    | more taken rest key value hleft => simp at hleft
  | succ count ih =>
    obtain ⟨page, hpage, hcut⟩ := scanLoop_split hselect cursor scan hordered [] hlimit
    generalize hbehind : behind cursor scan = left at hcut
    cases hcut with
    | last hlength => exact ⟨_, .last cursor _ hpage rfl, by simp, by simpa using hlength⟩
    | more taken rest key value hleft hrest hlength =>
      have hwhole : scan = (before ++ taken) ++ (key, value) :: rest := by
        rw [hscan, hbehind, hleft, List.append_assoc]
      have hnext : behind (some key) scan = rest := by
        rw [hwhole] at hordered ⊢
        exact behind_last hordered
      obtain ⟨pages, hstream, hitems, hpages⟩ := ih (some key)
        (before ++ taken ++ [(key, value)]) (by rw [hnext, hwhole]; simp) (by
          rw [hbehind, hleft, List.length_append, List.length_cons] at hcount
          rw [hnext]
          omega)
      refine ⟨_ :: pages, .more cursor _ key pages hpage rfl hstream, ?_, ?_⟩
      · rw [List.flatMap_cons, hitems, hnext, hleft, List.nil_append, ← selected_append,
          List.append_assoc, List.singleton_append]
      · intro page hmem
        rcases List.mem_cons.mp hmem with rfl | hmem
        · exact hlength
        · exact hpages page hmem

/-! ## The twin -/

/-- The loops agree on entries that are all selected. -/
theorem keysLoop_eq_scanLoop (decode : Bytes → Bytes → τ) (cursor : Option Bytes) (limit : Nat)
    (scan : List (Bytes × Bytes)) (items : List τ) :
    scanLoop cursor limit (fun key value => .ok (some (decode key value))) scan items =
      .ok (keysLoop cursor limit (scan.map fun entry => (entry.1, decode entry.1 entry.2)) items) := by
  induction scan generalizing items with
  | nil => rfl
  | cons entry scan ih =>
    obtain ⟨key, value⟩ := entry
    rw [List.map_cons, scanLoop, keysLoop]
    by_cases hskip : skipped cursor key = true
    · rw [if_pos hskip, if_pos hskip]
      exact ih items
    · rw [if_neg hskip, if_neg hskip, Result.ok_bind]
      dsimp only
      by_cases hfull : (items ++ [decode key value]).length ≥ limit
      · rw [if_pos hfull, if_pos hfull, List.head?_map, Option.isSome_map]
        rfl
      · rw [if_neg hfull, if_neg hfull]
        exact ih _

/-- Following the cursor from the start ends, and the pages hold exactly the selected
    entries in key order, each once; the twin pages the same way. -/
theorem paging_complete (select : Bytes → Bytes → Result (Option τ))
    (pick : Bytes → Bytes → Option τ) (hselect : ∀ key value, select key value = .ok (pick key value))
    (limit : Nat) (hlimit : 1 ≤ limit) (scan : List (Bytes × Bytes)) (hordered : KeyOrdered scan) :
    (∃ pages, PageStream select limit scan none pages) ∧
      (∀ pages, PageStream select limit scan none pages →
        pages.flatMap Paged.items = selected pick scan ∧ ∀ page ∈ pages, page.items.length ≤ limit) ∧
      ∀ (decode : Bytes → Bytes → τ) (entries : List (Bytes × Bytes)) (cursor : Option Bytes)
        (limit : Nat),
        scanPaged entries cursor limit (fun key value => .ok (some (decode key value))) =
          .ok (pageKeys (entries.map fun entry => (entry.1, decode entry.1 entry.2)) cursor limit) := by
  obtain ⟨pages, hstream, hitems, hlengths⟩ := exists_pageStream hselect hlimit hordered scan.length none
    [] (by simp) (by simp)
  rw [behind_none] at hitems
  refine ⟨⟨pages, hstream⟩, ?_, ?_⟩
  · intro pages' hstream'
    rw [hstream'.unique hstream]
    exact ⟨hitems, hlengths⟩
  · intro decode entries cursor limit
    exact keysLoop_eq_scanLoop decode cursor limit entries []

/-- Three entries of which the middle one is left out, in pages of one. -/
theorem paging_three :
    ∃ pages, PageStream (fun key value => .ok (if key = [2] then none else some value)) 1
        [([1], [10]), ([2], [20]), ([3], [30])] none pages ∧
      pages.flatMap Paged.items = [[10], [30]] := by
  obtain ⟨⟨pages, hstream⟩, hpages, -⟩ := paging_complete _
    (fun key value => if key = [2] then none else some value) (fun _ _ => rfl) 1 (by decide)
    [([1], [10]), ([2], [20]), ([3], [30])] (by unfold KeyOrdered; decide)
  exact ⟨pages, hstream, (hpages pages hstream).1.trans (by decide)⟩

end Radiata
