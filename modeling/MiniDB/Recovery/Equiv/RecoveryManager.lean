import MiniDB.Lib.Writes
import MiniDB.Recovery.Equiv.WalManager
import MiniDB.Recovery.RecoveryManager
import Mathlib.Data.List.DropRight

/-!
# What a recovery leaves on the pages

The page writes of `Recover` depend on the log only (`pageWrites`), and a page holds the last thing that
was written to it.  The last write of undo to a page is the one for the first update of the page in the
log that no commit covers, so that this update's before-image is what the page holds; without such an
update it is the last after-image that redo wrote (`content_recover`).

Everything about committed and aborted transactions, interrupted recoveries and torn logs is read off
that.
-/

namespace MiniDB

open Effect Paged Runs Framing
open Writes (apply apply_apply apply_eq last last_append last_isSome last_singleton)
open WalManager (appended_whole openFile readAll readAll_cut readAll_flatMap readAll_of_short readRecords)
open WalSystem (logOf_of_run logged openFile_nil run_nil)

namespace RecoveryManager

/-! ### The page writes -/

/-- The page write of redo for a record. -/
def redoWrite (r : WalRecord) : Option (PageId × Page) :=
  if r.type = .update then (Page.ofImage? r.afterImage).map fun page => (r.pageId, page) else none

/-- The page write of undo for a record. -/
def undoWrite (committed : Finset TxnId) (r : WalRecord) : Option (PageId × Page) :=
  if r.type = .update ∧ r.txnId ∉ committed then
    (Page.ofImage? r.beforeImage).map fun page => (r.pageId, page)
  else none

/-- The page writes of a recovery. -/
def pageWrites (records : List WalRecord) : List (PageId × Page) :=
  (records.drop (analyze records).redoStartIndex).filterMap redoWrite
    ++ records.reverse.filterMap (undoWrite (analyze records).committed)

/-- The images of an update are large enough for pages. -/
def Imaged (r : WalRecord) : Prop :=
  r.type = .update → ∃ before after, Page.ofImage? r.beforeImage = some before ∧
    Page.ofImage? r.afterImage = some after

section Device

variable {σ : Type} [PageDevice σ]

/-- Page writes one after the other. -/
def writeAll (ws : List (PageId × Page)) (s : σ) : σ :=
  ws.foldl (fun s w => (PageDevice.writePage w.1 w.2 s).2) s

theorem writeAll_append (vs ws : List (PageId × Page)) (s : σ) :
    writeAll (vs ++ ws) s = writeAll ws (writeAll vs s) := List.foldl_append

variable {ok : σ → Prop} {records : List WalRecord} {s : σ}

/-- In a state with `ok`, the device takes any write to the page. -/
def Takes (ok : σ → Prop) (id : PageId) : Prop :=
  ∀ page s, ok s → (PageDevice.writePage id page s).1 = .ok () ∧ ok (PageDevice.writePage id page s).2

/-- A pass that makes at most one page write for each record. -/
theorem exec_foldlM (step : RecoveryStats → WalRecord → Action Fault Status σ RecoveryStats)
    (write : WalRecord → Option (PageId × Page)) (hstep : ∀ r ∈ records, ∀ stats s, ok s →
      ∃ stats', (step stats r).exec s = .ok (.ok stats', writeAll (write r).toList s) ∧
        ok (writeAll (write r).toList s)) (stats : RecoveryStats) (hs : ok s) :
    ∃ stats', (records.foldlM step stats).exec s = .ok (.ok stats', writeAll (records.filterMap write) s) ∧
      ok (writeAll (records.filterMap write) s) := by
  induction records generalizing stats s with
  | nil => exact ⟨stats, rfl, hs⟩
  | cons r records ih =>
    obtain ⟨stats₁, hexec, hok⟩ := hstep r List.mem_cons_self stats s hs
    obtain ⟨stats₂, hrest, hok'⟩ := ih (fun r' hr' => hstep r' (List.mem_cons_of_mem _ hr')) stats₁ hok
    have hsplit : (r :: records).filterMap write = (write r).toList ++ records.filterMap write := by
      cases hw : write r with
      | none => rw [List.filterMap_cons_none hw]; rfl
      | some w => rw [List.filterMap_cons_some hw]; rfl
    refine ⟨stats₂, ?_, ?_⟩
    · rw [List.foldlM_cons, Action.exec_bind, hexec, hsplit, writeAll_append]
      exact hrest
    · rw [hsplit, writeAll_append]
      exact hok'

theorem exec_writeImage {id : PageId} {image : Str} {page : Page} (h : Page.ofImage? image = some page)
    (hok : (PageDevice.writePage id page s).1 = .ok ()) :
    (writeImage id image).exec s = .ok (.ok (), (PageDevice.writePage id page s).2) := by
  rw [writeImage, h]
  show Except.ok (PageDevice.writePage id page s) = _
  rw [← hok]

theorem exec_redo {r : WalRecord} (himg : Imaged r) (htakes : r.type = .update → Takes ok r.pageId)
    (stats : RecoveryStats) (hs : ok s) :
    ∃ stats', (redo stats r).exec s = .ok (.ok stats', writeAll (redoWrite r).toList s) ∧
      ok (writeAll (redoWrite r).toList s) := by
  unfold redo redoWrite
  by_cases hup : r.type = .update
  · obtain ⟨before, after, -, hafter⟩ := himg hup
    obtain ⟨hok, hs'⟩ := htakes hup after s hs
    rw [if_neg (not_not.mpr hup), if_pos hup, hafter, Action.exec_bind,
      exec_writeImage hafter hok]
    exact ⟨_, rfl, hs'⟩
  · rw [if_pos hup, if_neg hup]
    exact ⟨stats, rfl, hs⟩

theorem exec_undo {committed : Finset TxnId} {r : WalRecord} (himg : Imaged r)
    (htakes : r.type = .update → Takes ok r.pageId) (stats : RecoveryStats) (hs : ok s) :
    ∃ stats', (undo committed stats r).exec s
        = .ok (.ok stats', writeAll (undoWrite committed r).toList s) ∧
      ok (writeAll (undoWrite committed r).toList s) := by
  unfold undo undoWrite
  by_cases hup : r.type = .update
  · by_cases hc : r.txnId ∈ committed
    · rw [if_neg (not_not.mpr hup), if_pos hc, if_neg (fun h => h.2 hc)]
      exact ⟨stats, rfl, hs⟩
    · obtain ⟨before, after, hbefore, -⟩ := himg hup
      obtain ⟨hok, hs'⟩ := htakes hup before s hs
      rw [if_neg (not_not.mpr hup), if_neg hc, if_pos ⟨hup, hc⟩, hbefore, Action.exec_bind,
        exec_writeImage hbefore hok]
      exact ⟨_, rfl, hs'⟩
  · rw [if_pos hup, if_neg (fun h => hup h.1)]
    exact ⟨stats, rfl, hs⟩

/-- A recovery that meets no error makes its page writes. -/
theorem exec_recover {wal : WalManager} (hread : readAll wal.file = pure records)
    (himg : ∀ r ∈ records, Imaged r) (htakes : ∀ r ∈ records, r.type = .update → Takes ok r.pageId)
    (hs : ok s) :
    ∃ stats, (recover wal).exec s = .ok (.ok stats, writeAll (pageWrites records) s) ∧
      ok (writeAll (pageWrites records) s) := by
  have hredo : ∀ r ∈ records.drop (analyze records).redoStartIndex, ∀ stats s, ok s →
      ∃ stats', (redo stats r).exec s = .ok (.ok stats', writeAll (redoWrite r).toList s) ∧
        ok (writeAll (redoWrite r).toList s) := by
    intro r hr stats s hs
    have hr := List.mem_of_mem_drop hr
    exact exec_redo (himg r hr) (htakes r hr) stats hs
  have hundo : ∀ r ∈ records.reverse, ∀ stats s, ok s →
      ∃ stats', (undo (analyze records).committed stats r).exec s
          = .ok (.ok stats', writeAll (undoWrite (analyze records).committed r).toList s) ∧
        ok (writeAll (undoWrite (analyze records).committed r).toList s) := by
    intro r hr stats s hs
    have hr := List.mem_reverse.mp hr
    exact exec_undo (himg r hr) (htakes r hr) stats hs
  obtain ⟨stats₁, hredo, hok⟩ := exec_foldlM redo redoWrite hredo
    { checkpointLsnUsed := (analyze records).checkpointLsnUsed } hs
  obtain ⟨stats₂, hundo, hok'⟩ := exec_foldlM _ _ hundo stats₁ hok
  refine ⟨stats₂, ?_, ?_⟩
  · rw [recover, Action.exec_bind, hread]
    show Action.exec _ s = _
    rw [Action.exec_bind, hredo, pageWrites, writeAll_append]
    exact hundo
  · rw [pageWrites, writeAll_append]
    exact hok'

end Device

/-! ### The log -/

variable {r : WalRecord} {pm : PageManager} {wal : WalManager}

theorem imaged_of_deserialize {buf : Str} (h : WalRecord.deserialize buf = pure r) : Imaged r := by
  unfold WalRecord.deserialize at h
  simp only [Checked.bind_eq_pure] at h
  obtain ⟨lsn, -, type, -, txnId, -, pageId, -, h⟩ := h
  split_ifs at h with hup hshort
  · cases h
  · cases h
    intro _
    have hsize : ∀ off, off + kPageSize ≤ buf.length →
        ∃ page, Page.ofImage? (Bytes.slice off kPageSize buf) = some page := by
      intro off hoff
      rw [Page.ofImage?, dif_pos (Nat.le_of_eq (Bytes.length_slice hoff).symm)]
      exact ⟨_, rfl⟩
    obtain ⟨before, hbefore⟩ := hsize WalRecord.kFixedSize (by omega)
    obtain ⟨after, hafter⟩ := hsize (WalRecord.kFixedSize + kPageSize) (by omega)
    exact ⟨before, after, hbefore, hafter⟩
  · cases h
    exact fun h => absurd h hup

/-- `ReadAll` checks the images of an update. -/
theorem imaged_of_readRecords {rounds : Nat} {file : Str} {records : List WalRecord}
    (h : readRecords rounds file = pure records) : ∀ r ∈ records, Imaged r := by
  induction rounds generalizing file records with
  | zero => cases h
  | succ rounds ih =>
    simp only [readRecords] at h
    split_ifs at h with hshort hlen
    · cases h
      simp
    · cases h
    · simp only [Checked.bind_eq_pure] at h
      obtain ⟨r, hr, records', hrest, h⟩ := h
      cases h
      intro r' hr'
      rcases List.mem_cons.mp hr' with rfl | hr'
      · exact imaged_of_deserialize hr
      · exact ih hrest r' hr'

theorem analyze_concat (records : List WalRecord) (r : WalRecord) :
    analyze (records ++ [r]) = (analyze records).add r records.length := by
  rw [analyze, List.zipIdx_append, List.foldl_append, Nat.zero_add]
  rfl

/-- The transaction has a commit record. -/
def Committed (records : List WalRecord) (t : TxnId) : Prop :=
  ∃ r ∈ records, r.type = .commit ∧ r.txnId = t

instance (records : List WalRecord) (t : TxnId) : Decidable (Committed records t) :=
  inferInstanceAs (Decidable (∃ r ∈ records, _))

/-- The analysis finds the transactions with a commit record. -/
theorem mem_committed {records : List WalRecord} {t : TxnId} :
    t ∈ (analyze records).committed ↔ Committed records t := by
  unfold Committed
  induction records using List.reverseRecOn with
  | nil => simp [analyze]
  | append_singleton records r ih =>
    rw [analyze_concat, Analysis.add]
    simp only [List.mem_append, List.mem_singleton, or_and_right, exists_or, exists_eq_left, ← ih]
    cases hr : r.type with
    | commit =>
      simp only [Finset.mem_insert, true_and]
      rw [or_comm, eq_comm]
    | update => simp
    | abort => simp
    | checkpoint => simp
    | unnamed byte => simp

/-- The records behind the last checkpoint. -/
def sinceCheckpoint (records : List WalRecord) : List WalRecord :=
  records.rtakeWhile fun r => r.type ≠ .checkpoint

theorem sinceCheckpoint_concat (records : List WalRecord) (r : WalRecord) :
    sinceCheckpoint (records ++ [r])
      = if r.type = .checkpoint then [] else sinceCheckpoint records ++ [r] := by
  unfold sinceCheckpoint
  split_ifs with hr
  · exact List.rtakeWhile_concat_neg _ _ _ (by simpa using hr)
  · exact List.rtakeWhile_concat_pos _ _ _ (by simpa using hr)

theorem sinceCheckpoint_append (before after : List WalRecord) :
    sinceCheckpoint (before ++ after)
      = if ∀ r ∈ after, r.type ≠ .checkpoint then sinceCheckpoint before ++ after
        else sinceCheckpoint after := by
  induction after using List.reverseRecOn with
  | nil => simp
  | append_singleton after r ih =>
    rw [← List.append_assoc, sinceCheckpoint_concat, sinceCheckpoint_concat]
    by_cases hr : r.type = .checkpoint
    · rw [if_pos hr, if_pos hr, if_neg (by simp [hr])]
    · have hall : (∀ x ∈ after ++ [r], x.type ≠ .checkpoint) ↔ ∀ x ∈ after, x.type ≠ .checkpoint := by
        simp [or_imp, forall_and, hr]
      rw [if_neg hr, if_neg hr, if_congr hall rfl rfl, ih]
      split_ifs
      · rw [List.append_assoc]
      · rfl

theorem redoStartIndex_add (a : Analysis) (r : WalRecord) (i : Nat) :
    (a.add r i).redoStartIndex = if r.type = .checkpoint then i + 1 else a.redoStartIndex := by
  unfold Analysis.add
  cases r.type <;> rfl

/-- Redo starts behind the last checkpoint. -/
theorem drop_redoStartIndex (records : List WalRecord) :
    records.drop (analyze records).redoStartIndex = sinceCheckpoint records ∧
      (analyze records).redoStartIndex ≤ records.length := by
  induction records using List.reverseRecOn with
  | nil => exact ⟨rfl, Nat.zero_le _⟩
  | append_singleton records r ih =>
    rw [analyze_concat, redoStartIndex_add, sinceCheckpoint_concat, List.length_append,
      List.length_singleton]
    split_ifs with hr
    · exact ⟨List.drop_of_length_le (by simp), Nat.le_refl _⟩
    · rw [List.drop_append_of_le_length ih.2, ih.1]
      exact ⟨rfl, Nat.le_succ_of_le ih.2⟩

/-- The first update of a page by a transaction without a commit record. -/
def loser (records : List WalRecord) (id : PageId) : Option WalRecord :=
  records.find? fun r => r.type = .update ∧ r.pageId = id ∧ ¬ Committed records r.txnId

variable {records : List WalRecord} {id : PageId} {page : Page} {w : PageId × Page}

/-- What undo writes to a page last. -/
theorem last_undoWrites (himg : ∀ r ∈ records, Imaged r) (committed : Finset TxnId) (id : PageId) :
    last (records.reverse.filterMap (undoWrite committed)) id
      = (records.find? fun r => r.type = .update ∧ r.pageId = id ∧ r.txnId ∉ committed).bind
          fun r => Page.ofImage? r.beforeImage := by
  rw [last, ← List.filterMap_reverse, List.reverse_reverse]
  induction records with
  | nil => rfl
  | cons r records ih =>
    have ih := ih fun r' hr' => himg r' (List.mem_cons_of_mem _ hr')
    by_cases hw : r.type = .update ∧ r.txnId ∉ committed
    · obtain ⟨before, -, hbefore, -⟩ := himg r List.mem_cons_self hw.1
      have hwrite : undoWrite committed r = some (r.pageId, before) := by
        rw [undoWrite, if_pos hw, hbefore]
        rfl
      rw [List.filterMap_cons_some hwrite]
      by_cases hid : r.pageId = id
      · rw [List.find?_cons_of_pos (by simpa using hid), List.find?_cons_of_pos (by simp [hw, hid])]
        exact hbefore.symm
      · rw [List.find?_cons_of_neg (by simpa using hid), ih, List.find?_cons_of_neg (by simp [hid])]
    · have hwrite : undoWrite committed r = none := by rw [undoWrite, if_neg hw]
      rw [List.filterMap_cons_none hwrite, ih, List.find?_cons_of_neg]
      simp only [decide_eq_true_eq]
      exact fun h => hw ⟨h.1, h.2.2⟩

theorem loser_eq (records : List WalRecord) (id : PageId) :
    (records.find? fun r => r.type = .update ∧ r.pageId = id ∧ r.txnId ∉ (analyze records).committed)
      = loser records id := by
  unfold loser
  congr 1
  funext r
  simp only [mem_committed]

/-- The last page write of a recovery, for a page with a loser. -/
theorem last_pageWrites_of_loser (himg : ∀ r ∈ records, Imaged r)
    (hloser : loser records id = some r) :
    last (pageWrites records) id = Page.ofImage? r.beforeImage := by
  have hr := List.find?_some hloser
  simp only [decide_eq_true_eq] at hr
  obtain ⟨before, -, hbefore, -⟩ := himg r (List.mem_of_find?_eq_some hloser) hr.1
  rw [pageWrites, last_append, last_undoWrites himg, loser_eq, hloser, Option.bind_some, hbefore]
  rfl

/-- The last page write of a recovery, for a page without a loser. -/
theorem last_pageWrites_of_none (himg : ∀ r ∈ records, Imaged r) (hloser : loser records id = none) :
    last (pageWrites records) id
      = last ((sinceCheckpoint records).filterMap redoWrite) id := by
  rw [pageWrites, last_append, last_undoWrites himg, loser_eq, hloser, (drop_redoStartIndex records).1]
  rfl

/-! ### The pages -/

/-- The page manager takes writes to all pages of the log. -/
structure Recoverable (records : List WalRecord) (pm : PageManager) : Prop where
  good : pm.good
  inRange : ∀ r ∈ records, r.type = .update → pm.InRange r.pageId

theorem Recoverable.takes (records : List WalRecord) :
    ∀ r ∈ records, r.type = .update → Takes (Recoverable records) r.pageId := by
  intro r hr hup page pm hpm
  have hwrite := PageManager.writePage_eq (hpm.inRange r hr hup) hpm.good page
  show (pm.writePage r.pageId page).1 = _ ∧ Recoverable records (pm.writePage r.pageId page).2
  rw [hwrite]
  exact ⟨rfl, hpm.good, hpm.inRange⟩

/-- The contents after page writes. -/
theorem content_writeAll {ws : List (PageId × Page)} (hgood : pm.good)
    (hin : ∀ w ∈ ws, pm.InRange w.1) : (writeAll ws pm).content = apply ws pm.content := by
  induction ws generalizing pm with
  | nil => rfl
  | cons w ws ih =>
    have hwrite := PageManager.writePage_eq (hin w List.mem_cons_self) hgood w.2
    show (writeAll ws (pm.writePage w.1 w.2).2).content
      = apply ws (Function.update pm.content w.1 w.2)
    have hstep : (pm.writePage w.1 w.2).2.content = Function.update pm.content w.1 w.2 := by
      rw [hwrite]
      funext id
      exact PageManager.pageAt_writeAt pm.file (hin w List.mem_cons_self).1 w.2 id
    rw [← hstep, hwrite]
    exact ih hgood fun w' hw' => hin w' (List.mem_cons_of_mem _ hw')

/-- Only pages of the log are written. -/
theorem exists_update_of_mem_pageWrites (h : w ∈ pageWrites records) :
    ∃ r ∈ records, r.type = .update ∧ r.pageId = w.1 := by
  rcases List.mem_append.mp h with h | h
  · obtain ⟨r, hr, hw⟩ := List.mem_filterMap.mp h
    unfold redoWrite at hw
    split_ifs at hw with hup
    obtain ⟨page, -, rfl⟩ := Option.map_eq_some_iff.mp hw
    exact ⟨r, List.mem_of_mem_drop hr, hup, rfl⟩
  · obtain ⟨r, hr, hw⟩ := List.mem_filterMap.mp h
    unfold undoWrite at hw
    split_ifs at hw with hup
    obtain ⟨page, -, rfl⟩ := Option.map_eq_some_iff.mp hw
    exact ⟨r, List.mem_reverse.mp hr, hup.1, rfl⟩

/-- **What a recovery leaves**: it returns OK, and every page holds the last thing written to it. -/
theorem content_recover (hread : readAll wal.file = pure records)
    (hpm : Recoverable records pm) :
    ∃ stats pm', (recover wal).exec pm = .ok (.ok stats, pm') ∧
      pm'.content = apply (pageWrites records) pm.content := by
  obtain ⟨stats, hexec, -⟩ := exec_recover hread (imaged_of_readRecords hread)
    (Recoverable.takes records) hpm
  refine ⟨stats, _, hexec, content_writeAll hpm.good fun w hw => ?_⟩
  obtain ⟨r, hr, hup, hid⟩ := exists_update_of_mem_pageWrites hw
  rw [← hid]
  exact hpm.inRange r hr hup

/-! ### Committed work -/

/-- The contents that the updates of a log produce from `initial`: the after-image of its last update for
each page. -/
def contentAfter (initial : PageId → Page) (records : List WalRecord) : PageId → Page :=
  apply (records.filterMap redoWrite) initial

/-- A log of transactions that run to their commit or the crash, on pages that each keeps to itself until
its commit. -/
structure Orderly (initial : PageId → Page) (records : List WalRecord) : Prop where
  noAbort : ∀ r ∈ records, r.type ≠ .abort
  /-- no transaction updates after its own commit -/
  ended : ∀ before c after, records = before ++ c :: after → c.type = .commit →
    ∀ r ∈ after, r.type = .update → r.txnId ≠ c.txnId
  /-- the before-image of an update is the content that the earlier updates produced -/
  chained : ∀ before r after, records = before ++ r :: after → r.type = .update →
    Page.ofImage? r.beforeImage = some (contentAfter initial before r.pageId)
  /-- a page that a transaction updated is updated by another one only after its commit -/
  exclusive : ∀ before r between r' after, records = before ++ r :: (between ++ r' :: after) →
    r.type = .update → r'.type = .update → r'.pageId = r.pageId → r'.txnId ≠ r.txnId →
    ∃ c ∈ between, c.type = .commit ∧ c.txnId = r.txnId

theorem redoWrite_eq_some (h : redoWrite r = some w) :
    r.type = .update ∧ r.pageId = w.1 ∧ Page.ofImage? r.afterImage = some w.2 := by
  unfold redoWrite at h
  split_ifs at h with hup
  obtain ⟨page, hpage, rfl⟩ := Option.map_eq_some_iff.mp h
  exact ⟨hup, rfl, hpage⟩

/-- A page that no record updates. -/
theorem last_redoWrites_eq_none (h : ∀ r ∈ records, r.type = .update → r.pageId ≠ id) :
    last (records.filterMap redoWrite) id = none := by
  rw [← Option.not_isSome_iff_eq_none, last_isSome]
  intro hmem
  obtain ⟨w, hw, hid⟩ := List.mem_map.mp hmem
  obtain ⟨r, hr, hwrite⟩ := List.mem_filterMap.mp hw
  obtain ⟨hup, hpage, -⟩ := redoWrite_eq_some hwrite
  exact h r hr hup (hpage.trans hid)

/-- A page that some record updates. -/
theorem last_redoWrites_isSome (himg : ∀ r ∈ records, Imaged r) (hr : r ∈ records)
    (hup : r.type = .update) : (last (records.filterMap redoWrite) r.pageId).isSome := by
  obtain ⟨-, after, -, hafter⟩ := himg r hr hup
  have hwrite : redoWrite r = some (r.pageId, after) := by
    rw [redoWrite, if_pos hup, hafter]
    rfl
  rw [last_isSome]
  exact List.mem_map.mpr ⟨_, List.mem_filterMap.mpr ⟨r, hr, hwrite⟩, rfl⟩

/-- The updates of a page decide about its last write. -/
theorem last_redoWrites_filter {P : WalRecord → Bool}
    (h : ∀ r ∈ records, r.type = .update → r.pageId = id → P r) :
    last ((records.filter P).filterMap redoWrite) id
      = last (records.filterMap redoWrite) id := by
  induction records using List.reverseRecOn with
  | nil => rfl
  | append_singleton records r ih =>
    have ih := ih fun r' hr' => h r' (List.mem_append_left _ hr')
    rw [List.filter_append, List.filterMap_append, List.filterMap_append, last_append,
      last_append, ih]
    congr 1
    by_cases hP : P r
    · rw [List.filter_singleton, hP]
      rfl
    · -- a record that is filtered out does not write to the page
      have hnone : last ([r].filterMap redoWrite) id = none := by
        apply last_redoWrites_eq_none
        intro r' hr' hup hid
        obtain rfl := List.mem_singleton.mp hr'
        exact hP (h r' (List.mem_append_right _ List.mem_cons_self) hup hid)
      rw [List.filter_singleton, Bool.eq_false_iff.mpr hP, hnone]
      rfl

theorem contentAfter_eq (initial : PageId → Page) (records : List WalRecord) (id : PageId) :
    contentAfter initial records id
      = (last (records.filterMap redoWrite) id).getD (initial id) :=
  apply_eq _ _ _

/-- What the log has behind its last checkpoint is the end of it. -/
theorem exists_append_sinceCheckpoint (records : List WalRecord) :
    ∃ before, records = before ++ sinceCheckpoint records := by
  obtain ⟨before, h⟩ := List.rtakeWhile_suffix (fun r : WalRecord => r.type ≠ .checkpoint) records
  exact ⟨before, h.symm⟩

/-- The loser of a page: only its own transaction updates the page from there on. -/
theorem Orderly.content_of_loser {initial : PageId → Page} (hlog : Orderly initial records)
    (hloser : loser records id = some r) :
    Page.ofImage? r.beforeImage
      = some (contentAfter initial (records.filter fun r => Committed records r.txnId) id) := by
  obtain ⟨hr, before, after, hsplit, hbefore⟩ := List.find?_eq_some_iff_append.mp hloser
  simp only [decide_eq_true_eq] at hr hbefore
  obtain ⟨hup, hid, hnot⟩ := hr
  have hchain := hlog.chained before r after hsplit hup
  rw [hchain, hid, contentAfter_eq, contentAfter_eq]
  have hwhole : records.filter (fun r => Committed records r.txnId)
      = before.filter (fun r => Committed records r.txnId)
        ++ (r :: after).filter fun r => Committed records r.txnId := by
    rw [← List.filter_append, ← hsplit]
  rw [hwhole, List.filterMap_append, last_append]
  have hnone : last
      (((r :: after).filter fun r => Committed records r.txnId).filterMap redoWrite) id = none := by
    apply last_redoWrites_eq_none
    intro x hx hxup hxid
    obtain ⟨hx, hxc⟩ := List.mem_filter.mp hx
    simp only [decide_eq_true_eq] at hxc
    rcases List.mem_cons.mp hx with rfl | hx
    · exact hnot hxc
    · obtain ⟨between, rest, hafter⟩ := List.append_of_mem hx
      by_cases htxn : x.txnId = r.txnId
      · rw [htxn] at hxc
        exact hnot hxc
      · -- another transaction gets the page only after a commit, which there is not
        obtain ⟨c, hc, hcommit⟩ := hlog.exclusive before r between x rest
          (by rw [← hafter]; exact hsplit) hup hxup (hxid.trans hid.symm) htxn
        refine hnot ⟨c, ?_, hcommit⟩
        rw [hsplit, hafter]
        simp [hc]
  rw [hnone, Option.none_or, last_redoWrites_filter]
  intro x hx hxup hxid
  have := hbefore x hx
  simp only [hxup, hxid, true_and, Bool.not_eq_eq_eq_not, Bool.not_true, decide_eq_false_iff_not,
    not_not] at this
  simpa using this

/-- **Committed work, and no other, survives**: after a recovery every page holds the after-image of its
last update by a transaction with a commit record, or its initial content if there is none, provided that
the pages without an update behind the last checkpoint were on the disk.  The logged pages are pages of the
file, and it takes writes (`Recoverable`): `Recover` stops at the first write that is refused. -/
theorem committed_work_kept {wal : WalManager} (hread : readAll wal.file = pure records)
    {pm : PageManager} (hpm : Recoverable records pm) {initial : PageId → Page}
    (hlog : Orderly initial records)
    (hdisk : ∀ id, (∀ r ∈ sinceCheckpoint records, r.type = .update → r.pageId ≠ id) →
      pm.content id = contentAfter initial records id) :
    ∃ stats pm', (recover wal).exec pm = .ok (.ok stats, pm') ∧
      ∀ id, pm'.content id
        = contentAfter initial (records.filter fun r => Committed records r.txnId) id := by
  have himg := imaged_of_readRecords hread
  obtain ⟨stats, pm', hexec, hcontent⟩ := content_recover hread hpm
  refine ⟨stats, pm', hexec, fun id => ?_⟩
  rw [hcontent, apply_eq]
  cases hloser : loser records id with
  | some r =>
    rw [last_pageWrites_of_loser himg hloser, hlog.content_of_loser hloser]
    rfl
  | none =>
    rw [last_pageWrites_of_none himg hloser]
    -- all updates of the page are committed
    have hall : contentAfter initial (records.filter fun r => Committed records r.txnId) id
        = contentAfter initial records id := by
      rw [contentAfter_eq, contentAfter_eq, last_redoWrites_filter]
      intro r hr hup hid
      have := List.find?_eq_none.mp hloser r hr
      simp only [hup, hid, true_and, decide_eq_true_eq, not_not] at this
      simpa using this
    rw [hall]
    by_cases hsince : ∃ r ∈ sinceCheckpoint records, r.type = .update ∧ r.pageId = id
    · obtain ⟨r, hr, hup, rfl⟩ := hsince
      obtain ⟨before, hsplit⟩ := exists_append_sinceCheckpoint records
      have hsome : (last ((sinceCheckpoint records).filterMap redoWrite) r.pageId).isSome := by
        refine last_redoWrites_isSome (fun r' hr' => himg r' ?_) hr hup
        rw [hsplit]
        exact List.mem_append_right _ hr'
      obtain ⟨page, hpage⟩ := Option.isSome_iff_exists.mp hsome
      rw [contentAfter_eq]
      conv_rhs => rw [hsplit, List.filterMap_append, last_append, hpage]
      rw [hpage]
      rfl
    · have hnone : ∀ r ∈ sinceCheckpoint records, r.type = .update → r.pageId ≠ id :=
        fun r hr hup hid => hsince ⟨r, hr, hup, hid⟩
      rw [last_redoWrites_eq_none hnone, Option.getD_none, hdisk id hnone]

/-- The ways to take an element out of a list of three. -/
theorem split_three {α : Type} {a b c r : α} {before after : List α}
    (h : [a, b, c] = before ++ r :: after) :
    (before = [] ∧ r = a ∧ after = [b, c]) ∨ (before = [a] ∧ r = b ∧ after = [c]) ∨
      (before = [a, b] ∧ r = c ∧ after = []) := by
  rcases before with _ | ⟨x, _ | ⟨y, _ | ⟨z, before⟩⟩⟩
  · cases h
    exact .inl ⟨rfl, rfl, rfl⟩
  · cases h
    exact .inr (.inl ⟨rfl, rfl, rfl⟩)
  · cases h
    exact .inr (.inr ⟨rfl, rfl, rfl⟩)
  · have := congrArg List.length h
    simp only [List.length_cons, List.length_nil, List.length_append] at this
    omega

theorem ofImage?_data (page : Page) : Page.ofImage? page.data = some page := by
  rw [Page.ofImage?, dif_pos (Nat.le_of_eq page.size_eq.symm)]
  congr 1
  apply Page.ext
  exact List.take_of_length_le (Nat.le_of_eq page.size_eq)

theorem redoWrite_appendUpdate (lsn : Lsn) (t : TxnId) (id : PageId) (before after : Page) :
    redoWrite ((WalCall.appendUpdate t id before after).record lsn) = some (id, after) := by
  show (Page.ofImage? after.data).map _ = _
  rw [ofImage?_data]
  rfl

/-- A transaction commits its update of a page, and another one updates the page up to the crash. -/
theorem orderly_overwritten (initial : PageId → Page) (id : PageId) (a b : Page) :
    Orderly initial [(WalCall.appendUpdate 1 id (initial id) a).record 1,
      (WalCall.appendCommit 1).record 2, (WalCall.appendUpdate 2 id a b).record 3] where
  noAbort := by simp [WalCall.record]
  ended := by
    intro before c after hsplit hc r hr
    rcases split_three hsplit with ⟨rfl, rfl, rfl⟩ | ⟨rfl, rfl, rfl⟩ | ⟨rfl, rfl, rfl⟩
    · cases hc
    · obtain rfl := List.mem_singleton.mp hr
      exact fun _ => (by decide : (2 : TxnId) ≠ 1)
    · cases hr
  chained := by
    intro before r after hsplit hup
    rcases split_three hsplit with ⟨rfl, rfl, rfl⟩ | ⟨rfl, rfl, rfl⟩ | ⟨rfl, rfl, rfl⟩
    · exact ofImage?_data _
    · cases hup
    · rw [contentAfter_eq, List.filterMap_cons_some (redoWrite_appendUpdate 1 1 id (initial id) a),
        List.filterMap_cons_none rfl, List.filterMap_nil, last_singleton]
      show Page.ofImage? a.data = some ((if id = id then some a else none).getD (initial id))
      rw [if_pos rfl]
      exact ofImage?_data a
  exclusive := by
    intro before r between r' after hsplit hup hup' hid htxn
    rcases split_three hsplit with ⟨rfl, rfl, hafter⟩ | ⟨rfl, rfl, -⟩ | ⟨rfl, rfl, hafter⟩
    · rcases between with _ | ⟨c, between⟩
      · cases hafter
        cases hup'
      · obtain rfl := (List.cons.inj hafter).1
        exact ⟨_, List.mem_cons_self, rfl, rfl⟩
    · cases hup
    · cases between <;> cases hafter

/-- The page with a one in its first byte. -/
def marked : Page := Page.blank.put 0 (1 : UInt8)

theorem blank_ne_marked : Page.blank ≠ marked := by
  intro h
  have hget := congrArg (fun p : Page => p.get UInt8 0) h
  simp only [marked] at hget
  rw [Page.get_put_self _ _ (by decide)] at hget
  exact absurd hget (by decide)

/-- A data file with one page behind the header, all of it zeroes. -/
def onePage : PageManager := ⟨[.blank, .blank], 2, 2, true, 10⟩

theorem content_onePage (id : PageId) : onePage.content id = Page.blank := by
  show pageAt [.blank, .blank] id = _
  unfold pageAt
  split_ifs
  · rcases id.toInt.toNat with _ | _ | n <;> rfl
  · rfl

/-- The page was updated and committed, and then updated by a transaction that was active at the crash. -/
theorem committed_work_kept_overwritten :
    ∃ wal records, readAll wal.file = pure records ∧ Recoverable records onePage ∧
      Orderly (fun _ => Page.blank) records ∧
      ∃ stats pm', (recover wal).exec onePage = .ok (.ok stats, pm') ∧ pm'.content 1 = marked := by
  have h₁ := run_nil.snoc (o := .call (.appendUpdate 1 1 .blank marked)) (r := some 1) rfl
  have h₂ := h₁.snoc (o := .call (.appendCommit 1)) (r := some 2) rfl
  have h₃ := h₂.snoc (o := .call (.appendUpdate 2 1 marked .blank)) (r := some 3) rfl
  have hread := (logOf_of_run openFile_nil h₃).readAll
  have hlog := orderly_overwritten (fun _ => Page.blank) 1 marked .blank
  have hpm : Recoverable [(WalCall.appendUpdate 1 1 .blank marked).record 1,
      (WalCall.appendCommit 1).record 2, (WalCall.appendUpdate 2 1 marked .blank).record 3] onePage :=
    ⟨rfl, by decide⟩
  obtain ⟨stats, pm', hexec, hcontent⟩ := committed_work_kept hread hpm hlog (by
    intro id hid
    rw [content_onePage, contentAfter_eq]
    exact (congrArg (Option.getD · Page.blank) (last_redoWrites_eq_none hid)).symm)
  refine ⟨_, _, hread, hpm, hlog, stats, pm', hexec, ?_⟩
  rw [hcontent 1]
  show contentAfter _ [(WalCall.appendUpdate 1 1 .blank marked).record 1,
    (WalCall.appendCommit 1).record 2] 1 = marked
  rw [contentAfter_eq, List.filterMap_cons_some (redoWrite_appendUpdate 1 1 1 .blank marked)]
  rfl

/-- **Committed work and earlier losers**: the last update of a page survives if and only if the first update
of the page by a transaction without a commit record has the same content as its before-image; or there is no
such update and redo gets to the last one, or finds it done. -/
theorem last_update_kept_iff {wal : WalManager}
    (hread : readAll wal.file = pure records) {pm : PageManager}
    (hpm : Recoverable records pm) {before after : List WalRecord} {u : WalRecord}
    (hsplit : records = before ++ u :: after) (hup : u.type = .update)
    (hlast : ∀ r ∈ after, r.type = .update → r.pageId ≠ u.pageId) {image : Page}
    (himage : Page.ofImage? u.afterImage = some image) :
    (∃ stats pm', (recover wal).exec pm = .ok (.ok stats, pm') ∧ pm'.content u.pageId = image) ↔
      match loser records u.pageId with
      | some r => Page.ofImage? r.beforeImage = some image
      | none => (∀ r ∈ after, r.type ≠ .checkpoint) ∨ pm.content u.pageId = image := by
  have himg := imaged_of_readRecords hread
  obtain ⟨stats, pm', hexec, hcontent⟩ := content_recover hread hpm
  have hiff : (∃ stats pm', (recover wal).exec pm = .ok (.ok stats, pm') ∧
      pm'.content u.pageId = image) ↔ pm'.content u.pageId = image := by
    constructor
    · rintro ⟨stats₁, pm₁, hexec₁, h⟩
      have hsame := hexec.symm.trans hexec₁
      cases hsame
      exact h
    · exact fun h => ⟨stats, pm', hexec, h⟩
  rw [hiff, hcontent, apply_eq]
  cases hloser : loser records u.pageId with
  | some r =>
    rw [last_pageWrites_of_loser himg hloser]
    have hr := List.find?_some hloser
    simp only [decide_eq_true_eq] at hr
    obtain ⟨page, -, hpage, -⟩ := himg r (List.mem_of_find?_eq_some hloser) hr.1
    show (Page.ofImage? r.beforeImage).getD _ = image ↔ Page.ofImage? r.beforeImage = some image
    rw [hpage, Option.getD_some, Option.some_inj]
  | none =>
    rw [last_pageWrites_of_none himg hloser]
    show _ ↔ (∀ r ∈ after, r.type ≠ .checkpoint) ∨ pm.content u.pageId = image
    have hsince := sinceCheckpoint_append (before ++ [u]) after
    rw [List.append_assoc, List.singleton_append, ← hsplit] at hsince
    by_cases hcheck : ∀ r ∈ after, r.type ≠ .checkpoint
    · -- redo gets to the update, and nothing is written to the page behind it
      have hwrite : redoWrite u = some (u.pageId, image) := by
        rw [redoWrite, if_pos hup, himage]
        rfl
      have hnot : u.type ≠ .checkpoint := by
        rw [hup]
        exact nofun
      rw [if_pos hcheck, sinceCheckpoint_append, if_pos (by simpa using hnot)] at hsince
      rw [hsince, List.filterMap_append, List.filterMap_append, last_append,
        last_append, last_redoWrites_eq_none hlast, List.filterMap_cons_some hwrite,
        List.filterMap_nil, last_singleton, if_pos rfl]
      exact ⟨fun _ => .inl hcheck, fun _ => rfl⟩
    · -- redo starts behind the update: the page keeps what is on the disk
      rw [if_neg hcheck] at hsince
      have hnone : ∀ r ∈ sinceCheckpoint records, r.type = .update → r.pageId ≠ u.pageId := by
        intro r hr
        rw [hsince] at hr
        obtain ⟨before', hafter⟩ := exists_append_sinceCheckpoint after
        refine hlast r ?_
        rw [hafter]
        exact List.mem_append_right _ hr
      rw [last_redoWrites_eq_none hnone, Option.getD_none, or_iff_right hcheck]

/-- A transaction updates a page and aborts, and another one updates the page as it was before and commits. -/
def abortedFirst (after : Page) : List WalRecord :=
  [(WalCall.appendUpdate 1 1 .blank marked).record 1, (WalCall.appendAbort 1).record 2,
    (WalCall.appendUpdate 2 1 .blank after).record 3, (WalCall.appendCommit 2).record 4]

theorem exists_abortedFirst (after : Page) : ∃ m₀ history m, openFile [] = .ok m₀ ∧
    Run WalStep.exec m₀ history m ∧ logged history = abortedFirst after ∧
    readAll m.file = pure (abortedFirst after) := by
  have h₁ := run_nil.snoc (o := .call (.appendUpdate 1 1 .blank marked)) (r := some 1) rfl
  have h₂ := h₁.snoc (o := .call (.appendAbort 1)) (r := some 2) rfl
  have h₃ := h₂.snoc (o := .call (.appendUpdate 2 1 .blank after)) (r := some 3) rfl
  have h₄ := h₃.snoc (o := .call (.appendCommit 2)) (r := some 4) rfl
  exact ⟨_, _, _, openFile_nil, h₄, rfl, (logOf_of_run openFile_nil h₄).readAll⟩

theorem recoverable_abortedFirst (after : Page) :
    Recoverable (abortedFirst after) { onePage with file := [.blank, marked] } := by
  have hone : { onePage with file := [.blank, marked] }.InRange 1 := by decide
  refine ⟨rfl, fun r hr hup => ?_⟩
  simp only [abortedFirst, List.mem_cons, List.not_mem_nil, or_false] at hr
  rcases hr with rfl | rfl | rfl | rfl
  · exact hone
  · cases hup
  · exact hone
  · cases hup

/-- The committed transaction writes what was on the page before the aborted one. -/
theorem last_update_kept_iff_restored : ∃ wal : WalManager,
    readAll wal.file = pure (abortedFirst .blank) ∧
    ∃ stats pm', (recover wal).exec { onePage with file := [.blank, marked] } = .ok (.ok stats, pm') ∧
      pm'.content 1 = .blank := by
  obtain ⟨-, -, wal, -, -, -, hread⟩ := exists_abortedFirst .blank
  have hsplit : abortedFirst .blank = (abortedFirst .blank).take 2 ++
      (WalCall.appendUpdate 2 1 .blank .blank).record 3 :: [(WalCall.appendCommit 2).record 4] := rfl
  have hiff := last_update_kept_iff hread (recoverable_abortedFirst .blank) hsplit rfl (by decide)
    (ofImage?_data .blank)
  exact ⟨wal, hread, hiff.mpr (ofImage?_data .blank)⟩

/-- A transaction aborts, with the page as it was before, and another one updates the page and commits.  A
recovery after that, with the page on the disk, takes the committed update back. -/
theorem abort_takes_back_commit :
    ∃ m₀ history m, openFile [] = .ok m₀ ∧ Run WalStep.exec m₀ history m ∧
      logged history = abortedFirst marked ∧
      ∃ stats pm', (recover m).exec { onePage with file := [.blank, marked] } = .ok (.ok stats, pm') ∧
        pm'.content 1 ≠ marked := by
  obtain ⟨m₀, history, m, hopen, hrun, hlog, hread⟩ := exists_abortedFirst marked
  obtain ⟨stats, pm', hexec, hcontent⟩ := content_recover hread (recoverable_abortedFirst marked)
  refine ⟨m₀, history, m, hopen, hrun, hlog, stats, pm', hexec, ?_⟩
  rw [hcontent, apply_eq, last_pageWrites_of_loser (imaged_of_readRecords hread)
    (r := (WalCall.appendUpdate 1 1 .blank marked).record 1) rfl]
  show ((Page.ofImage? Page.blank.data).getD _) ≠ marked
  rw [ofImage?_data]
  exact blank_ne_marked

/-! ### Torn logs -/

/-- A recovery sees of the log what `ReadAll` returns. -/
theorem recover_congr {σ : Type} [PageDevice σ] {wal' : WalManager}
    (h : readAll wal.file = readAll wal'.file) :
    (recover wal : Action Fault Status σ RecoveryStats) = recover wal' := by
  rw [recover, recover, h]

/-- **A torn log**, on a page manager that takes writes to the pages of the whole records before the cut, is
recovered like these records if and only if fewer than four bytes of the torn record are there. -/
theorem recover_torn_iff {m₀ m : WalManager} {history : List (WalStep × Option Lsn)}
    (hopen : openFile [] = .ok m₀) (hrun : Run WalStep.exec m₀ history m) (n : Nat)
    {cut complete : WalManager} (hcut : openFile (m.file.take n) = .ok cut)
    (hcomplete : openFile
      ((whole WalRecord.frame (logged history) n).flatMap WalRecord.frame) = .ok complete)
    {pm : PageManager}
    (hpm : Recoverable (whole WalRecord.frame (logged history) n) pm) :
    (∃ stats pm', (recover cut).exec pm = .ok (.ok stats, pm') ∧
      ∃ r pm'', (recover complete).exec pm = .ok (r, pm'') ∧ pm'.content = pm''.content) ↔
      (torn WalRecord.frame (logged history) n).length < 4 := by
  have hlog := logOf_of_run hopen hrun
  have hread := readAll_cut hlog.appended n
  rw [← hlog.file_eq, ← LogOf.file_openFile hcut] at hread
  have hwhole : readAll complete.file
      = pure (whole WalRecord.frame (logged history) n) := by
    have hall := readAll_flatMap (appended_whole hlog.appended n) []
    have hnil : readAll [] = pure [] := readAll_of_short (by decide)
    rw [LogOf.file_openFile hcomplete]
    rwa [hnil, pure_bind, List.append_nil, List.append_nil] at hall
  split_ifs at hread with hshort
  · have hsame : (recover cut : Action Fault Status PageManager RecoveryStats) = recover complete :=
      recover_congr (hread.trans hwhole.symm)
    obtain ⟨stats, pm', hexec, -⟩ := content_recover hwhole hpm
    rw [hsame]
    exact iff_of_true ⟨stats, pm', hexec, _, pm', hexec, rfl⟩ hshort
  · have hexec : (recover cut).exec pm = .ok (.error
        ⟨.corruption, lit "WAL: truncated record (possible mid-write crash)"⟩, pm) := by
      rw [recover, hread]
      rfl
    refine iff_of_false ?_ hshort
    rintro ⟨stats, pm', hok, -⟩
    have := hexec.symm.trans hok
    cases this

/-- A commit and two bytes of the next one. -/
theorem recover_torn_iff_twoBytes :
    ∃ m₀ history m cut, openFile [] = .ok m₀ ∧ Run WalStep.exec m₀ history m ∧
      history = [(.call (.appendCommit 1), some 1), (.call (.appendCommit 2), some 2)] ∧
      openFile (m.file.take 27) = .ok cut ∧
      ∃ stats pm', (recover cut).exec onePage = .ok (.ok stats, pm') := by
  have h₁ := run_nil.snoc (o := .call (.appendCommit 1)) (r := some 1) rfl
  have h₂ := h₁.snoc (o := .call (.appendCommit 2)) (r := some 2) rfl
  have hcut := (logOf_of_run openFile_nil h₂).openFile_cut (n := 27) (by decide)
  have hcomplete := (logOf_of_run openFile_nil h₂).cut (n := 25) rfl |>.reopen
  have hiff := recover_torn_iff openFile_nil h₂ 27 hcut hcomplete
    (⟨rfl, by decide⟩ : Recoverable _ onePage)
  obtain ⟨stats, pm', hexec, -⟩ := hiff.mpr (by decide)
  exact ⟨_, _, _, _, openFile_nil, h₂, rfl, hcut, stats, pm', hexec⟩

/-- The last byte of a commit record is missing: the recovery fails. -/
theorem torn_commit_fails_recovery :
    ∃ m₀ m cut, openFile [] = .ok m₀ ∧
      Run WalStep.exec m₀ [(.call (.appendCommit 1), some 1)] m ∧
      openFile (m.file.take 24) = .ok cut ∧
      (recover cut).exec onePage = .ok (.error
        ⟨.corruption, lit "WAL: truncated record (possible mid-write crash)"⟩, onePage) := by
  have h₁ := run_nil.snoc (o := .call (.appendCommit 1)) (r := some 1) rfl
  exact ⟨_, _, _, openFile_nil, h₁, rfl, rfl⟩

/-! ### Interrupted recoveries -/

/-- The page manager when the machine stops after `n` page writes of a recovery. -/
def recoverUntil (n : Nat) (wal : WalManager) (pm : PageManager) : Except Fault PageManager :=
  ((recover wal).exec (⟨pm, n⟩ : Crashing PageManager)).map fun p => p.2.device

/-- Any number of recoveries, each stopped after some page writes or after all of them.  The page manager of
the next one finds the file as it was left, with the pages of the log in its range. -/
inductive Interrupted (wal : WalManager) (records : List WalRecord) : PageManager → PageManager → Prop
  | refl (pm : PageManager) : Interrupted wal records pm pm
  | step {pm stopped next last : PageManager} (n : Nat) :
      recoverUntil n wal pm = .ok stopped → next.file = stopped.file → Recoverable records next →
      Interrupted wal records next last → Interrupted wal records pm last

theorem device_writeAll {σ : Type} [PageDevice σ] (ws : List (PageId × Page)) (s : σ) (n : Nat) :
    (writeAll ws (⟨s, n⟩ : Crashing σ)).device = writeAll (ws.take n) s := by
  induction ws generalizing s n with
  | nil => rw [List.take_nil]; rfl
  | cons w ws ih =>
    cases n with
    | zero => exact ih s 0
    | succ n => exact ih _ n

/-- A recovery that is interrupted does its first page writes. -/
theorem recoverUntil_eq (hread : readAll wal.file = pure records)
    (hpm : Recoverable records pm) (n : Nat) :
    recoverUntil n wal pm = .ok (writeAll ((pageWrites records).take n) pm) ∧
      Recoverable records (writeAll ((pageWrites records).take n) pm) := by
  have htakes : ∀ r ∈ records, r.type = .update →
      Takes (fun c : Crashing PageManager => Recoverable records c.device) r.pageId := by
    intro r hr hup page c hc
    obtain ⟨pm, _ | n⟩ := c
    · exact ⟨rfl, hc⟩
    · exact Recoverable.takes records r hr hup page pm hc
  obtain ⟨stats, hexec, hok⟩ := exec_recover (s := (⟨pm, n⟩ : Crashing PageManager)) hread
    (imaged_of_readRecords hread) htakes hpm
  rw [device_writeAll] at hok
  refine ⟨?_, hok⟩
  rw [recoverUntil, hexec, ← device_writeAll]
  rfl

/-- What an interrupted recovery leaves. -/
theorem content_recoverUntil (hread : readAll wal.file = pure records)
    {stopped : PageManager} (hpm : Recoverable records pm) {n : Nat}
    (h : recoverUntil n wal pm = .ok stopped) :
    stopped.content = apply ((pageWrites records).take n) pm.content := by
  rw [(recoverUntil_eq hread hpm n).1] at h
  obtain rfl := Except.ok.inj h
  refine content_writeAll hpm.good fun w hw => ?_
  obtain ⟨r, hr, hup, hid⟩ := exists_update_of_mem_pageWrites (List.mem_of_mem_take hw)
  rw [← hid]
  exact hpm.inRange r hr hup

/-- **Recovery is restartable**: after any number of recoveries that were stopped at any page write, or ran to
their end, a recovery leaves the same content of every page as a single one. -/
theorem interrupted_recovery {wal : WalManager} (hread : readAll wal.file = pure records)
    {pm last : PageManager} (hpm : Recoverable records pm) (hint : Interrupted wal records pm last) :
    ∃ stats pm' stats' last', (recover wal).exec pm = .ok (.ok stats, pm') ∧
      (recover wal).exec last = .ok (.ok stats', last') ∧ last'.content = pm'.content := by
  suffices h : Recoverable records last ∧
      apply (pageWrites records) last.content = apply (pageWrites records) pm.content by
    obtain ⟨stats, pm', hexec, hcontent⟩ := content_recover hread hpm
    obtain ⟨stats', last', hexec', hcontent'⟩ := content_recover hread h.1
    exact ⟨stats, pm', stats', last', hexec, hexec', by rw [hcontent, hcontent', h.2]⟩
  induction hint with
  | refl pm => exact ⟨hpm, rfl⟩
  | step n hstop hfile hnext hrest ih =>
    obtain ⟨hlast, hsame⟩ := ih hnext
    refine ⟨hlast, hsame.trans ?_⟩
    have hcontent := content_recoverUntil hread hpm hstop
    rw [PageManager.content, hfile]
    show apply _ (PageManager.content _) = _
    rw [hcontent, apply_apply]
    exact List.map_subset _ (List.take_subset _ _)

/-- A recovery stops after the first of its two page writes, and the next one runs to its end. -/
theorem interrupted_recovery_firstWrite :
    ∃ wal records stopped, readAll wal.file = pure records ∧
      Recoverable records onePage ∧ pageWrites records = [(1, marked), (1, .blank)] ∧
      recoverUntil 1 wal onePage = .ok stopped ∧
      ∃ stats pm' stats' last', (recover wal).exec onePage = .ok (.ok stats, pm') ∧
        (recover wal).exec stopped = .ok (.ok stats', last') ∧ last'.content = pm'.content := by
  have h₁ := run_nil.snoc (o := .call (.appendUpdate 1 1 .blank marked)) (r := some 1) rfl
  have hread := (logOf_of_run openFile_nil h₁).readAll
  have hpm : Recoverable [(WalCall.appendUpdate 1 1 .blank marked).record 1] onePage :=
    ⟨rfl, by decide⟩
  have hwrites : pageWrites [(WalCall.appendUpdate 1 1 .blank marked).record 1]
      = [(1, marked), (1, .blank)] := by
    have hundo : undoWrite ∅ ((WalCall.appendUpdate 1 1 .blank marked).record 1) = some (1, .blank) := by
      rw [undoWrite, if_pos ⟨rfl, Finset.notMem_empty _⟩]
      show (Page.ofImage? Page.blank.data).map _ = _
      rw [ofImage?_data]
      rfl
    rw [pageWrites]
    show [(WalCall.appendUpdate 1 1 .blank marked).record 1].filterMap redoWrite
      ++ [(WalCall.appendUpdate 1 1 .blank marked).record 1].filterMap (undoWrite ∅) = _
    rw [List.filterMap_cons_some (redoWrite_appendUpdate 1 1 1 .blank marked),
      List.filterMap_cons_some hundo]
    rfl
  obtain ⟨hstop, hstopped⟩ := recoverUntil_eq hread hpm 1
  have hint : Interrupted _ _ onePage _ := .step 1 hstop rfl hstopped (.refl _)
  exact ⟨_, _, _, hread, hpm, hwrites, hstop, interrupted_recovery hread hpm hint⟩

end RecoveryManager

end MiniDB
