import MiniDB.Recovery.Equiv.RecoveryManager

/-!
# Recovery from a checkpoint

A recovery redoes the updates behind the last checkpoint only.  That leaves the pages as redoing all
updates would, if the pages that were written before the checkpoint have reached the disk.  Both
recoveries undo the whole log: what is undone does not depend on where redo starts, and it decides
about a page with a loser.
-/

namespace MiniDB.RecoveryManager

open Effect Paged Runs

variable {records : List WalRecord} {id : PageId} {pm pm' : PageManager} {r : Result Unit}
  {committed : Finset TxnId}

/-- The log without its checkpoints. -/
def withoutCheckpoints (records : List WalRecord) : List WalRecord :=
  records.filter fun r => r.type ≠ .checkpoint

/-- The last update of a page. -/
def lastUpdate (records : List WalRecord) (id : PageId) : Option WalRecord :=
  records.reverse.find? fun r => r.type = .update ∧ r.pageId = id

/-- Each page that was updated before the last checkpoint, but neither after it nor by a transaction
without a commit, has the after-image of its last update. -/
def Checkpointed (records : List WalRecord) (content : PageId → Page) : Prop :=
  ∀ id u, lastUpdate records id = some u →
    (∀ r ∈ sinceCheckpoint records, r.type = .update → r.pageId ≠ id) →
    (∀ r ∈ records, r.type = .update → r.pageId = id → Committed records r.txnId) →
    Page.ofImage? u.afterImage = some (content id)

/-! ### The log without its checkpoints -/

theorem mem_withoutCheckpoints {r : WalRecord} :
    r ∈ withoutCheckpoints records ↔ r ∈ records ∧ r.type ≠ .checkpoint := by
  rw [withoutCheckpoints, List.mem_filter, decide_eq_true_eq]

theorem committed_withoutCheckpoints :
    (analyze (withoutCheckpoints records)).committed = (analyze records).committed := by
  ext t
  rw [mem_committed, mem_committed]
  constructor
  · rintro ⟨r, hr, htype, ht⟩
    exact ⟨r, (mem_withoutCheckpoints.mp hr).1, htype, ht⟩
  · rintro ⟨r, hr, htype, ht⟩
    exact ⟨r, mem_withoutCheckpoints.mpr ⟨hr, by simp [htype]⟩, htype, ht⟩

/-- The losers are the same. -/
theorem loser_withoutCheckpoints : loser (withoutCheckpoints records) id = loser records id := by
  rw [← loser_eq, ← loser_eq, committed_withoutCheckpoints, withoutCheckpoints, List.find?_filter]
  congr 1
  funext r
  by_cases hup : r.type = .update <;> simp [hup]

/-- Redo starts with the first record. -/
theorem sinceCheckpoint_withoutCheckpoints :
    sinceCheckpoint (withoutCheckpoints records) = withoutCheckpoints records := by
  rw [sinceCheckpoint, List.rtakeWhile_eq_self_iff]
  intro r hr
  exact decide_eq_true (mem_withoutCheckpoints.mp hr).2

/-! ### The pages -/

theorem last_redoWrites (himg : ∀ r ∈ records, Imaged r) (id : PageId) :
    Writes.last (records.filterMap redoWrite) id
      = (lastUpdate records id).bind fun u => Page.ofImage? u.afterImage := by
  induction records using List.reverseRecOn with
  | nil => rfl
  | append_singleton records r ih =>
    have ih := ih fun r' hr' => himg r' (List.mem_append_left _ hr')
    have hr := himg r (List.mem_append_right _ List.mem_cons_self)
    rw [List.filterMap_append, Writes.last_append, lastUpdate, List.reverse_append,
      List.reverse_singleton, List.singleton_append]
    by_cases hid : r.type = .update ∧ r.pageId = id
    · obtain ⟨-, after, -, hafter⟩ := hr hid.1
      have hwrite : redoWrite r = some (r.pageId, after) := by
        rw [redoWrite, if_pos hid.1, hafter]
        rfl
      rw [List.filterMap_cons_some hwrite, List.filterMap_nil, Writes.last_singleton, if_pos hid.2,
        List.find?_cons_of_pos (by simpa using hid), Option.bind_some, hafter]
      rfl
    · have hnone : Writes.last ([r].filterMap redoWrite) id = none := by
        refine last_redoWrites_eq_none fun r' hr' hup hpage => hid ?_
        obtain rfl := List.mem_singleton.mp hr'
        exact ⟨hup, hpage⟩
      rw [hnone, Option.none_or, ih, List.find?_cons_of_neg (by simpa using hid)]
      rfl

/-- A page ends up the same, wherever redo starts. -/
theorem content_withoutCheckpoints (himg : ∀ r ∈ records, Imaged r) {content : PageId → Page}
    (hdisk : Checkpointed records content) :
    Writes.apply (pageWrites (withoutCheckpoints records)) content
      = Writes.apply (pageWrites records) content := by
  funext id
  have himg' : ∀ r ∈ withoutCheckpoints records, Imaged r := fun r hr =>
    himg r (mem_withoutCheckpoints.mp hr).1
  have hfilter : Writes.last ((withoutCheckpoints records).filterMap redoWrite) id
      = Writes.last (records.filterMap redoWrite) id :=
    last_redoWrites_filter fun r _ hup _ => by simp [hup]
  rw [Writes.apply_eq, Writes.apply_eq]
  cases hloser : loser records id with
  | some r =>
    -- undo writes the page last
    rw [last_pageWrites_of_loser himg hloser,
      last_pageWrites_of_loser himg' (loser_withoutCheckpoints.trans hloser)]
  | none =>
    rw [last_pageWrites_of_none himg hloser,
      last_pageWrites_of_none himg' (loser_withoutCheckpoints.trans hloser),
      sinceCheckpoint_withoutCheckpoints, hfilter]
    obtain ⟨before, hsplit⟩ := exists_append_sinceCheckpoint records
    by_cases hsince : ∀ r ∈ sinceCheckpoint records, r.type = .update → r.pageId ≠ id
    · -- redo from the checkpoint on leaves the page as it is on the disk
      rw [last_redoWrites_eq_none hsince, Option.getD_none, last_redoWrites himg]
      cases hlast : lastUpdate records id with
      | none => rfl
      | some u =>
        have hcommitted : ∀ r ∈ records, r.type = .update → r.pageId = id →
            Committed records r.txnId := by
          intro r hr hup hid
          have hnot := List.find?_eq_none.mp hloser r hr
          rw [decide_eq_true_eq] at hnot
          exact not_not.mp fun hc => hnot ⟨hup, hid, hc⟩
        rw [Option.bind_some, hdisk id u hlast hsince hcommitted]
        rfl
    · -- both redo the last update, which is behind the checkpoint
      push Not at hsince
      obtain ⟨r, hr, hup, rfl⟩ := hsince
      have himgSince : ∀ r ∈ sinceCheckpoint records, Imaged r := fun r hr =>
        himg r (by rw [hsplit]; exact List.mem_append_right _ hr)
      obtain ⟨page, hpage⟩ := Option.isSome_iff_exists.mp (last_redoWrites_isSome himgSince hr hup)
      rw [hpage, hsplit, List.filterMap_append, Writes.last_append, hpage]
      rfl

/-! ### Broken streams -/

/-- A page manager with a broken stream refuses every write. -/
theorem wp_writeImage_broken (hbroken : ¬ pm.good) (id : PageId) {image : Str} {page : Page}
    (himage : Page.ofImage? image = some page) {V : Unit → PageManager → Prop} :
    Action.wp (fun _ => False) (writeImage id image) (Action.post V fun _ s => s = pm) pm := by
  have hwrite : ∃ e, PageManager.writePage id page pm = (.error e, pm) := by
    unfold PageManager.writePage
    by_cases hin : pm.InRange id
    · rw [if_neg (not_not.mpr hin), if_pos hbroken]
      exact ⟨_, rfl⟩
    · rw [if_pos hin]
      exact ⟨_, rfl⟩
  obtain ⟨e, hwrite⟩ := hwrite
  rw [writeImage, himage]
  show Action.Returns _ (Except.ok (PageManager.writePage id page pm)) _
  rw [hwrite]
  exact rfl

/-- A recovery then leaves the file as it is. -/
theorem recover_broken {wal : WalManager} (hread : WalManager.readAll wal.file = pure records)
    (hbroken : ¬ pm.good) : ∃ r, (recover wal).exec pm = .ok (r, pm) := by
  have himg := imaged_of_readRecords hread
  have hwp : Action.wp (fun _ => False) (recover wal) (Action.post (fun _ s => s = pm) fun _ s => s = pm)
      pm := by
    rw [recover, Action.wp_bind, hread]
    refine (Action.wp_check rfl _).mpr ?_
    rw [Action.post_ok, Action.wp_bind]
    refine Action.wp_mono_post (fun stats s hs => ?_) (fun _ _ hs => hs)
      (Action.wp_foldlM (fun _ _ s => s = pm) _ rfl ?_)
    · subst hs
      refine Action.wp_foldlM (fun _ _ s' => s' = s) _ rfl ?_
      rintro before r after stats _ hsplit rfl
      have hr : r ∈ records := by
        rw [← List.mem_reverse, hsplit]
        exact List.mem_append_right _ List.mem_cons_self
      unfold undo
      split_ifs with hup hc
      · exact rfl
      · exact rfl
      · obtain ⟨page, -, hpage, -⟩ := himg r hr (not_not.mp hup)
        rw [Action.wp_bind]
        exact wp_writeImage_broken hbroken _ hpage
    · rintro before r after stats _ hsplit rfl
      have hr : r ∈ records := by
        refine List.mem_of_mem_drop (i := (analyze records).redoStartIndex) ?_
        rw [hsplit]
        exact List.mem_append_right _ List.mem_cons_self
      unfold redo
      split_ifs with hup
      · exact rfl
      · obtain ⟨-, page, -, hpage⟩ := himg r hr (not_not.mp hup)
        rw [Action.wp_bind]
        exact wp_writeImage_broken hbroken _ hpage
  obtain ⟨r, s, hexec, hs⟩ := Action.exec_of_wp hwp
  refine ⟨r, ?_⟩
  cases r with
  | ok stats =>
    cases hs
    exact hexec
  | error e =>
    cases hs
    exact hexec

/-! ### Recovery -/

/-- **The checkpoint is a shortcut.**  If the logged pages are pages of the file, and the disk has what was
written before the checkpoint, recovery leaves all pages as it does on the log without its checkpoints. -/
theorem checkpoint_shortcut {wal full : WalManager}
    (hread : WalManager.readAll wal.file = pure records)
    (hfull : WalManager.readAll full.file = pure (withoutCheckpoints records)) {pm : PageManager}
    (hin : ∀ r ∈ records, r.type = .update → pm.InRange r.pageId)
    (hdisk : Checkpointed records pm.content) :
    ∃ r pm₁ r' pm₂, (recover wal).exec pm = .ok (r, pm₁) ∧ (recover full).exec pm = .ok (r', pm₂) ∧
      pm₁.content = pm₂.content := by
  by_cases hgood : pm.good
  · have hpm' : Recoverable (withoutCheckpoints records) pm :=
      ⟨hgood, fun r hr => hin r (mem_withoutCheckpoints.mp hr).1⟩
    obtain ⟨stats, pm₁, hexec, hcontent⟩ := content_recover hread ⟨hgood, hin⟩
    obtain ⟨stats', pm₂, hexec', hcontent'⟩ := content_recover hfull hpm'
    refine ⟨_, pm₁, _, pm₂, hexec, hexec', ?_⟩
    rw [hcontent, hcontent', content_withoutCheckpoints (imaged_of_readRecords hread) hdisk]
  · obtain ⟨r, hexec⟩ := recover_broken hread hgood
    obtain ⟨r', hexec'⟩ := recover_broken hfull hgood
    exact ⟨r, pm, r', pm, hexec, hexec', rfl⟩

/-- There is a log of any calls. -/
theorem exists_readAll_calls (calls : List (Lsn × WalCall)) :
    ∃ wal : WalManager,
      WalManager.readAll wal.file = pure (calls.map fun c => c.2.record c.1) := by
  have happended : ∀ r ∈ calls.map fun c => c.2.record c.1, r.Appended := by
    intro r hr
    obtain ⟨c, -, rfl⟩ := List.mem_map.mp hr
    exact ⟨c.2, c.1, rfl⟩
  have hnil : WalManager.readAll [] = pure [] := WalManager.readAll_of_short (by decide)
  have hall := WalManager.readAll_flatMap happended []
  rw [hnil, pure_bind, List.append_nil, List.append_nil] at hall
  exact ⟨⟨_, 1⟩, hall⟩

/-- A committed update, on the disk when the checkpoint was taken. -/
theorem checkpoint_shortcut_committed :
    ∃ wal full : WalManager,
      WalManager.readAll wal.file = pure [(WalCall.appendUpdate 1 1 .blank marked).record 1,
        (WalCall.appendCommit 1).record 2, WalCall.appendCheckpoint.record 3] ∧
      ∃ r pm₁ r' pm₂, (recover wal).exec { onePage with file := [.blank, marked] } = .ok (r, pm₁) ∧
        (recover full).exec { onePage with file := [.blank, marked] } = .ok (r', pm₂) ∧
        pm₁.content = pm₂.content := by
  obtain ⟨wal, hread⟩ := exists_readAll_calls [(1, .appendUpdate 1 1 .blank marked),
    (2, .appendCommit 1), (3, .appendCheckpoint)]
  obtain ⟨full, hfull⟩ := exists_readAll_calls [(1, .appendUpdate 1 1 .blank marked),
    (2, .appendCommit 1)]
  refine ⟨wal, full, hread, checkpoint_shortcut hread hfull (by decide) ?_⟩
  intro id u hlast _ _
  have hid : id = 1 := by
    have hu := List.find?_some hlast
    rw [decide_eq_true_eq] at hu
    have hmem := List.mem_of_find?_eq_some hlast
    simp only [List.map_cons, List.map_nil, List.mem_reverse, List.mem_cons, List.not_mem_nil,
      or_false] at hmem
    rcases hmem with rfl | rfl | rfl
    · exact hu.2.symm
    · cases hu.1
    · cases hu.1
  subst hid
  obtain rfl : (WalCall.appendUpdate 1 1 .blank marked).record 1 = u := Option.some.inj hlast
  exact ofImage?_data marked

theorem exec_writeImage_data (id : PageId) (page : Page) (pm : PageManager) :
    (writeImage id page.data).exec pm = .ok (pm.writePage id page) := by
  rw [writeImage, ofImage?_data]
  rfl

/-- An update is redone as far as the page manager writes the page. -/
theorem exec_redo_appendUpdate {after : Page} (h : pm.writePage id after = (r, pm'))
    (stats : RecoveryStats) (lsn : Lsn) (t : TxnId) (before : Page) :
    (redo stats ((WalCall.appendUpdate t id before after).record lsn)).exec pm
      = .ok (r.map fun _ => { stats with redoCount := stats.redoCount + 1 }, pm') := by
  show ((writeImage id after.data : Action Fault Status PageManager Unit) >>= _).exec pm = _
  rw [Action.exec_bind, exec_writeImage_data, h]
  cases r <;> rfl

theorem undo_skip {r : WalRecord} (h : r.type ≠ .update ∨ r.txnId ∈ committed) (stats : RecoveryStats) :
    (undo committed stats r : Action Fault Status PageManager RecoveryStats) = pure stats := by
  unfold undo
  split_ifs with hup hc
  · rfl
  · rfl
  · exact (h.elim hup hc).elim

/-- An update is undone as far as the page manager writes the page. -/
theorem exec_undo_appendUpdate {before : Page} (h : pm.writePage id before = (r, pm'))
    (stats : RecoveryStats) (lsn : Lsn) {t : TxnId} (after : Page) (ht : t ∉ committed) :
    (undo committed stats ((WalCall.appendUpdate t id before after).record lsn)).exec pm
      = .ok (r.map fun _ => { stats with undoCount := stats.undoCount + 1 }, pm') := by
  show Action.exec (if t ∈ committed then _ else _) pm = _
  rw [if_neg ht]
  show ((writeImage id before.data : Action Fault Status PageManager Unit) >>= _).exec pm = _
  rw [Action.exec_bind, exec_writeImage_data, h]
  cases r <;> rfl

/-- A log with an update of a page that the file does not have.  Recovery ends with the first write to
it: in redo, if it comes to that, and otherwise in undo, when the later update has been redone. -/
theorem checkpoint_differs_out_of_range :
    ∃ (wal full : WalManager) (records : List WalRecord) (pm : PageManager),
      WalManager.readAll wal.file = pure records ∧
      WalManager.readAll full.file = pure (withoutCheckpoints records) ∧
      records = [(WalCall.appendUpdate 1 2 .blank .blank).record 1, WalCall.appendCheckpoint.record 2,
        (WalCall.appendUpdate 2 1 .blank marked).record 3, (WalCall.appendCommit 2).record 4] ∧
      Checkpointed records pm.content ∧
      ∃ r pm₁ r' pm₂, (recover wal).exec pm = .ok (r, pm₁) ∧ (recover full).exec pm = .ok (r', pm₂) ∧
        pm₁.content ≠ pm₂.content := by
  obtain ⟨wal, hread⟩ := exists_readAll_calls [(1, .appendUpdate 1 2 .blank .blank),
    (2, .appendCheckpoint), (3, .appendUpdate 2 1 .blank marked), (4, .appendCommit 2)]
  obtain ⟨full, hfull⟩ := exists_readAll_calls [(1, .appendUpdate 1 2 .blank .blank),
    (3, .appendUpdate 2 1 .blank marked), (4, .appendCommit 2)]
  refine ⟨wal, full, _, onePage, hread, hfull, rfl, ?_, ?_⟩
  · intro id u hlast hsince hcommitted
    have hu := List.find?_some hlast
    rw [decide_eq_true_eq] at hu
    have hmem := List.mem_of_find?_eq_some hlast
    simp only [List.map_cons, List.map_nil, List.mem_reverse, List.mem_cons, List.not_mem_nil,
      or_false] at hmem
    rcases hmem with rfl | rfl | rfl | rfl
    · exact absurd (hcommitted _ List.mem_cons_self hu.1 hu.2) (by decide)
    · cases hu.1
    · exact absurd hu.2 (hsince _ List.mem_cons_self hu.1)
    · cases hu.1
  -- the second page is refused, and the first one is written
  · have hrefused : ∀ pm : PageManager, pm.pageCount = 2 → pm.writePage 2 .blank
        = (.error ⟨.invalidArgument, lit "WritePage: page_id out of range"⟩, pm) := by
      intro pm hcount
      have hout : ¬ pm.InRange 2 := by
        rw [PageManager.InRange, hcount]
        decide
      rw [PageManager.writePage, if_pos hout]
    have hwritten : onePage.writePage 1 marked = (.ok (), ⟨[.blank, marked], 2, 2, true, 10⟩) :=
      PageManager.writePage_eq (by decide) rfl marked
    have hundo : ∀ stats (pm : PageManager), pm.pageCount = 2 → ∃ r, ([(WalCall.appendCommit 2).record 4,
        (WalCall.appendUpdate 2 1 .blank marked).record 3, WalCall.appendCheckpoint.record 2,
        (WalCall.appendUpdate 1 2 .blank .blank).record 1].foldlM (undo {2}) stats).exec pm
          = .ok (r, pm) := by
      intro stats pm hcount
      rw [List.foldlM_cons, undo_skip (.inl (by decide)), pure_bind, List.foldlM_cons,
        undo_skip (.inr (by decide)), pure_bind, List.foldlM_cons, undo_skip (.inl (by decide)),
        pure_bind, List.foldlM_cons, Action.exec_bind,
        exec_undo_appendUpdate (hrefused pm hcount) _ _ _ (by decide)]
      exact ⟨_, rfl⟩
    have hshort : ∃ r, (recover wal).exec onePage = .ok (r, ⟨[.blank, marked], 2, 2, true, 10⟩) := by
      rw [recover, Action.exec_bind, hread]
      show ∃ r, (((redo _ _ : Action Fault Status PageManager _) >>= _) >>= _).exec onePage = .ok (r, _)
      rw [Action.exec_bind, Action.exec_bind, exec_redo_appendUpdate hwritten]
      exact hundo _ ⟨[.blank, marked], 2, 2, true, 10⟩ rfl
    have hlong : ∃ r, (recover full).exec onePage = .ok (r, onePage) := by
      rw [recover, Action.exec_bind, hfull]
      show ∃ r, (((redo _ _ : Action Fault Status PageManager _) >>= _) >>= _).exec onePage = .ok (r, _)
      rw [Action.exec_bind, Action.exec_bind, exec_redo_appendUpdate (hrefused onePage rfl)]
      exact ⟨_, rfl⟩
    obtain ⟨r, hshort⟩ := hshort
    obtain ⟨r', hlong⟩ := hlong
    refine ⟨r, _, r', onePage, hshort, hlong, fun hsame => ?_⟩
    have hone := congrFun hsame 1
    rw [content_onePage] at hone
    exact blank_ne_marked hone.symm

end MiniDB.RecoveryManager
