import MiniDB.Storage.Equiv.HeapSystem
import MiniDB.Storage.TableManager

/-!
# Failed updates

An `UpdateRecord` that cannot be done in place deletes the old record first.  If the new bytes then
fit no page, the call fails and the record is gone.  `failedUpdate_keeps_iff` says exactly when a
failed update leaves everything as it was, for the heap file and for the two layers above it, which
pass the failure on: their own checks come before the heap file is called.
-/

namespace MiniDB.RecordManager

open Paged Effect Runs SlottedPage HeapFile

/-- If the call answered with an error, a client sees the record and the heap as before. -/
def FailureKeeps (rid : RecordId) (st : Store) (h : HeapFile) (r : Result RecordId) (st' : Store)
    (h' : HeapFile) : Prop :=
  ∀ e, r = .error e →
    (∃ a, Store.exec (C := Empty) (fun _ => getRecordBytes rid) st = .ok (a, st) ∧
      Store.exec (C := Empty) (fun _ => getRecordBytes rid) st' = .ok (a, st')) ∧
    ∃ before after, Store.exec (C := Empty) (HeapFile.scan h) st = .ok (before, st) ∧
      Store.exec (C := Empty) (HeapFile.scan h') st' = .ok (after, st') ∧ ∀ x, x ∈ after ↔ x ∈ before

variable {st st' : Store} {chain : List PageId} {rid : RecordId} {h : HeapFile}
  {r : Result RecordId × HeapFile} {d : RecordBytes} {rm : RecordManager} {values : Row} {table : Str}
  {σ : Type}

/-- A call that fails before it touches the heap. -/
theorem FailureKeeps.refl (hi : HeapInv st h chain) (hrid : rid.pageId ∈ chain) (r : Result RecordId) :
    FailureKeeps rid st h r st h := fun _ _ =>
  ⟨⟨_, getRecordBytes_exec hi hrid, getRecordBytes_exec hi hrid⟩,
    _, _, scan_exec hi, scan_exec hi, fun _ => Iff.rfl⟩

/-- An update of a live record keeps it on failure exactly if a page can hold the new bytes: then it
does not fail. -/
theorem failureKeeps_iff_of_updated (hi : HeapInv st h chain) (hrid : rid.pageId ∈ chain)
    (hlive : recordAt st rid ≠ none) (hu : Updated st h chain rid d r st') :
    FailureKeeps rid st h r.1 st' r.2 ↔ d.bytes.length ≤ kMaxRecordSize := by
  obtain ⟨chain', hstep, hu⟩ := hu
  rcases hu with ⟨hdead, -, -⟩ | ⟨-, hle, rid', hr, -⟩ | ⟨-, hlt, hr, hrec⟩
  · exact absurd hdead hlive
  · refine ⟨fun _ => hle, fun _ e he => ?_⟩
    rw [hr] at he
    cases he
  · refine ⟨fun hkeep => ?_, fun hle => absurd hle (Nat.not_le.mpr hlt)⟩
    -- the record was read before the call, and its slot is free after it
    obtain ⟨⟨a, hbefore, hafter⟩, -⟩ := hkeep _ hr
    obtain ⟨bs, hbs⟩ := Option.ne_none_iff_exists'.mp hlive
    have hgone : recordAt st' rid = none := by rw [hrec, if_pos rfl]
    rw [getRecordBytes_exec hi hrid, hbs] at hbefore
    rw [getRecordBytes_exec hstep.inv (hstep.pages.subset hrid), hgone] at hafter
    obtain rfl : (.ok bs : Result _) = a := by simpa using hbefore
    simp at hafter

theorem updateRecord_failureKeeps_iff (hi : HeapInv st h chain) (hrid : rid.pageId ∈ chain)
    (hlive : recordAt st rid ≠ none)
    (hexec : Store.exec (C := Empty) (HeapFile.updateRecord h rid d) st = .ok (r, st')) :
    FailureKeeps rid st h r.1 st' r.2 ↔ d.bytes.length ≤ kMaxRecordSize := by
  rcases Store.exec_of_wp (x := HeapFile.updateRecord (C := Empty) h rid d)
      (updateRecord_wp hi hrid d (Nat.lt_succ_of_le hi.length_le)) with herr | ⟨r', t, hok, hu⟩
  · simp [hexec] at herr
  · obtain ⟨rfl, rfl⟩ : r = r' ∧ st' = t := by simpa [hexec] using hok
    exact failureKeeps_iff_of_updated hi hrid hlive hu

/-- The row can be encoded, and its record is too long for a page but not for the codec. -/
def OversizedRow (schema : Schema) (values : Row) : Prop :=
  ∃ bytes, RecordCodec.encode schema values = .ok bytes ∧ kMaxRecordSize < bytes.length ∧
    bytes.length ≤ 0xFFFF

/-- What `UpdateRow` hands to the heap file: nothing, or the encoded row. -/
theorem encodeRow_cases (rm : RecordManager) (caller : String) (values : Row) :
    (∃ e, rm.encodeRow caller values = .error e ∧ ¬ OversizedRow rm.schema values) ∨
    ∃ d : RecordBytes, rm.encodeRow caller values = .ok d ∧
      RecordCodec.encode rm.schema values = .ok d.bytes ∧
      (OversizedRow rm.schema values ↔ kMaxRecordSize < d.bytes.length) := by
  unfold RecordManager.encodeRow OversizedRow
  cases henc : RecordCodec.encode rm.schema values with
  | error e => exact .inl ⟨e, rfl, by simp⟩
  | ok bytes =>
    by_cases hlong : bytes.length > 0xFFFF
    · refine .inl ⟨_, dif_pos hlong, ?_⟩
      rintro ⟨bytes', hb, -, hle⟩
      obtain rfl := Except.ok.inj hb
      omega
    · refine .inr ⟨⟨bytes, by omega⟩, dif_neg hlong, rfl, ?_⟩
      constructor
      · rintro ⟨bytes', hb, hlt, -⟩
        obtain rfl := Except.ok.inj hb
        exact hlt
      · exact fun hlt => ⟨bytes, rfl, hlt, by omega⟩

theorem updateRow_failureKeeps_iff (hi : HeapInv st rm.heapFile chain) (hrid : rid.pageId ∈ chain)
    (hlive : recordAt st rid ≠ none) {r : Result RecordId × RecordManager}
    (hexec : Store.exec (C := Empty) (rm.updateRow rid values) st = .ok (r, st')) :
    FailureKeeps rid st rm.heapFile r.1 st' r.2.heapFile ↔ ¬ OversizedRow rm.schema values := by
  have hrun : (rm.updateRow rid values (st.pages.length + 1) : Prog PageId Page Empty _).run st
      = .ok (r, st') := hexec
  unfold RecordManager.updateRow at hrun
  rcases encodeRow_cases rm "UpdateRow" values with ⟨e, henc, hfits⟩ | ⟨d, henc, -, hover⟩
  · rw [henc] at hrun
    obtain ⟨rfl, rfl⟩ : (.error e, rm) = r ∧ st = st' := by simpa [Prog.run, pure] using hrun
    exact iff_of_true (.refl hi hrid _) hfits
  · rw [henc] at hrun
    simp only [Prog.run_bind] at hrun
    cases hupd : Store.exec (C := Empty) (HeapFile.updateRecord rm.heapFile rid d) st with
    | error e =>
      rw [Store.exec] at hupd
      simp [hupd] at hrun
    | ok p =>
      obtain ⟨⟨res, h'⟩, t⟩ := p
      have hkeep := updateRecord_failureKeeps_iff hi hrid hlive hupd
      rw [Store.exec] at hupd
      rw [hupd] at hrun
      obtain ⟨rfl, rfl⟩ : (res, { rm with heapFile := h' }) = r ∧ t = st' := by
        simpa [Prog.run, pure] using hrun
      rw [hover, Nat.not_lt]
      exact hkeep

/-- `UpdateRow` on an open table is that of its record manager. -/
theorem tableUpdateRow_exec {db : Database σ} (hopen : db.openTables.find? table = some rm)
    (rid : RecordId) (values : Row) :
    (TableManager.updateRow table rid values).exec db
      = (Store.exec (C := Empty) (rm.updateRow rid values) db.dataPool).map fun p => (p.1.1, { db with
          dataPool := p.2, openTables := db.openTables.adjust table fun _ => p.1.2 }) := by
  simp only [TableManager.updateRow, TableManager.requireTable, TableManager.getOrOpen,
    TableManager.callTable, Database.onData, Action.exec_bind, Action.exec_get, hopen,
    Action.exec_pure, Action.exec_onPart, Action.exec_modify, Action.exec_ofResult]
  cases Store.exec (C := Empty) (rm.updateRow rid values) db.dataPool with
  | error f => rfl
  | ok p => rfl

theorem tableUpdateRow_failureKeeps_iff {db db' : Database σ}
    (hopen : db.openTables.find? table = some rm) (hi : HeapInv db.dataPool rm.heapFile chain)
    (hrid : rid.pageId ∈ chain) (hlive : recordAt db.dataPool rid ≠ none) {r : Result RecordId}
    (hexec : (TableManager.updateRow table rid values).exec db = .ok (r, db')) :
    ∃ rm', db'.openTables.find? table = some rm' ∧
      (FailureKeeps rid db.dataPool rm.heapFile r db'.dataPool rm'.heapFile
        ↔ ¬ OversizedRow rm.schema values) := by
  rw [tableUpdateRow_exec hopen] at hexec
  cases hrun : Store.exec (C := Empty) (rm.updateRow rid values) db.dataPool with
  | error f => simp [hrun, Except.map] at hexec
  | ok p =>
    obtain ⟨⟨res, rm'⟩, st'⟩ := p
    rw [hrun] at hexec
    obtain ⟨rfl, rfl⟩ : res = r ∧ _ = db' := by simpa [Except.map] using hexec
    refine ⟨rm', ?_, updateRow_failureKeeps_iff hi hrid hlive hrun⟩
    rw [UnorderedMap.find?_adjust, if_pos rfl, hopen]
    rfl

/-- A heap file of a pool, and the record ids it has handed out. -/
theorem heapInv_of_run {history : List (HeapOp × HeapAnswer)} {s : Heaps}
    (hrun : Run Heaps.exec ⟨st, []⟩ history s)
    (hids : Guarded (fun before op _ => op.OnHeap HeapCall.OwnIds (views before)) history) {f : Nat}
    {v : HeapView} (hf : s.files[f]? = some h) (hv : (views history)[f]? = some v) :
    ∃ chain, HeapInv s.store h chain ∧ ∀ rid ∈ v.issued, rid.pageId ∈ chain := by
  obtain ⟨rows, hs⟩ := heapsInv_of_run hrun hids
  obtain ⟨l, a, r, rfl, rfl, rfl⟩ := hs.split hv
  obtain rfl : a.file = h := by simpa [hs.files_eq] using hf
  have ha := hs.row a (by simp)
  exact ⟨a.chain, ha.inv, ha.issued⟩

/-- **A failed update is atomic exactly if it is not about size.**  For every heap file reached by any
history of calls on the heaps of a pool, every live record of it and every update that returns: the
failure of the call leaves the record and the scan as they were if and only if the new bytes are no
longer than a page can hold.  For `UpdateRow` of a record manager or a table on that heap file, the
row must not be one whose record is too long for a page and short enough for the codec. -/
theorem failedUpdate_keeps_iff (st : Store) {history : List (HeapOp × HeapAnswer)} {s : Heaps}
    (hrun : Run Heaps.exec ⟨st, []⟩ history s)
    (hids : Guarded (fun before op _ => op.OnHeap HeapCall.OwnIds (views before)) history)
    {f : Nat} {h : HeapFile} {v : HeapView} (hf : s.files[f]? = some h)
    (hv : (views history)[f]? = some v) {rid : RecordId} (hrid : rid ∈ v.issued) {bs : List UInt8}
    (hlive : Store.exec (C := Empty) (fun _ => getRecordBytes rid) s.store = .ok (.ok bs, s.store)) :
    (∀ d r st', Store.exec (C := Empty) (HeapFile.updateRecord h rid d) s.store = .ok (r, st') →
      (FailureKeeps rid s.store h r.1 st' r.2 ↔ d.bytes.length ≤ kMaxRecordSize)) ∧
    (∀ schema values r st',
      Store.exec (C := Empty) (RecordManager.updateRow ⟨h, schema⟩ rid values) s.store
        = .ok (r, st') →
      (FailureKeeps rid s.store h r.1 st' r.2.heapFile ↔ ¬ OversizedRow schema values)) ∧
    ∀ (σ : Type) (db db' : Database σ) table schema values r, db.dataPool = s.store →
      db.openTables.find? table = some ⟨h, schema⟩ →
      (TableManager.updateRow table rid values).exec db = .ok (r, db') →
      ∃ rm', db'.openTables.find? table = some rm' ∧
        (FailureKeeps rid s.store h r db'.dataPool rm'.heapFile ↔ ¬ OversizedRow schema values) := by
  obtain ⟨chain, hi, hissued⟩ := heapInv_of_run hrun hids hf hv
  have hmem := hissued rid hrid
  have hsome : recordAt s.store rid ≠ none := by
    intro hnone
    rw [getRecordBytes_exec hi hmem, hnone] at hlive
    simp at hlive
  refine ⟨fun d r st' hexec => updateRecord_failureKeeps_iff hi hmem hsome hexec,
    fun schema values r st' hexec => updateRow_failureKeeps_iff hi hmem hsome hexec, ?_⟩
  intro σ db db' table schema values r hpool hopen hexec
  rw [← hpool] at hi hsome ⊢
  exact tableUpdateRow_failureKeeps_iff hopen hi hmem hsome hexec

theorem ok_of_toOption {ε α : Type} {x : Except ε α} {a : α} (h : x.toOption = some a) :
    x = .ok a := by
  cases x with
  | error e => cases h
  | ok b => rw [Option.some.inj h]

theorem shortInsert_ownIds :
    Guarded (fun before op _ => op.OnHeap HeapCall.OwnIds (views before)) shortInsert :=
  shortInsert_proper.mono fun _ _ _ h => h.mono fun _ _ hc => hc.1

/-- The heap with one short record, and what an update of it to 4081 bytes answers. -/
theorem run_shortInsert : ∃ s chain, Run Heaps.exec ⟨Store.new, []⟩ shortInsert s ∧
    s.files[0]? = some ⟨1, 1⟩ ∧ HeapInv s.store ⟨1, 1⟩ chain ∧ 1 ∈ chain ∧
    recordAt s.store ⟨1, 0⟩ = some [65] ∧
    ∃ h' st', Store.exec (C := Empty) (HeapFile.updateRecord ⟨1, 1⟩ ⟨1, 0⟩ oversizedRecord) s.store
      = .ok ((.error recordTooLarge, h'), st') := by
  obtain ⟨s, hrun, hcheck⟩ := exists_run_of_check Heaps.exec ⟨Store.new, []⟩
    (shortInsert.map Prod.fst) shortInsert
    (fun s : Heaps => decide (s.files[0]? = some (⟨1, 1⟩ : HeapFile) ∧
      recordAt s.store ⟨1, 0⟩ = some [65] ∧
      (Store.exec (C := Empty) (HeapFile.updateRecord ⟨1, 1⟩ ⟨1, 0⟩ oversizedRecord)
        s.store).toOption.map (fun p => p.1.1) = some (.error recordTooLarge)))
    (by decide +kernel)
  obtain ⟨hfile, hrec, hupd⟩ := of_decide_eq_true hcheck
  obtain ⟨⟨⟨r, h'⟩, st'⟩, hexec, rfl⟩ := Option.map_eq_some_iff.mp hupd
  obtain ⟨chain, hi, hissued⟩ := heapInv_of_run hrun shortInsert_ownIds hfile
    (v := ⟨[⟨1, 0⟩], Function.update (fun _ => none) ⟨1, 0⟩ (some [65])⟩) rfl
  exact ⟨s, chain, hrun, hfile, hi, hissued ⟨1, 0⟩ (List.mem_singleton_self _), hrec, h', st',
    ok_of_toOption hexec⟩

/-- An update to a byte more than the record has keeps what it should. -/
theorem failedUpdate_keeps_iff_shortInsert : ∃ s, Run Heaps.exec ⟨Store.new, []⟩ shortInsert s ∧
    ∀ r st', Store.exec (C := Empty)
        (HeapFile.updateRecord ⟨1, 1⟩ ⟨1, 0⟩ ⟨[66, 67], by decide⟩) s.store = .ok (r, st') →
      FailureKeeps ⟨1, 0⟩ s.store ⟨1, 1⟩ r.1 st' r.2 := by
  obtain ⟨s, chain, hrun, hfile, hi, hmem, hrec, -⟩ := run_shortInsert
  have hlive : Store.exec (C := Empty) (fun _ => getRecordBytes ⟨1, 0⟩) s.store
      = .ok (.ok [65], s.store) := by rw [getRecordBytes_exec hi hmem, hrec]
  refine ⟨s, hrun, fun r st' hexec => ?_⟩
  have hall := failedUpdate_keeps_iff Store.new hrun shortInsert_ownIds hfile
    (v := ⟨[⟨1, 0⟩], Function.update (fun _ => none) ⟨1, 0⟩ (some [65])⟩) rfl
    (List.mem_singleton_self _) hlive
  exact (hall.1 _ r st' hexec).mpr (by decide)

/-- The update of the short record to 4081 bytes fails, and the record is gone. -/
theorem failedUpdate_loses_record : ∃ s h' st', Run Heaps.exec ⟨Store.new, []⟩ shortInsert s ∧
    Store.exec (C := Empty) (fun _ => getRecordBytes ⟨1, 0⟩) s.store = .ok (.ok [65], s.store) ∧
    Store.exec (C := Empty) (HeapFile.updateRecord ⟨1, 1⟩ ⟨1, 0⟩ oversizedRecord) s.store
      = .ok ((.error recordTooLarge, h'), st') ∧
    ¬ FailureKeeps ⟨1, 0⟩ s.store ⟨1, 1⟩ (.error recordTooLarge) st' h' := by
  obtain ⟨s, chain, hrun, -, hi, hmem, hrec, h', st', hupd⟩ := run_shortInsert
  refine ⟨s, h', st', hrun, by rw [getRecordBytes_exec hi hmem, hrec], hupd, fun hkeep => ?_⟩
  have hsome : recordAt s.store ⟨1, 0⟩ ≠ none := by simp [hrec]
  have hfits := (updateRecord_failureKeeps_iff hi hmem hsome hupd).mp hkeep
  exact absurd hfits (by decide +kernel)

end MiniDB.RecordManager
