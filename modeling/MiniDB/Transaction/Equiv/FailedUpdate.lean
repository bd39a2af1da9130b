import MiniDB.Transaction.Equiv.FirstUpdater

/-!
# Updates that fail

`UpdateVersion` marks the old version as deleted before the new values are checked, encoded and stored,
and does not take the mark back if that fails.  The caller gets an error, and its transaction has lost
the row: it does not see it any more, and after it commits nobody does who begins later.
-/

namespace MiniDB.MvccSystem

open Paged Runs Mvcc TransactionManager VersionedRecordStore

variable {s s' : MvccSystem} {rid : RecordId}

/-- `ScanVisible` of every transaction returns the same rows in both states. -/
def SameScans (s s' : MvccSystem) : Prop :=
  ∀ x, (s'.scanVisible x).map Multiset.ofList = (s.scanVisible x).map Multiset.ofList

/-- Nobody can tell the states apart by scanning, before or after the transaction `t` commits. -/
structure Unnoticed (t : TxnId) (s s' : MvccSystem) : Prop where
  now : SameScans s s'
  later : ∀ {r s₁ r' s₁'}, s.exec (.txn (.commit (some t))) = .ok (r, s₁) →
    s'.exec (.txn (.commit (some t))) = .ok (r', s₁') → SameScans s₁ s₁'

/-- What `UpdateVersion` of a version does to the system. -/
theorem updateVersion_exec {chain : List PageId} {f : RecordId → Option (VersionMeta × Row)}
    (hholds : Holds s.pool s.records chain f) {w : VersionMeta × Row} (hw : f rid = some w)
    {t : TxnId} {values : Row} {r : MvccAnswer}
    (hexec : s.exec (.updateVersion t rid values) = .ok (r, s')) :
    s'.txnMgr = s.txnMgr ∧ ∃ res, r = .record res ∧
      (∃ chain', Holds s'.pool s'.records chain' (inserted t values res (deleted t rid f))) ∧
      ((∃ new, res = .ok new) ↔ Storable s.records.schema values) := by
  rw [exec, call] at hexec
  rcases Store.exec_of_wp (updateVersion_wp hholds hw t values
    (Nat.lt_succ_of_le hholds.inv.length_le)) with herror | ⟨⟨res, records⟩, pool, hok, -, hholds', hiff⟩
  · rw [herror] at hexec
    cases hexec
  · rw [hok] at hexec
    cases hexec
    exact ⟨rfl, res, rfl, hholds', hiff⟩

/-- **A failed update of a version is noticed.**  Let the heap file of a versioned store hold any versions,
and let the transaction manager have executed any calls.  A transaction `t` calls `UpdateVersion` on a
version that its own scan returns.  That a failure of this call goes unnoticed holds if and only if it
does not fail, because the new values fit the schema and a page: otherwise the old version is already
marked as deleted by `t`. -/
theorem failed_update_unnoticed_iff {calls : List (TxnCall × TxnAnswer)}
    (hmgr : ManagerInv calls s.txnMgr) {chain : List PageId}
    {f : RecordId → Option (VersionMeta × Row)} (hholds : Holds s.pool s.records chain f)
    {t : TxnId} {rows : List (RecordId × Row)} (hscan : s.scanVisible t = some rows) {row : Row}
    (hmem : (rid, row) ∈ rows) {values : Row} {r : MvccAnswer}
    (hexec : s.exec (.updateVersion t rid values) = .ok (r, s')) :
    (∀ e, r = .record (.error e) → Unnoticed t s s') ↔ Storable s.records.schema values := by
  obtain ⟨reader, hreader⟩ := getTransaction_of_scanVisible hscan
  obtain ⟨rows₀, hscan₀, hlists⟩ := scanVisible_eq hholds hreader
  obtain rfl := Option.some.inj (hscan.symm.trans hscan₀)
  obtain ⟨w, hw, -⟩ := Option.bind_eq_some_iff.mp ((hlists.mem_iff rid row).mp hmem)
  obtain ⟨hsame, res, rfl, ⟨chain', hholds'⟩, hok⟩ := updateVersion_exec hholds hw hexec
  rw [← hok]
  cases res with
  | ok new => exact iff_of_true nofun ⟨new, rfl⟩
  | error e =>
    refine iff_of_false (fun hunnoticed => ?_) nofun
    -- the transaction does not see the old version any more
    obtain ⟨rows', hscan', hlists'⟩ := scanVisible_eq hholds' (hsame ▸ hreader)
    have hmultiset := (hunnoticed e rfl).now t
    rw [hscan, hscan', Option.map_some, Option.map_some, Option.some.injEq, Multiset.coe_eq_coe]
      at hmultiset
    have hmem' := (hlists'.mem_iff rid row).mp (hmultiset.symm.subset hmem)
    rw [inserted, deleted, Function.update_self, hw, Option.map_some, Option.bind_some, seen,
      isVisible, hmgr.id_eq hreader] at hmem'
    simp at hmem'

/-- The row of `oneRow`, and a transaction that begins after it. -/
def oneReader : List (MvccCall × MvccAnswer) :=
  oneRow ++ [(.txn (.begin .snapshotIsolation), .txn (.begun 2))]

theorem failed_update_unnoticed_oneReader : ∃ s₀ s r s',
    create noTransactions Store.new oneColumn = .ok s₀ ∧ Run exec s₀ oneReader s ∧
    s.scanVisible 2 = some [(first, [.int32 7])] ∧
    s.exec (.updateVersion 2 first [.int32 8]) = .ok (r, s') ∧
    ∀ e, r = .record (.error e) → Unnoticed 2 s s' := by
  obtain ⟨s₀, s, hcreate, hrun, hproper, hcheck⟩ := exists_proper_run oneColumn
    (oneReader.map Prod.fst) oneReader
    (fun s => decide (s.scanVisible 2 = some [(first, [.int32 7])] ∧ s.records.schema = oneColumn) &&
      (s.exec (.updateVersion 2 first [.int32 8])).isOk) (by decide +kernel)
  obtain ⟨hcheck, hok⟩ := Bool.and_eq_true_iff.mp hcheck
  obtain ⟨hscan, hschema⟩ := of_decide_eq_true hcheck
  have hinv := MvccInv.throughout rfl hcreate hrun hproper oneReader [] s (List.append_nil _).symm hrun
  obtain ⟨chain, hholds⟩ := hinv.holds
  cases hexec : s.exec (.updateVersion 2 first [.int32 8]) with
  | error e =>
    rw [hexec] at hok
    cases hok
  | ok p =>
    obtain ⟨r, s'⟩ := p
    refine ⟨s₀, s, r, s', hcreate, hrun, hscan, hexec, ?_⟩
    refine (failed_update_unnoticed_iff hinv.txns hholds hscan (List.mem_singleton_self _) hexec).mpr ?_
    rw [hschema]
    exact ⟨_, rfl, by decide⟩

/-- A transaction fails to update the row and commits, and another one begins. -/
def failedUpdate : List (MvccCall × MvccAnswer) :=
  [(.updateVersion 2 first [.string (lit "x")], .record (.error ⟨.invalidArgument,
      lit "RecordCodec::Encode: type mismatch for column 'a'"⟩)),
    (.txn (.commit (some 2)), .txn (.status (.ok ()))),
    (.txn (.begin .snapshotIsolation), .txn (.begun 3))]

/-- The row is gone, which was visible to it before. -/
theorem failed_update_loses_row : ∃ s₀ s s',
    create noTransactions Store.new oneColumn = .ok s₀ ∧ Run exec s₀ oneReader s ∧
    s.scanVisible 2 = some [(first, [.int32 7])] ∧ Run exec s₀ (oneReader ++ failedUpdate) s' ∧
    s'.scanVisible 2 = some [] ∧ s'.scanVisible 3 = some [] := by
  obtain ⟨s₀, s, hcreate, hrun, -, hcheck⟩ := exists_proper_run oneColumn
    (oneReader.map Prod.fst) oneReader
    (fun s => decide (s.scanVisible 2 = some [(first, [.int32 7])])) (by decide +kernel)
  obtain ⟨s₀', s', hcreate', hrun', -, hcheck'⟩ := exists_proper_run oneColumn
    ((oneReader ++ failedUpdate).map Prod.fst) (oneReader ++ failedUpdate)
    (fun s => decide (s.scanVisible 2 = some [] ∧ s.scanVisible 3 = some [])) (by decide +kernel)
  cases hcreate.symm.trans hcreate'
  exact ⟨s₀, s, s', hcreate, hrun, of_decide_eq_true hcheck, hrun', of_decide_eq_true hcheck'⟩

end MiniDB.MvccSystem
