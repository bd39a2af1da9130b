import MiniDB.Transaction.Equiv.Mvcc

/-!
# Concurrent writers of one version

`DeleteVersion` and `UpdateVersion` overwrite the deleter of a version whoever it is.  A transaction
with an older snapshot still sees a version that another one has deleted, and may write to it: then a
committed deletion is forgotten when the second writer aborts (`overwritten_delete_reappears`), and
both new versions stay when it commits (`both_updates_visible`).

Neither happens if the first writer wins: a transaction writes to a version only if nobody else has
done so, those that aborted apart.
-/

namespace MiniDB.MvccSystem

open Paged Runs Mvcc TransactionManager VersionedRecordStore Versions
open List (append_assoc append_nil mem_append mem_append_left mem_append_right mem_singleton)

variable {transactions : UnorderedMap TxnId Transaction} {pool : Store} {schema : Schema}
  {s₀ s s' : MvccSystem} {history : List (MvccCall × MvccAnswer)} {c : MvccCall} {r : MvccAnswer}
  {setup later : List (MvccCall × MvccAnswer)} {t D R : TxnId} {rid v : RecordId}
  {f : RecordId → Option (VersionMeta × Row)} {w : VersionMeta × Row} {res : Result RecordId} {values : Row}

/-! ### Deletions -/

/-- The version has no deleter, or `t`, or one that aborted. -/
def FreeFor (history : List (MvccCall × MvccAnswer)) (t : TxnId) (rid : RecordId) : Prop :=
  ∀ v ∈ versions history rid, v.1.xmax = kInvalidTxnId ∨ v.1.xmax = t ∨
    aborting v.1.xmax ∈ txnCalls history

/-- Transactions delete and update only versions that are free for them. -/
def FirstWriter (history : List (MvccCall × MvccAnswer)) (c : MvccCall) (_ : MvccAnswer) : Prop :=
  match c with
  | .deleteVersion t rid | .updateVersion t rid _ => FreeFor history t rid
  | .insertVersion .. | .txn _ => True

instance : Decidable (FreeFor history t rid) := inferInstanceAs (Decidable (∀ v ∈ _, _))

instance : Decidable (FirstWriter history c r) :=
  match c with
  | .deleteVersion t rid | .updateVersion t rid _ => inferInstanceAs (Decidable (FreeFor _ t rid))
  | .insertVersion .. | .txn _ => .isTrue trivial

/-- `D` has deleted or updated `v`. -/
def Deletes (D : TxnId) (v : RecordId) (e : MvccCall × MvccAnswer) : Prop :=
  e = (.deleteVersion D v, .status (.ok ())) ∨
    ∃ values rid, e = (.updateVersion D v values, .record (.ok rid))

/-- The deletions of the history stand, unless their transactions have aborted. -/
def DeletesStand (history : List (MvccCall × MvccAnswer)) : Prop :=
  ∀ D v, (∃ e ∈ history, Deletes D v e) → D ≠ kInvalidTxnId ∧
    (aborting D ∉ txnCalls history → ∃ w, versions history v = some w ∧ w.1.xmax = D)

theorem deletes_snoc {e : MvccCall × MvccAnswer} : (∃ e' ∈ history ++ [e], Deletes D v e') ↔
    (∃ e' ∈ history, Deletes D v e') ∨ Deletes D v e := by
  constructor
  · rintro ⟨e', hmem, hdel⟩
    rcases mem_append.mp hmem with hmem | hmem
    · exact .inl ⟨e', hmem, hdel⟩
    · rw [mem_singleton.mp hmem] at hdel
      exact .inr hdel
  · rintro (⟨e', hmem, hdel⟩ | hdel)
    · exact ⟨e', mem_append_left _ hmem, hdel⟩
    · exact ⟨e, mem_append_right _ (List.mem_singleton_self e), hdel⟩

/-- When `t` deletes a version that is free for it, the deletions of the others stand. -/
theorem DeletesStand.after (h : DeletesStand history) (hw : versions history rid = some w)
    (hfree : FreeFor history t rid) (hdel : (∃ e ∈ history, Deletes D v e) ∨ D = t ∧ v = rid)
    (hnot : aborting D ∉ txnCalls history) :
    ∃ w, deleted t rid (versions history) v = some w ∧ w.1.xmax = D := by
  by_cases hv : v = rid
  · subst hv
    refine ⟨(⟨w.1.xmin, t⟩, w.2), ?_, ?_⟩
    · rw [deleted, Function.update_self, hw]
      rfl
    · show t = D
      rcases hdel with hdel | ⟨rfl, -⟩
      · -- the deleter was `D`, and the version was free for `t`
        obtain ⟨hzero, hstands⟩ := h D v hdel
        obtain ⟨w', hw', rfl⟩ := hstands hnot
        rcases hfree w' hw' with hnone | hself | haborted
        · exact absurd hnone hzero
        · exact hself.symm
        · exact absurd haborted hnot
      · rfl
  · rcases hdel with hdel | ⟨-, heq⟩
    · rw [deleted, Function.update_of_ne hv]
      exact (h D v hdel).2 hnot
    · exact absurd heq hv

theorem DeletesStand.step (h : DeletesStand history) (hall : Throughout exec s₀ MvccInv history)
    (hrun : Run exec s₀ history s) (hproper : ProperCall s₀ history c r)
    (hfirst : FirstWriter history c r) (hexec : s.exec c = .ok (r, s')) :
    DeletesStand (history ++ [(c, r)]) := by
  have hinv := hall history [] s (append_nil _).symm hrun
  intro D v hdel
  rw [deletes_snoc] at hdel
  rcases MvccInv.exec_cases hall hrun hproper hexec with ⟨c, r, rfl, rfl, -⟩ |
    ⟨t, hactive, -, -, hwrites⟩
  · obtain ⟨hzero, hstands⟩ := h D v (hdel.resolve_right (by rintro (heq | ⟨_, _, heq⟩) <;> cases heq))
    rw [versions_snoc, txnCalls_snoc_txn]
    exact ⟨hzero, fun hnot => hstands fun hmem => hnot (mem_append_left _ hmem)⟩
  · -- a transaction that acts has an id other than 0
    have hpos : t ≠ kInvalidTxnId := by
      rintro rfl
      rw [hinv.txns.stateOf_zero] at hactive
      cases hactive
    rw [hwrites.txnCalls_snoc, versions_snoc]
    cases hwrites with
    | insert hfresh =>
      obtain ⟨hzero, hstands⟩ := h D v (hdel.resolve_right (by rintro (heq | ⟨_, _, heq⟩) <;> cases heq))
      refine ⟨hzero, fun hnot => ?_⟩
      obtain ⟨w, hw, hxmax⟩ := hstands hnot
      exact ⟨w, inserted_of_some hfresh hw, hxmax⟩
    | @delete rid w _ hw =>
      have hdel' : (∃ e ∈ history, Deletes D v e) ∨ D = t ∧ v = rid := by
        refine hdel.imp id ?_
        rintro (heq | ⟨_, _, heq⟩) <;> cases heq
        exact ⟨rfl, rfl⟩
      refine ⟨?_, h.after hw hfirst hdel'⟩
      rcases hdel' with hdel' | ⟨rfl, -⟩
      · exact (h D v hdel').1
      · exact hpos
    | @update rid w values res _ hw hfresh =>
      have hdel' : (∃ e ∈ history, Deletes D v e) ∨ D = t ∧ v = rid := by
        refine hdel.imp id ?_
        rintro (heq | ⟨_, _, heq⟩) <;> cases heq
        exact ⟨rfl, rfl⟩
      constructor
      · rcases hdel' with hdel' | ⟨rfl, -⟩
        · exact (h D v hdel').1
        · exact hpos
      · intro hnot
        obtain ⟨w', hw', hxmax⟩ := h.after hw hfirst hdel' hnot
        refine ⟨w', inserted_of_some (fun rid' hrid' => ?_) hw', hxmax⟩
        exact deleted_eq_none_iff.mpr (hfresh rid' hrid')

theorem DeletesStand.run (hempty : transactions.entries = [])
    (hcreate : create transactions pool schema = .ok s₀) (hrun : Run exec s₀ history s)
    (hproper : Guarded (ProperCall s₀) history) (hfirst : Guarded FirstWriter history) :
    DeletesStand history := by
  induction hrun with
  | nil =>
    rintro D v ⟨e, hmem, -⟩
    cases hmem
  | snoc hrun hexec ih =>
    obtain ⟨hproper', hcall⟩ := guarded_snoc.mp hproper
    obtain ⟨hfirst', hfree⟩ := guarded_snoc.mp hfirst
    exact (ih hproper' hfirst').step (MvccInv.throughout hempty hcreate hrun hproper') hrun hcall
      hfree hexec

/-- **Committed deletes stay deleted, if the first writer wins.**  Once `D` has deleted or updated
`v` and has committed, no transaction that begins later is shown `v` by `ScanVisible`. -/
theorem committed_deletes_stay (hempty : transactions.entries = [])
    (hcreate : create transactions pool schema = .ok s₀) (hrun : Run exec s₀ history s)
    (hproper : Guarded (ProperCall s₀) history) (hfirst : Guarded FirstWriter history)
    (hdel : ∃ e ∈ history, Deletes D v e) (hafter : CommittedBefore (txnCalls history) R D) :
    ∃ rows, s.scanVisible R = some rows ∧ ∀ row, (v, row) ∉ rows := by
  have h := MvccInv.throughout hempty hcreate hrun hproper history [] s (List.append_nil _).symm hrun
  obtain ⟨level, hprecedes⟩ := id hafter
  obtain ⟨reader, hreader, -⟩ := (h.txns.begun _ _).mp hprecedes.right_mem
  have hcommitted := hprecedes.left_mem
  have hnot : aborting D ∉ txnCalls history := by
    intro haborted
    have hstate := (h.txns.aborted D).mpr haborted
    rw [(h.txns.committed D).mpr hcommitted] at hstate
    cases hstate
  obtain ⟨w, hw, hxmax⟩ := (DeletesStand.run hempty hcreate hrun hproper hfirst D v hdel).2 hnot
  obtain ⟨rows, hscan, hlists⟩ := h.scanVisible hreader
  refine ⟨rows, hscan, fun row hmem => ?_⟩
  -- the reader accepts the deleter, so that it is not shown the version
  obtain ⟨w', hw', hseen⟩ := Option.bind_eq_some_iff.mp ((hlists.mem_iff v row).mp hmem)
  obtain rfl := Option.some.inj (hw.symm.trans hw')
  rw [seen] at hseen
  split_ifs at hseen with hvisible
  refine ((h.txns.isVisible_iff hreader w.1).mp hvisible).2 (.inr ?_)
  rw [hxmax, Accepts, h.txns.id_eq hreader]
  cases reader.isolationLevel with
  | readCommitted => exact hcommitted
  | snapshotIsolation => exact hafter

/-- A table of one INT column. -/
def oneColumn : Schema := ⟨[{ name := lit "a", type := .int }]⟩

def first : RecordId := ⟨1, 0⟩

/-- A transaction has inserted a row and committed; two more have begun. -/
def twoReaders : List (MvccCall × MvccAnswer) :=
  [(.txn (.begin .snapshotIsolation), .txn (.begun 1)),
    (.insertVersion 1 [.int32 7], .record (.ok first)),
    (.txn (.commit (some 1)), .txn (.status (.ok ()))),
    (.txn (.begin .snapshotIsolation), .txn (.begun 2)),
    (.txn (.begin .snapshotIsolation), .txn (.begun 3))]

/-- The second transaction deletes the row and commits, and a fourth one begins. -/
def deletedFirst : List (MvccCall × MvccAnswer) := twoReaders ++
  [(.deleteVersion 2 first, .status (.ok ())), (.txn (.commit (some 2)), .txn (.status (.ok ()))),
    (.txn (.begin .snapshotIsolation), .txn (.begun 4))]

theorem committed_deletes_stay_deletedFirst : ∃ s₀ s rows,
    create noTransactions Store.new oneColumn = .ok s₀ ∧ Run exec s₀ deletedFirst s ∧
    Guarded (ProperCall s₀) deletedFirst ∧ Guarded FirstWriter deletedFirst ∧
    CommittedBefore (txnCalls deletedFirst) 4 2 ∧
    s.scanVisible 4 = some rows ∧ ∀ row, (first, row) ∉ rows := by
  obtain ⟨s₀, s, hcreate, hrun, hproper, -⟩ := exists_proper_run oneColumn
    (deletedFirst.map Prod.fst) deletedFirst (fun _ => true) (by decide +kernel)
  have hfirst : Guarded FirstWriter deletedFirst := by decide +kernel
  have hafter : CommittedBefore (txnCalls deletedFirst) 4 2 :=
    ⟨.snapshotIsolation, (txnCalls deletedFirst).take 5, [], by decide, by decide⟩
  obtain ⟨rows, hscan, hnot⟩ := committed_deletes_stay rfl hcreate hrun hproper hfirst
    ⟨(.deleteVersion 2 first, .status (.ok ())), by decide, .inl rfl⟩ hafter
  exact ⟨s₀, s, rows, hcreate, hrun, hproper, hfirst, hafter, hscan, hnot⟩

/-- The third transaction still sees the row that the second one has deleted; it overwrites the
deleter and aborts. -/
def overwritten : List (MvccCall × MvccAnswer) := twoReaders ++
  [(.deleteVersion 2 first, .status (.ok ())), (.txn (.commit (some 2)), .txn (.status (.ok ()))),
    (.deleteVersion 3 first, .status (.ok ())), (.txn (.abort (some 3)), .txn (.status (.ok ()))),
    (.txn (.begin .snapshotIsolation), .txn (.begun 4))]

/-- The row whose deletion was committed is there again. -/
theorem overwritten_delete_reappears : ∃ s₀ s,
    create noTransactions Store.new oneColumn = .ok s₀ ∧ Run exec s₀ overwritten s ∧
    Guarded (ProperCall s₀) overwritten ∧ (∃ e ∈ overwritten, Deletes 2 first e) ∧
    CommittedBefore (txnCalls overwritten) 4 2 ∧
    s.scanVisible 4 = some [(first, [.int32 7])] := by
  obtain ⟨s₀, s, hcreate, hrun, hproper, hcheck⟩ := exists_proper_run oneColumn
    (overwritten.map Prod.fst) overwritten
    (fun s => s.scanVisible 4 = some [(first, [.int32 7])]) (by decide +kernel)
  have hdel : ∃ e ∈ overwritten, Deletes 2 first e :=
    ⟨(.deleteVersion 2 first, .status (.ok ())), by decide, .inl rfl⟩
  have hafter : CommittedBefore (txnCalls overwritten) 4 2 :=
    ⟨.snapshotIsolation, (txnCalls overwritten).take 6, [], by decide, by decide⟩
  exact ⟨s₀, s, hcreate, hrun, hproper, hdel, hafter, of_decide_eq_true hcheck⟩

/-! ### Updates -/

/-- Maker and deleter of the versions. -/
def stamps (f : RecordId → Option (VersionMeta × Row)) : RecordId → Option (Version TxnId) :=
  Option.map (fun v => ⟨v.1.xmin, v.1.xmax⟩) ∘ f

theorem stamps_deleted (hw : f rid = some w) (t : TxnId) :
    stamps (deleted t rid f) = Function.update (stamps f) rid (some ⟨w.1.xmin, t⟩) := by
  rw [stamps, deleted, Function.comp_update, hw]
  rfl

theorem stamps_inserted (t : TxnId) (values : Row) (new : RecordId)
    (f : RecordId → Option (VersionMeta × Row)) : stamps (inserted t values (.ok new) f)
      = Function.update (stamps f) new (some ⟨t, kInvalidTxnId⟩) := by
  rw [stamps, inserted, Function.comp_update]
  rfl

/-- The store holds one row, made by a transaction that has committed. -/
def OneCommittedRow (history : List (MvccCall × MvccAnswer)) : Prop :=
  ∃ v x row, committing x ∈ txnCalls history ∧
    ∀ rid, versions history rid = if rid = v then some (⟨x, kInvalidTxnId⟩, row) else none

/-- Transactions begin, update versions, and end. -/
def OnlyUpdates (c : MvccCall) : Prop :=
  match c with
  | .txn _ | .updateVersion .. => True
  | .insertVersion .. | .deleteVersion .. => False

/-- An update of the transaction has failed. -/
def Failed (history : List (MvccCall × MvccAnswer)) (t : TxnId) : Prop :=
  ∃ rid values e, (.updateVersion t rid values, .record (.error e)) ∈ history

/-- An answered update of the transaction that failed. -/
def isFailure (t : TxnId) : MvccCall × MvccAnswer → Bool
  | (.updateVersion t' _ _, .record (.error _)) => t' = t
  | _ => false

theorem any_isFailure : history.any (isFailure t) = true ↔ Failed history t := by
  rw [List.any_eq_true]
  constructor
  · rintro ⟨⟨c, r⟩, hmem, hfails⟩
    unfold isFailure at hfails
    split at hfails
    · next rid values e heq =>
      cases heq
      obtain rfl := of_decide_eq_true hfails
      exact ⟨rid, values, e, hmem⟩
    · cases hfails
  · rintro ⟨rid, values, e, hmem⟩
    exact ⟨_, hmem, decide_eq_true rfl⟩

instance : Decidable (Failed history t) := decidable_of_iff _ any_isFailure

/-- No transaction has written to the version, apart from those that aborted. -/
def Unwritten (history : List (MvccCall × MvccAnswer)) (rid : RecordId) : Prop :=
  ∀ v ∈ versions history rid, v.1.xmax = kInvalidTxnId ∨ aborting v.1.xmax ∈ txnCalls history

/-- Transactions update versions that nobody has written to, and do not commit if that fails. -/
def FirstUpdater (setup later : List (MvccCall × MvccAnswer)) (c : MvccCall) (r : MvccAnswer) : Prop :=
  match c, r with
  | .updateVersion _ rid _, _ => Unwritten (setup ++ later) rid
  | .txn (.commit (some t)), .txn (.status (.ok _)) => ¬ Failed later t
  | _, _ => True

instance : Decidable (Unwritten history rid) := inferInstanceAs (Decidable (∀ v ∈ _, _))

instance : Decidable (FirstUpdater setup later c r) :=
  match c, r with
  | .updateVersion _ rid _, _ => inferInstanceAs (Decidable (Unwritten _ rid))
  | .txn (.commit (some t)), .txn (.status (.ok _)) => inferInstanceAs (Decidable ¬ Failed later t)
  | .txn (.commit (some _)), .txn (.status (.error _)) => .isTrue trivial
  | .txn (.commit (some _)), .txn (.begun _) => .isTrue trivial
  | .txn (.commit (some _)), .record _ => .isTrue trivial
  | .txn (.commit (some _)), .status _ => .isTrue trivial
  | .txn (.commit none), _ => .isTrue trivial
  | .txn (.begin _), _ => .isTrue trivial
  | .txn (.abort _), _ => .isTrue trivial
  | .insertVersion .., _ => .isTrue trivial
  | .deleteVersion .., _ => .isTrue trivial

/-- Every reader sees one version: those that accept what has committed, and some active
transactions, and those with a snapshot. -/
structure OneVersion (setup later : List (MvccCall × MvccAnswer)) (s : MvccSystem) : Prop where
  sole : ∀ A : Set TxnId, (∀ x ∈ A, s.txnMgr.stateOf x = some .active ∧ ¬ Failed later x) →
    Sole ({x | committing x ∈ txnCalls (setup ++ later)} ∪ A) (stamps (versions (setup ++ later)))
  snapshot : ∀ R, beginning .snapshotIsolation R ∈ txnCalls later →
    s.txnMgr.stateOf R = some .active → ¬ Failed later R →
    Sole ({x | CommittedBefore (txnCalls (setup ++ later)) R x} ∪ {R})
      (stamps (versions (setup ++ later)))

/-- Makers and deleters are known to the transaction manager. -/
theorem MvccInv.known_of_stamps (h : MvccInv history s) {x : Version TxnId}
    (hx : stamps (versions history) v = some x) : s.txnMgr.stateOf x.maker ≠ none ∧
      (x.deleter = kInvalidTxnId ∨ s.txnMgr.stateOf x.deleter ≠ none) := by
  obtain ⟨w, hw, rfl⟩ := Option.map_eq_some_iff.mp hx
  exact h.makers hw

theorem failed_snoc_txn (c : TxnCall) (r : TxnAnswer) :
    Failed (later ++ [(.txn c, .txn r)]) t ↔ Failed later t := by
  refine exists_congr fun rid => exists_congr fun values => exists_congr fun e => ?_
  rw [mem_append, mem_singleton, or_iff_left (fun h => by cases h)]

/-- The transaction that begins has not written anything. -/
theorem OneVersion.begin (h : OneVersion setup later s) (hinv : MvccInv (setup ++ later) s)
    (level : IsolationLevel) (hmax : s.txnMgr.nextTxnId ≠ 0xFFFFFFFFFFFFFFFF) :
    OneVersion setup (later ++ [(.txn (.begin level), .txn (.begun s.txnMgr.nextTxnId))])
      { s with txnMgr := s.txnMgr.afterBegin level } := by
  have hnew : s.txnMgr.stateOf s.txnMgr.nextTxnId = none := by
    rw [stateOf, hinv.txns.getTransaction_next]
    rfl
  have hexec : s.txnMgr.exec (.begin level) =
      .ok (.begun s.txnMgr.nextTxnId, s.txnMgr.afterBegin level) := by
    rw [TransactionManager.exec, TransactionManager.begin, if_neg hmax]
    rfl
  have hsole : ∀ A : Set TxnId, (∀ x ∈ A, (s.txnMgr.afterBegin level).stateOf x = some .active ∧
        ¬ Failed later x) →
      Sole ({x | committing x ∈ txnCalls (setup ++ later)} ∪ A)
        (stamps (versions (setup ++ later))) := by
    intro A hA
    have hold := h.sole (A \ {s.txnMgr.nextTxnId}) fun x hx => by
      obtain ⟨hactive, hfailed⟩ := hA x hx.1
      rw [stateOf_afterBegin, if_neg fun heq => hx.2 (Set.mem_singleton_iff.mpr heq)] at hactive
      exact ⟨hactive, hfailed⟩
    refine hold.congr fun v x hx => ?_
    obtain ⟨hmaker, hdeleter⟩ := hinv.known_of_stamps hx
    have hne : ∀ y, s.txnMgr.stateOf y ≠ none → y ≠ s.txnMgr.nextTxnId := by
      rintro y hy rfl
      exact hy hnew
    have hiff : ∀ y, y ≠ s.txnMgr.nextTxnId →
        (y ∈ {x | committing x ∈ txnCalls (setup ++ later)} ∪ A ↔
          y ∈ {x | committing x ∈ txnCalls (setup ++ later)} ∪ A \ {s.txnMgr.nextTxnId}) := by
      intro y hy
      rw [Set.mem_union, Set.mem_union, Set.mem_sdiff, Set.mem_singleton_iff, and_iff_left hy]
    refine ⟨hiff _ (hne _ hmaker), hiff _ ?_⟩
    rcases hdeleter with hzero | hknown
    · rw [hzero]
      exact UInt64.ne_of_lt hinv.txns.next_pos
    · exact hne _ hknown
  have hcommitted : ∀ x, committing x ∈ txnCalls (setup ++ later) ++
      [beginning level s.txnMgr.nextTxnId] ↔ committing x ∈ txnCalls (setup ++ later) := by
    intro x
    rw [mem_append, mem_singleton, or_iff_left (fun h => by cases h)]
  constructor
  · intro A hA
    rw [← append_assoc, versions_snoc, txnCalls_snoc_txn]
    show Sole ({x | committing x ∈ _ ++ [beginning level s.txnMgr.nextTxnId]} ∪ A) _
    simp only [hcommitted]
    refine hsole A fun x hx => ?_
    rw [← failed_snoc_txn]
    exact hA x hx
  · intro R hR hactive hfailed
    rw [failed_snoc_txn] at hfailed
    rw [← append_assoc, versions_snoc, txnCalls_snoc_txn]
    rw [txnCalls_snoc_txn, mem_append, mem_singleton] at hR
    by_cases hself : R = s.txnMgr.nextTxnId
    · -- the new transaction accepts what has committed by now
      subst hself
      refine (hsole {s.txnMgr.nextTxnId} fun x hx => ?_).congr fun v x _ => ?_
      · rw [Set.mem_singleton_iff.mp hx]
        exact ⟨hactive, hfailed⟩
      · have hiff : ∀ y, CommittedBefore (txnCalls (setup ++ later) ++
            [beginning level s.txnMgr.nextTxnId]) s.txnMgr.nextTxnId y ↔
            committing y ∈ txnCalls (setup ++ later) := hinv.txns.committedBefore_new level
        exact ⟨or_congr (hiff _) Iff.rfl, or_congr (hiff _) Iff.rfl⟩
    · have hold : beginning .snapshotIsolation R ∈ txnCalls later := by
        refine hR.resolve_right fun heq => hself ?_
        exact TxnAnswer.begun.inj (Prod.mk.inj heq).2
      have hactive' : s.txnMgr.stateOf R = some .active := by
        rw [← hactive]
        exact ((stateOf_afterBegin ..).trans (if_neg hself)).symm
      obtain ⟨reader, hreader, -⟩ := Option.map_eq_some_iff.mp hactive'
      have hbefore := hinv.txns.committedBefore_step hexec hreader
      simp only [hbefore]
      exact h.snapshot R hold hactive' hfailed

/-- A transaction ends: if it commits, its work is accepted from now on. -/
theorem OneVersion.finish (h : OneVersion setup later s) (hinv : MvccInv (setup ++ later) s)
    {c : TxnCall} {state : TxnState} {txn : Transaction} (hends : Ends c t state)
    (ht : s.txnMgr.getTransaction t = some txn) (hactive : txn.state = .active)
    (hexec : s.txnMgr.exec c = .ok (.status (.ok ()), s.txnMgr.afterEnd t state))
    (hfailed : state = .committed → ¬ Failed later t) :
    OneVersion setup (later ++ [(.txn c, .txn (.status (.ok ())))])
      { s with txnMgr := s.txnMgr.afterEnd t state } := by
  have hstate : s.txnMgr.stateOf t = some .active := by
    rw [stateOf, ht, Option.map_some, hactive]
  -- those that are active now are other transactions, and were active before
  have hother : ∀ x, (s.txnMgr.afterEnd t state).stateOf x = some .active →
      x ≠ t ∧ s.txnMgr.stateOf x = some .active := by
    intro x hx
    rw [stateOf_afterEnd ht] at hx
    split_ifs at hx with heq
    · exact absurd (Option.some.inj hx) hends.ne_active
    · exact ⟨heq, hx⟩
  have hcommitted : ∀ x, committing x ∈ txnCalls (setup ++ later) ++ [(c, .status (.ok ()))] ↔
      committing x ∈ txnCalls (setup ++ later) ∨ state = .committed ∧ x = t := by
    intro x
    rw [mem_append, mem_singleton]
    refine or_congr_right ⟨fun heq => ?_, ?_⟩
    · have hc : Ends c x .committed := .inl ⟨(Prod.mk.inj heq).1.symm, rfl⟩
      obtain rfl := hc.id_eq hends
      exact ⟨(hc.call_eq_iff hends).mp rfl, rfl⟩
    · rintro ⟨rfl, rfl⟩
      obtain ⟨rfl, -⟩ | ⟨-, hstate⟩ := hends
      · rfl
      · cases hstate
  constructor
  · intro A hA
    rw [← append_assoc, versions_snoc, txnCalls_snoc_txn]
    simp only [hcommitted]
    by_cases hcommits : state = .committed
    · refine (h.sole (A ∪ {t}) ?_).congr fun v x _ => ?_
      · rintro x (hx | rfl)
        · obtain ⟨hx_active, hx_failed⟩ := hA x hx
          rw [failed_snoc_txn] at hx_failed
          exact ⟨(hother x hx_active).2, hx_failed⟩
        · exact ⟨hstate, hfailed hcommits⟩
      · have hiff : ∀ y, y ∈ {x | committing x ∈ txnCalls (setup ++ later) ∨
              state = .committed ∧ x = t} ∪ A ↔
            y ∈ {x | committing x ∈ txnCalls (setup ++ later)} ∪ (A ∪ {t}) := by
          intro y
          simp only [Set.mem_union, Set.mem_ofPred_eq, Set.mem_singleton_iff, hcommits, true_and]
          tauto
        exact ⟨hiff _, hiff _⟩
    · refine (h.sole A fun x hx => ?_).congr fun v x _ => ?_
      · obtain ⟨hx_active, hx_failed⟩ := hA x hx
        rw [failed_snoc_txn] at hx_failed
        exact ⟨(hother x hx_active).2, hx_failed⟩
      · simp only [hcommits, false_and, or_false, and_self]
  · intro R hR hR_active hR_failed
    obtain ⟨-, hR_active'⟩ := hother R hR_active
    rw [failed_snoc_txn] at hR_failed
    obtain ⟨reader, hreader, -⟩ := Option.map_eq_some_iff.mp hR_active'
    have hbefore := hinv.txns.committedBefore_step hexec hreader
    rw [← append_assoc, versions_snoc, txnCalls_snoc_txn]
    simp only [hbefore]
    refine h.snapshot R ?_ hR_active' hR_failed
    rw [txnCalls_snoc_txn, mem_append, mem_singleton] at hR
    refine hR.resolve_right fun heq => ?_
    cases heq

/-- A refused call changes nothing. -/
theorem OneVersion.refused (h : OneVersion setup later s) (hinv : MvccInv (setup ++ later) s)
    {c : TxnCall} {e : Status} (hexec : s.txnMgr.exec c = .ok (.status (.error e), s.txnMgr)) :
    OneVersion setup (later ++ [(.txn c, .txn (.status (.error e)))]) s := by
  have hcommitted : ∀ x, committing x ∈ txnCalls (setup ++ later) ++ [(c, .status (.error e))] ↔
      committing x ∈ txnCalls (setup ++ later) := by
    intro x
    rw [mem_append, mem_singleton, or_iff_left (fun h => by cases h)]
  constructor
  · intro A hA
    rw [← append_assoc, versions_snoc, txnCalls_snoc_txn]
    simp only [hcommitted]
    refine h.sole A fun x hx => ?_
    rw [← failed_snoc_txn]
    exact hA x hx
  · intro R hR hactive hfailed
    rw [failed_snoc_txn] at hfailed
    rw [txnCalls_snoc_txn, mem_append, mem_singleton, or_iff_left (fun h => by cases h)] at hR
    obtain ⟨reader, hreader, -⟩ := Option.map_eq_some_iff.mp hactive
    have hbefore := hinv.txns.committedBefore_step hexec hreader
    rw [← append_assoc, versions_snoc, txnCalls_snoc_txn]
    simp only [hbefore]
    exact h.snapshot R hR hactive hfailed

/-- A version that is free has no deleter that a reader could accept. -/
theorem Unwritten.deleter_ne (h : Unwritten history rid) (hinv : MvccInv history s)
    (hw : versions history rid = some w) :
    s.txnMgr.stateOf w.1.xmax ≠ some .active ∧ s.txnMgr.stateOf w.1.xmax ≠ some .committed := by
  rcases h w hw with hzero | haborted
  · rw [hzero, hinv.txns.stateOf_zero]
    exact ⟨nofun, nofun⟩
  · rw [(hinv.txns.aborted _).mpr haborted]
    exact ⟨nofun, nofun⟩

/-- A reader, and the update of a version by a transaction. -/
theorem sole_update {S : Set TxnId} (h : Sole S (stamps f)) (hw : f rid = some w) (hold : w.1.xmax ∉ S)
    (hfresh : ∀ new, res = .ok new → f new = none)
    (hcase : t ∉ S ∨ t ∈ S ∧ w.1.xmin ∈ S ∧ kInvalidTxnId ∉ S ∧ ∃ new, res = .ok new) :
    Sole S (stamps (inserted t values res (deleted t rid f))) := by
  have hstamp : stamps f rid = some ⟨w.1.xmin, w.1.xmax⟩ := by
    rw [stamps, Function.comp_apply, hw]
    rfl
  have hnone : ∀ new, f new = none → stamps f new = none := by
    intro new hnew
    rw [stamps, Function.comp_apply, hnew]
    rfl
  cases res with
  | error e =>
    obtain ht | ⟨-, -, -, new, hnew⟩ := hcase
    · rw [inserted, stamps_deleted hw]
      exact h.delete_of_notMem hstamp hold ht
    · cases hnew
  | ok new =>
    rw [stamps_inserted, stamps_deleted hw]
    obtain ht | ⟨ht, hmaker, hzero, -⟩ := hcase
    · exact h.update_of_notMem hstamp hold (hnone new (hfresh new rfl)) ht
    · exact h.update hstamp hmaker hold (hnone new (hfresh new rfl)) ht hzero

theorem failed_snoc_update {x : TxnId} :
    Failed (later ++ [(.updateVersion t rid values, .record res)]) x ↔
      Failed later x ∨ x = t ∧ ∃ e, res = .error e := by
  constructor
  · rintro ⟨rid', values', e, hmem⟩
    rcases mem_append.mp hmem with hmem | hmem
    · exact .inl ⟨rid', values', e, hmem⟩
    · cases mem_singleton.mp hmem
      exact .inr ⟨rfl, e, rfl⟩
  · rintro (⟨rid', values', e, hmem⟩ | ⟨rfl, e, rfl⟩)
    · exact ⟨rid', values', e, mem_append_left _ hmem⟩
    · exact ⟨rid, values, e, mem_append_right _ (List.mem_singleton_self _)⟩

/-- An update by `t`: readers that accept `t` see the new version in place of the old one. -/
theorem OneVersion.update (h : OneVersion setup later s)
    (hall : Throughout exec s₀ MvccInv (setup ++ later)) (hrun : Run exec s₀ (setup ++ later) s)
    (hactive : s.txnMgr.stateOf t = some .active) (hmgr : s'.txnMgr = s.txnMgr)
    (hreturned : Returned s₀ (setup ++ later) t rid) (hfree : Unwritten (setup ++ later) rid)
    (hfresh : ∀ new, res = .ok new → versions (setup ++ later) new = none) :
    OneVersion setup (later ++ [(.updateVersion t rid values, .record res)]) s' := by
  have hinv := hall (setup ++ later) [] s (append_nil _).symm hrun
  obtain ⟨w, reader, hw, hreader, hmaker⟩ := hreturned.version hall hrun
  obtain ⟨hnot_active, hnot_committed⟩ := hfree.deleter_ne hinv hw
  have hcalls : ∀ l, txnCalls (l ++ [(.updateVersion t rid values, .record res)]) = txnCalls l := by
    intro l
    rw [txnCalls_append]
    exact append_nil _
  have hzero := hinv.txns.stateOf_zero
  have hok : ∀ x, ¬ Failed (later ++ [(.updateVersion t rid values, .record res)]) x → x = t →
      ∃ new, res = .ok new := by
    rintro x hx rfl
    cases res with
    | error e => exact absurd (failed_snoc_update.mpr (.inr ⟨rfl, e, rfl⟩)) hx
    | ok new => exact ⟨new, rfl⟩
  constructor
  · intro A hA
    rw [hmgr] at hA
    rw [← append_assoc, versions_snoc, hcalls]
    have hcommitted : ∀ x, committing x ∈ txnCalls (setup ++ later) ↔
        s.txnMgr.stateOf x = some .committed := fun x => (hinv.txns.committed x).symm
    simp only [hcommitted]
    -- a transaction that is accepted is committed or active
    have haccepted : ∀ {x}, x ∈ {x | s.txnMgr.stateOf x = some .committed} ∪ A →
        s.txnMgr.stateOf x = some .committed ∨ s.txnMgr.stateOf x = some .active := by
      rintro x (hx | hx)
      · exact .inl hx
      · exact .inr (hA x hx).1
    have hbefore := h.sole A fun x hx => ⟨(hA x hx).1, fun hfailed =>
      (hA x hx).2 (failed_snoc_update.mpr (.inl hfailed))⟩
    simp only [hcommitted] at hbefore
    refine sole_update hbefore hw ?_ hfresh ?_
    · exact fun hmem => (haccepted hmem).elim hnot_committed hnot_active
    · by_cases ht : t ∈ A
      · refine .inr ⟨.inr ht, ?_, ?_, hok t (hA t ht).2 rfl⟩
        · rcases hmaker with hself | haccepts
          · rw [hself]
            exact .inr ht
          · exact .inl (hinv.txns.committed_of_accepts hreader haccepts)
        · intro hmem
          have hknown := haccepted hmem
          rw [hzero] at hknown
          exact hknown.elim nofun nofun
      · refine .inl fun hmem => hmem.elim (fun hstate => ?_) ht
        have hboth := hactive.symm.trans hstate
        cases hboth
  · intro R hR hR_active hR_failed
    rw [hcalls] at hR
    rw [hmgr] at hR_active
    rw [← append_assoc, versions_snoc, hcalls]
    obtain ⟨reader', hreader', hsnapshot⟩ :=
      (hinv.txns.begun .snapshotIsolation R).mp (by rw [txnCalls_append]; exact mem_append_right _ hR)
    have haccepted : ∀ {x}, CommittedBefore (txnCalls (setup ++ later)) R x →
        s.txnMgr.stateOf x = some .committed := fun hx => ((hinv.txns.snapshot hreader' _).mp hx).2.2
    have hbefore := h.snapshot R hR hR_active fun hfailed =>
      hR_failed (failed_snoc_update.mpr (.inl hfailed))
    refine sole_update hbefore hw ?_ hfresh ?_
    · rintro (hmem | hself)
      · exact hnot_committed (haccepted hmem)
      · rw [Set.mem_singleton_iff.mp hself] at hnot_active
        exact hnot_active hR_active
    · by_cases ht : t = R
      · subst ht
        obtain rfl := Option.some.inj (hreader.symm.trans hreader')
        refine .inr ⟨.inr rfl, ?_, ?_, hok t hR_failed rfl⟩
        · rcases hmaker with hself | haccepts
          · exact .inr hself
          · rw [accepts_snapshot hsnapshot, hinv.txns.id_eq hreader] at haccepts
            exact .inl haccepts
        · rintro (hmem | hself)
          · have hstate := haccepted hmem
            rw [hzero] at hstate
            cases hstate
          · rw [← Set.mem_singleton_iff.mp hself, hzero] at hactive
            cases hactive
      · refine .inl ?_
        rintro (hmem | hself)
        · have hboth := hactive.symm.trans (haccepted hmem)
          cases hboth
        · exact ht hself

theorem OneVersion.step (h : OneVersion setup later s)
    (hall : Throughout exec s₀ MvccInv (setup ++ later)) (hrun : Run exec s₀ (setup ++ later) s)
    (hproper : ProperCall s₀ (setup ++ later) c r) (honly : OnlyUpdates c)
    (hfirst : FirstUpdater setup later c r) (hexec : s.exec c = .ok (r, s')) :
    OneVersion setup (later ++ [(c, r)]) s' := by
  have hinv := hall (setup ++ later) [] s (append_nil _).symm hrun
  rcases MvccInv.exec_cases hall hrun hproper hexec with ⟨c, r, rfl, rfl, htxn, heq⟩ |
    ⟨t, hactive, hmgr, -, hwrites⟩
  · rw [heq]
    rcases TransactionManager.exec_cases htxn with ⟨level, rfl, hmax, rfl, hm⟩ |
      ⟨id, txn, state, hends, hid, htxn_active, rfl, hm⟩ | ⟨hne, ⟨e, rfl⟩, hm⟩
    · rw [hm]
      exact h.begin hinv level hmax
    · rw [hinv.txns.id_eq hid] at hm
      rw [hm] at htxn ⊢
      refine h.finish hinv hends hid htxn_active htxn fun hcommitted => ?_
      obtain ⟨rfl, -⟩ | ⟨-, haborted⟩ := hends
      · exact hfirst
      · rw [hcommitted] at haborted
        cases haborted
    · rw [hm] at htxn ⊢
      exact h.refused hinv htxn
  · cases hwrites with
    | insert => exact honly.elim
    | delete => exact honly.elim
    | update hreturned _ hfresh => exact h.update hall hrun hactive hmgr hreturned hfirst hfresh

theorem OneVersion.init (hinv : MvccInv setup s) (hrow : OneCommittedRow setup) :
    OneVersion setup [] s := by
  obtain ⟨v, x, row, hcommitted, hversions⟩ := hrow
  constructor
  · intro A hA
    rw [append_nil]
    have hzero : kInvalidTxnId ∉ {x | committing x ∈ txnCalls setup} ∪ A := by
      rintro (hmem | hmem)
      · have hstate := (hinv.txns.committed _).mpr hmem
        rw [hinv.txns.stateOf_zero] at hstate
        cases hstate
      · have hstate := (hA _ hmem).1
        rw [hinv.txns.stateOf_zero] at hstate
        cases hstate
    have hstamp : ∀ rid, stamps (versions setup) rid
        = if rid = v then some ⟨x, kInvalidTxnId⟩ else none := by
      intro rid
      rw [stamps, Function.comp_apply, hversions]
      split_ifs <;> rfl
    refine ⟨v, ⟨⟨x, kInvalidTxnId⟩, ?_, .inl hcommitted, hzero⟩, ?_⟩
    · rw [hstamp, if_pos rfl]
    · rintro rid ⟨y, hy, -⟩
      rw [hstamp] at hy
      split_ifs at hy with heq
      exact heq
  · intro R hR
    cases hR

theorem OneVersion.run (hempty : transactions.entries = [])
    (hcreate : create transactions pool schema = .ok s₀) (hrun : Run exec s₀ (setup ++ later) s)
    (hproper : Guarded (ProperCall s₀) (setup ++ later)) (hrow : OneCommittedRow setup)
    (honly : ∀ e ∈ later, OnlyUpdates e.1) (hfirst : Guarded (FirstUpdater setup) later) :
    OneVersion setup later s := by
  induction later using List.reverseRecOn generalizing s with
  | nil =>
    rw [append_nil] at hrun hproper
    have hall := MvccInv.throughout hempty hcreate hrun hproper
    exact OneVersion.init (hall setup [] s (append_nil _).symm hrun) hrow
  | append_singleton later e ih =>
    obtain ⟨c, r⟩ := e
    rw [← append_assoc] at hrun hproper
    obtain ⟨s₁, hrun₁, hexec⟩ := run_snoc_iff.mp hrun
    obtain ⟨hproper₁, hcall⟩ := guarded_snoc.mp hproper
    obtain ⟨hfirst₁, hlast⟩ := guarded_snoc.mp hfirst
    have h₁ := ih hrun₁ hproper₁ (fun e he => honly e (mem_append_left _ he)) hfirst₁
    have hupdates := honly (c, r) (mem_append_right _ (List.mem_singleton_self _))
    exact h₁.step (MvccInv.throughout hempty hcreate hrun₁ hproper₁) hrun₁ hcall hupdates hlast hexec

/-- What a Snapshot Isolation reader sees is what lives for the transactions that had committed before
it began, and itself. -/
theorem seen_iff_lives {history : List (TxnCall × TxnAnswer)} {m : TransactionManager}
    {reader : Transaction} (h : ManagerInv history m) (hreader : m.getTransaction R = some reader)
    (hsnapshot : reader.isolationLevel = .snapshotIsolation) (rid : RecordId) (row : Row) :
    (f rid).bind (seen reader m) = some row ↔
      Lives ({x | CommittedBefore history R x} ∪ {R}) (stamps f) rid ∧
        ∃ vm, f rid = some (vm, row) := by
  rw [Lives, stamps, Function.comp_apply]
  cases f rid with
  | none => exact iff_of_false (by simp) (by simp)
  | some w =>
    have hvisible := h.isVisible_snapshot hreader hsnapshot w.1
    have hmem : ∀ x, x ∈ {x | CommittedBefore history R x} ∪ {R} ↔
        x = R ∨ CommittedBefore history R x := fun x => or_comm
    rw [Option.bind_some, seen, Option.map_some]
    constructor
    · intro hseen
      split_ifs at hseen with hv
      obtain ⟨hmaker, hdeleter⟩ := hvisible.mp hv
      obtain rfl := Option.some.inj hseen
      exact ⟨⟨_, rfl, (hmem _).mpr hmaker, fun hin => hdeleter ((hmem _).mp hin)⟩, w.1, rfl⟩
    · rintro ⟨⟨x, hx, hmaker, hdeleter⟩, vm, hvm⟩
      obtain rfl := Option.some.inj hx
      obtain rfl := Option.some.inj hvm
      rw [if_pos (hvisible.mpr ⟨(hmem _).mp hmaker, fun hin => hdeleter ((hmem _).mpr hin)⟩)]

/-- **One visible version, if the first updater wins.**  From a store with one committed row, whatever
the updaters do afterwards, a Snapshot Isolation transaction sees exactly one version of the row. -/
theorem one_visible_version (hempty : transactions.entries = [])
    (hcreate : create transactions pool schema = .ok s₀) (hrun : Run exec s₀ (setup ++ later) s)
    (hproper : Guarded (ProperCall s₀) (setup ++ later)) (hrow : OneCommittedRow setup)
    (honly : ∀ e ∈ later, OnlyUpdates e.1) (hfirst : Guarded (FirstUpdater setup) later)
    (hR : beginning .snapshotIsolation R ∈ txnCalls later)
    (hactive : s.txnMgr.stateOf R = some .active) (hfailed : ¬ Failed later R) :
    ∃ v row, s.scanVisible R = some [(v, row)] := by
  have hall := MvccInv.throughout hempty hcreate hrun hproper
  have hinv := hall (setup ++ later) [] s (List.append_nil _).symm hrun
  have hone := OneVersion.run hempty hcreate hrun hproper hrow honly hfirst
  have hbegun : beginning .snapshotIsolation R ∈ txnCalls (setup ++ later) := by
    rw [txnCalls_append]
    exact List.mem_append_right _ hR
  obtain ⟨reader, hreader, hsnapshot⟩ := (hinv.txns.begun .snapshotIsolation R).mp hbegun
  obtain ⟨rows, hscan, hlists⟩ := hinv.scanVisible hreader
  have hlives := seen_iff_lives (f := versions (setup ++ later)) hinv.txns hreader hsnapshot
  obtain ⟨v, hv, hunique⟩ := hone.snapshot R hR hactive hfailed
  obtain ⟨row, hrow'⟩ : ∃ row m, versions (setup ++ later) v = some (m, row) := by
    obtain ⟨x, hx, -⟩ := hv
    obtain ⟨⟨m, row⟩, hw, -⟩ := Option.map_eq_some_iff.mp hx
    exact ⟨row, m, hw⟩
  refine ⟨v, row, ?_⟩
  rw [hscan, hlists.eq_singleton ((hlives v row).mpr ⟨hv, hrow'⟩) fun rid row' hrid => ?_]
  exact hunique rid ((hlives rid row').mp hrid).1

/-- A transaction has inserted a row and committed. -/
def oneRow : List (MvccCall × MvccAnswer) :=
  [(.txn (.begin .snapshotIsolation), .txn (.begun 1)),
    (.insertVersion 1 [.int32 7], .record (.ok first)),
    (.txn (.commit (some 1)), .txn (.status (.ok ())))]

theorem oneRow_oneCommittedRow : OneCommittedRow oneRow := by
  refine ⟨first, 1, [.int32 7], by decide, fun rid => ?_⟩
  exact Function.update_apply ..

/-- A transaction updates the row and commits, and another one begins. -/
def updated : List (MvccCall × MvccAnswer) :=
  [(.txn (.begin .snapshotIsolation), .txn (.begun 2)),
    (.updateVersion 2 first [.int32 8], .record (.ok ⟨1, 1⟩)),
    (.txn (.commit (some 2)), .txn (.status (.ok ()))),
    (.txn (.begin .snapshotIsolation), .txn (.begun 3))]

theorem one_visible_version_updated : ∃ s₀ s v row,
    create noTransactions Store.new oneColumn = .ok s₀ ∧ Run exec s₀ (oneRow ++ updated) s ∧
    s.txnMgr.stateOf 3 = some .active ∧ s.scanVisible 3 = some [(v, row)] := by
  obtain ⟨s₀, s, hcreate, hrun, hproper, hcheck⟩ := exists_proper_run oneColumn
    ((oneRow ++ updated).map Prod.fst) (oneRow ++ updated)
    (fun s => s.txnMgr.stateOf 3 = some .active) (by decide +kernel)
  have hactive := of_decide_eq_true hcheck
  have honly : ∀ e ∈ updated, OnlyUpdates e.1 := by
    simp [updated, OnlyUpdates]
  obtain ⟨v, row, hscan⟩ := one_visible_version rfl hcreate hrun hproper oneRow_oneCommittedRow honly
    (by decide +kernel) (by decide) hactive (by decide)
  exact ⟨s₀, s, v, row, hcreate, hrun, hactive, hscan⟩

/-- Two transactions update the row and commit, and another one begins. -/
def bothUpdated : List (MvccCall × MvccAnswer) :=
  [(.txn (.begin .snapshotIsolation), .txn (.begun 2)),
    (.txn (.begin .snapshotIsolation), .txn (.begun 3)),
    (.updateVersion 2 first [.int32 8], .record (.ok ⟨1, 1⟩)),
    (.txn (.commit (some 2)), .txn (.status (.ok ()))),
    (.updateVersion 3 first [.int32 9], .record (.ok ⟨1, 2⟩)),
    (.txn (.commit (some 3)), .txn (.status (.ok ()))),
    (.txn (.begin .snapshotIsolation), .txn (.begun 4))]

/-- It sees two versions of the row. -/
theorem both_updates_visible : ∃ s₀ s,
    create noTransactions Store.new oneColumn = .ok s₀ ∧ Run exec s₀ (oneRow ++ bothUpdated) s ∧
    Guarded (ProperCall s₀) (oneRow ++ bothUpdated) ∧ OneCommittedRow oneRow ∧
    (∀ e ∈ bothUpdated, OnlyUpdates e.1) ∧
    beginning .snapshotIsolation 4 ∈ txnCalls bothUpdated ∧
    s.scanVisible 4 = some [(⟨1, 1⟩, [.int32 8]), (⟨1, 2⟩, [.int32 9])] := by
  obtain ⟨s₀, s, hcreate, hrun, hproper, hcheck⟩ := exists_proper_run oneColumn
    ((oneRow ++ bothUpdated).map Prod.fst) (oneRow ++ bothUpdated)
    (fun s => s.scanVisible 4 = some [(⟨1, 1⟩, [.int32 8]), (⟨1, 2⟩, [.int32 9])])
    (by decide +kernel)
  have honly : ∀ e ∈ bothUpdated, OnlyUpdates e.1 := by
    simp [bothUpdated, OnlyUpdates]
  exact ⟨s₀, s, hcreate, hrun, hproper, oneRow_oneCommittedRow, honly, by decide,
    of_decide_eq_true hcheck⟩

end MiniDB.MvccSystem
