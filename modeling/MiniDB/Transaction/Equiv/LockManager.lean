import MiniDB.Lib.Run
import MiniDB.Transaction.LockManager

/-!
# Safety of the lock table

The two tables of the lock manager say the same, and an exclusive lock excludes all others
(`LockInv`), after every step of any number of transactions.  A step changes the locks of the
transaction that takes it, and of no other, so that each transaction has the locks that its own steps
have left it (`ownLocks`).  While a `ReleaseAll` runs, the rows of the transaction are among those
that are still to be unlocked; when it returns there are none.
-/

namespace MiniDB

open Runs
open UnorderedMap (find?_adjust find?_erase find?_insert)

namespace LockManager

variable {m m' : LockManager} {t t' : TxnId} {rid rid' : RecordId} {e : LockEntry}

/-- The transaction is a shared holder of the row. -/
def HoldsShared (m : LockManager) (t : TxnId) (rid : RecordId) : Prop :=
  ∃ e, m.lockTable.find? rid = some e ∧ t ∈ e.sharedHolders

/-- The transaction is the exclusive holder of the row. -/
def HoldsExclusive (m : LockManager) (t : TxnId) (rid : RecordId) : Prop :=
  ∃ e, m.lockTable.find? rid = some e ∧ e.exclusiveHolder = t

/-- The rows in `txn_locks_[t]`. -/
def rowsOf (m : LockManager) (t : TxnId) : List RecordId :=
  (m.txnLocks.find? t).elim [] UnorderedSet.elems

/-- An entry without holders. -/
def noHolders : LockEntry := ⟨∅, kInvalidTxnId⟩

/-- The holders of the lock on a row. -/
def entry (m : LockManager) (rid : RecordId) : LockEntry := (m.lockTable.find? rid).getD noHolders

theorem holdsShared_iff : m.HoldsShared t rid ↔ t ∈ (m.entry rid).sharedHolders := by
  rw [HoldsShared, entry]
  cases m.lockTable.find? rid <;> simp [noHolders]

theorem holdsExclusive_iff (ht : t ≠ kInvalidTxnId) :
    m.HoldsExclusive t rid ↔ (m.entry rid).exclusiveHolder = t := by
  rw [HoldsExclusive, entry]
  cases m.lockTable.find? rid with
  | none => simp [noHolders, ht.symm]
  | some e => simp

/-- The tables agree, and exclusive locks are exclusive. -/
structure LockInv (m : LockManager) : Prop where
  exclusive : ∀ {rid}, (m.entry rid).exclusiveHolder ≠ kInvalidTxnId →
    ∀ t ∈ (m.entry rid).sharedHolders, t = (m.entry rid).exclusiveHolder
  occupied : ∀ {rid e}, m.lockTable.find? rid = some e → e ≠ noHolders
  rows : ∀ {t}, t ≠ kInvalidTxnId → ∀ rid, rid ∈ m.rowsOf t ↔
    t ∈ (m.entry rid).sharedHolders ∨ (m.entry rid).exclusiveHolder = t
  emptySet : m.emptySet.elems = []

/-- What a call of `t` about `rid` may change: the locks of `t` on `rid`. -/
structure OwnChange (t : TxnId) (rid : RecordId) (m m' : LockManager) : Prop where
  other_row : ∀ {i}, i ≠ rid → m'.entry i = m.entry i
  shared : ∀ {x}, x ≠ t → (x ∈ (m'.entry rid).sharedHolders ↔ x ∈ (m.entry rid).sharedHolders)
  exclusive : ∀ {x}, x ≠ t → x ≠ kInvalidTxnId →
    ((m'.entry rid).exclusiveHolder = x ↔ (m.entry rid).exclusiveHolder = x)
  rows : ∀ {x}, x ≠ t → ∀ i, (i ∈ m'.rowsOf x ↔ i ∈ m.rowsOf x)
  other_rows : ∀ {i}, i ≠ rid → (i ∈ m'.rowsOf t ↔ i ∈ m.rowsOf t)

/-- The invariant after such a change. -/
theorem LockInv.change (h : LockInv m) (hc : OwnChange t rid m m')
    (hexclusive : (m'.entry rid).exclusiveHolder ≠ kInvalidTxnId →
      ∀ x ∈ (m'.entry rid).sharedHolders, x = (m'.entry rid).exclusiveHolder)
    (hoccupied : ∀ {i e}, m'.lockTable.find? i = some e → e ≠ noHolders)
    (hrows : t ≠ kInvalidTxnId → (rid ∈ m'.rowsOf t ↔
      t ∈ (m'.entry rid).sharedHolders ∨ (m'.entry rid).exclusiveHolder = t))
    (hempty : m'.emptySet = m.emptySet) : LockInv m' where
  exclusive := by
    intro i hi
    by_cases hrid : i = rid
    · subst hrid
      exact hexclusive hi
    · rw [hc.other_row hrid] at hi ⊢
      exact h.exclusive hi
  occupied := hoccupied
  rows := by
    intro x hx i
    by_cases hrid : i = rid
    · subst hrid
      by_cases hxt : x = t
      · subst hxt
        exact hrows hx
      · rw [hc.rows hxt, hc.shared hxt, hc.exclusive hxt hx, h.rows hx]
    · rw [hc.other_row hrid]
      by_cases hxt : x = t
      · subst hxt
        rw [hc.other_rows hrid]
        exact h.rows hx i
      · rw [hc.rows hxt]
        exact h.rows hx i
  emptySet := hempty ▸ h.emptySet

/-! ### The calls -/

theorem fst_entryAt : (m.entryAt rid).1 = m.entry rid := by
  rw [entryAt, entry]
  cases m.lockTable.find? rid <;> rfl

theorem entryAt_of_some (h : m.lockTable.find? rid = some e) : m.entryAt rid = (e, m) := by
  rw [entryAt, h]

/-- A holder of a lock has an entry. -/
theorem find?_of_holder (m : LockManager) (rid : RecordId) (h : m.entry rid ≠ noHolders) :
    m.lockTable.find? rid = some (m.entry rid) := by
  rw [entry] at h ⊢
  cases hfind : m.lockTable.find? rid with
  | none =>
    rw [hfind] at h
    exact absurd rfl h
  | some e => rfl

theorem find?_entryAt (m : LockManager) (rid i : RecordId) :
    (m.entryAt rid).2.lockTable.find? i
      = if i = rid then some (m.entry rid) else m.lockTable.find? i := by
  rw [entryAt, entry]
  cases hfind : m.lockTable.find? rid with
  | none => exact find?_insert ..
  | some e =>
    show m.lockTable.find? i = _
    split_ifs with hi
    · rw [hi, hfind]
      rfl
    · rfl

theorem find?_setEntry (m : LockManager) (t : TxnId) (rid i : RecordId) (e : LockEntry) :
    ((m.entryAt rid).2.setEntry t rid e).lockTable.find? i
      = if i = rid then some e else m.lockTable.find? i := by
  rw [setEntry, find?_adjust, find?_entryAt]
  split_ifs <;> rfl

theorem mem_rowsOf_setEntry (h : m.emptySet.elems = []) (t x : TxnId) (rid i : RecordId)
    (e : LockEntry) : i ∈ (m.setEntry t rid e).rowsOf x ↔ i ∈ m.rowsOf x ∨ x = t ∧ i = rid := by
  rw [rowsOf, rowsOf, setEntry]
  by_cases hx : x = t
  · subst hx
    cases hfind : m.txnLocks.find? x with
    | none =>
      dsimp only
      rw [find?_insert, if_pos rfl]
      show i ∈ (m.emptySet.add rid).elems ↔ i ∈ [] ∨ x = x ∧ i = rid
      rw [UnorderedSet.mem_elems_add, h]
      simp
    | some rows =>
      dsimp only
      rw [find?_adjust, if_pos rfl, hfind]
      show i ∈ (rows.add rid).elems ↔ i ∈ rows.elems ∨ x = x ∧ i = rid
      rw [UnorderedSet.mem_elems_add, or_comm, and_iff_right rfl]
  · rw [or_iff_left fun hboth => hx hboth.1]
    cases m.txnLocks.find? t with
    | none =>
      dsimp only
      rw [find?_insert, if_neg hx]
    | some rows =>
      dsimp only
      rw [find?_adjust, if_neg hx]

/-- The entry of a row is set, and the row is added to those of `t`. -/
theorem LockInv.setEntry (h : LockInv m) (t : TxnId) (rid : RecordId)
    (hshared : ∀ x, x ≠ t → (x ∈ e.sharedHolders ↔ x ∈ (m.entry rid).sharedHolders))
    (hholder : ∀ x, x ≠ t → x ≠ kInvalidTxnId →
      (e.exclusiveHolder = x ↔ (m.entry rid).exclusiveHolder = x))
    (hexclusive : e.exclusiveHolder ≠ kInvalidTxnId → ∀ x ∈ e.sharedHolders, x = e.exclusiveHolder)
    (hself : t ∈ e.sharedHolders ∨ e.exclusiveHolder = t) (ht : t ≠ kInvalidTxnId) :
    let m' := (m.entryAt rid).2.setEntry t rid e
    OwnChange t rid m m' ∧ LockInv m' ∧ m'.entry rid = e := by
  intro m'
  have hrows₀ : (m.entryAt rid).2.txnLocks = m.txnLocks ∧ (m.entryAt rid).2.emptySet = m.emptySet := by
    rw [entryAt]
    cases m.lockTable.find? rid <;> exact ⟨rfl, rfl⟩
  have hfind := find?_setEntry m t rid
  have hentry : ∀ i, m'.entry i = if i = rid then e else m.entry i := by
    intro i
    rw [entry, hfind]
    split_ifs <;> rfl
  have hself_entry : m'.entry rid = e := by rw [hentry, if_pos rfl]
  have hmem : ∀ x i, i ∈ m'.rowsOf x ↔ i ∈ m.rowsOf x ∨ x = t ∧ i = rid := by
    intro x i
    rw [mem_rowsOf_setEntry (by rw [hrows₀.2]; exact h.emptySet), rowsOf, hrows₀.1]
    rfl
  have hc : OwnChange t rid m m' := by
    refine ⟨fun hi => ?_, fun hx => ?_, fun hx hx0 => ?_, fun hx i => ?_, fun hi => ?_⟩
    · rw [hentry, if_neg hi]
    · rw [hself_entry]
      exact hshared _ hx
    · rw [hself_entry]
      exact hholder _ hx hx0
    · rw [hmem, or_iff_left fun hboth => hx hboth.1]
    · rw [hmem, or_iff_left fun hboth => hi hboth.2]
  refine ⟨hc, h.change hc ?_ ?_ (fun _ => ?_) hrows₀.2, hself_entry⟩
  · rw [hself_entry]
    exact hexclusive
  · intro i e' he'
    rw [hfind] at he'
    split_ifs at he' with hi
    · obtain rfl := Option.some.inj he'
      rintro rfl
      rcases hself with hin | heq
      · exact absurd hin (Finset.notMem_empty t)
      · exact ht heq.symm
    · exact h.occupied he'
  · rw [hmem, hself_entry]
    exact iff_of_true (.inr ⟨rfl, rfl⟩) hself

theorem lockShared_spec (h : LockInv m) (ht : t ≠ kInvalidTxnId) (rid : RecordId) :
    (∃ msg, m.lockShared t rid = (.error ⟨.conflict, msg⟩, m)) ∨
    ∃ m', m.lockShared t rid = (.ok (), m') ∧ OwnChange t rid m m' ∧ LockInv m' ∧
      m'.entry rid = ⟨insert t (m.entry rid).sharedHolders, (m.entry rid).exclusiveHolder⟩ := by
  unfold lockShared
  rw [show m.entryAt rid = (m.entry rid, (m.entryAt rid).2) by rw [← fst_entryAt]]
  dsimp only
  split_ifs with hconflict
  · have hsome := find?_of_holder m rid fun hnone => by
      rw [hnone] at hconflict
      exact hconflict.1 rfl
    rw [entryAt_of_some hsome]
    exact .inl ⟨_, rfl⟩
  · refine .inr ⟨_, rfl, h.setEntry t rid ?_ ?_ ?_ (.inl (Finset.mem_insert_self ..)) ht⟩
    · intro x hx
      rw [Finset.mem_insert, or_iff_right hx]
    · exact fun x _ _ => Iff.rfl
    · intro hholder x hx
      rcases Finset.mem_insert.mp hx with rfl | hx
      · by_contra hne
        exact hconflict ⟨hholder, fun heq => hne heq.symm⟩
      · exact h.exclusive hholder x hx

theorem lockExclusive_spec (h : LockInv m) (ht : t ≠ kInvalidTxnId) (rid : RecordId) :
    (∃ msg, m.lockExclusive t rid = (.error ⟨.conflict, msg⟩, m)) ∨
    ∃ m', m.lockExclusive t rid = (.ok (), m') ∧ OwnChange t rid m m' ∧ LockInv m' ∧
      m'.entry rid = ⟨∅, t⟩ := by
  unfold lockExclusive
  rw [show m.entryAt rid = (m.entry rid, (m.entryAt rid).2) by rw [← fst_entryAt]]
  dsimp only
  split_ifs with hconflict hshared
  · have hsome := find?_of_holder m rid fun hnone => by
      rw [hnone] at hconflict
      exact hconflict.1 rfl
    rw [entryAt_of_some hsome]
    exact .inl ⟨_, rfl⟩
  · have hsome := find?_of_holder m rid fun hnone => by
      obtain ⟨holder, hmem, -⟩ := hshared
      rw [hnone] at hmem
      exact absurd hmem (Finset.notMem_empty holder)
    rw [entryAt_of_some hsome]
    exact .inl ⟨_, rfl⟩
  · refine .inr ⟨_, rfl, h.setEntry t rid ?_ ?_ ?_ (.inr rfl) ht⟩
    · -- the shared holders that are removed are `t` at most
      intro x hx
      refine iff_of_false (Finset.notMem_empty x) fun hmem => hshared ⟨x, hmem, hx⟩
    · intro x hx hx0
      refine iff_of_false (fun heq => hx heq.symm) fun heq => hconflict ?_
      rw [heq]
      exact ⟨hx0, hx⟩
    · exact fun _ x hx => absurd hx (Finset.notMem_empty x)

/-- The entry without the locks of `t`. -/
def unlocked (e : LockEntry) (t : TxnId) : LockEntry where
  sharedHolders := e.sharedHolders.erase t
  exclusiveHolder := if e.exclusiveHolder = t then kInvalidTxnId else e.exclusiveHolder

theorem mem_rowsOf_adjust (m : LockManager) (t x : TxnId) (rid i : RecordId)
    (table : UnorderedMap RecordId LockEntry) :
    i ∈ rowsOf ⟨table, m.txnLocks.adjust t fun rows => rows.erase rid, m.emptySet⟩ x ↔
      i ∈ m.rowsOf x ∧ (x = t → i ≠ rid) := by
  rw [rowsOf, rowsOf, find?_adjust]
  by_cases hx : x = t
  · rw [if_pos hx]
    cases m.txnLocks.find? x with
    | none => simp
    | some rows =>
      show i ∈ UnorderedSet.elems (rows.erase rid) ↔ _
      rw [UnorderedSet.mem_elems_erase, and_comm]
      exact and_congr_right fun _ => ⟨fun hne _ => hne, fun hne => hne hx⟩
  · rw [if_neg hx, and_iff_left fun heq => absurd heq hx]

/-- The table after an entry is set, or removed because it has no holders. -/
theorem find?_setOrErase {table : UnorderedMap RecordId LockEntry} (h : table.find? rid = some e)
    (e' : LockEntry) (i : RecordId) :
    (if e'.sharedHolders = ∅ ∧ e'.exclusiveHolder = kInvalidTxnId then table.erase rid
      else table.adjust rid fun _ => e').find? i
      = if i = rid then (if e' = noHolders then none else some e') else table.find? i := by
  have hnone : e'.sharedHolders = ∅ ∧ e'.exclusiveHolder = kInvalidTxnId ↔ e' = noHolders := by
    cases e'
    simp [noHolders]
  by_cases hempty : e' = noHolders
  · rw [if_pos (hnone.mpr hempty), find?_erase, if_pos hempty]
  · rw [if_neg fun hboth => hempty (hnone.mp hboth), find?_adjust, if_neg hempty]
    split_ifs with hi
    · rw [hi, h]
      rfl
    · rfl

theorem OwnChange.refl (t : TxnId) (rid : RecordId) (m : LockManager) : OwnChange t rid m m :=
  ⟨fun _ => rfl, fun _ => Iff.rfl, fun _ _ => Iff.rfl, fun _ _ => Iff.rfl, fun _ => Iff.rfl⟩

/-- `Unlock` removes the locks of the transaction on the row; it fails if there were none. -/
theorem unlock_spec (h : LockInv m) (ht : t ≠ kInvalidTxnId) (rid : RecordId) :
    ∃ r m', m.unlock t rid = (r, m') ∧ OwnChange t rid m m' ∧ LockInv m' ∧
      m'.entry rid = unlocked (m.entry rid) t ∧
      ∀ e, r = .error e → t ∉ (m.entry rid).sharedHolders ∧ (m.entry rid).exclusiveHolder ≠ t := by
  unfold unlock
  cases hfind : m.lockTable.find? rid with
  | none =>
    have hentry : m.entry rid = noHolders := by
      rw [entry, hfind]
      rfl
    refine ⟨_, m, rfl, .refl t rid m, h, ?_, fun _ _ => ?_⟩
    · rw [hentry, unlocked, noHolders, if_neg ht.symm]
      rfl
    · rw [hentry]
      exact ⟨Finset.notMem_empty t, ht.symm⟩
  | some e =>
    have hentry : m.entry rid = e := by
      rw [entry, hfind]
      rfl
    dsimp only
    generalize hm' : LockManager.mk _ _ _ = m'
    have htable : ∀ i, m'.lockTable.find? i = if i = rid then
        (if unlocked e t = noHolders then none else some (unlocked e t))
        else m.lockTable.find? i := by
      intro i
      rw [← hm']
      exact find?_setOrErase hfind (unlocked e t) i
    have hrows : ∀ x i, i ∈ m'.rowsOf x ↔ i ∈ m.rowsOf x ∧ (x = t → i ≠ rid) := by
      intro x i
      rw [← hm']
      exact mem_rowsOf_adjust m t x rid i _
    have hentries : ∀ i, m'.entry i = if i = rid then unlocked e t else m.entry i := by
      intro i
      rw [entry, htable]
      split_ifs with hi hempty
      · exact hempty.symm
      · rfl
      · rfl
    have hself : m'.entry rid = unlocked e t := by rw [hentries, if_pos rfl]
    have hholder : ∀ x, x ≠ kInvalidTxnId → ((unlocked e t).exclusiveHolder = x ↔
        x ≠ t ∧ e.exclusiveHolder = x) := by
      intro x hx
      rw [unlocked]
      dsimp only
      split_ifs with heq
      · rw [heq]
        exact iff_of_false hx.symm fun hboth => hboth.1 hboth.2.symm
      · exact ⟨fun hx => ⟨fun hxt => heq (hx.trans hxt), hx⟩, fun hboth => hboth.2⟩
    have hc : OwnChange t rid m m' := by
      refine ⟨fun hi => ?_, fun hx => ?_, fun hx hx0 => ?_, fun hx i => ?_, fun hi => ?_⟩
      · rw [hentries, if_neg hi]
      · rw [hself, hentry, unlocked, Finset.mem_erase, and_iff_right hx]
      · rw [hself, hentry, hholder _ hx0, and_iff_right hx]
      · rw [hrows, and_iff_left fun heq => absurd heq hx]
      · rw [hrows, and_iff_left fun _ => hi]
    have hinv : LockInv m' := by
      refine h.change hc ?_ ?_ (fun _ => ?_) (by rw [← hm'])
      · -- an exclusive holder that is left was the holder before
        rw [hself]
        intro hleft x hx
        obtain ⟨-, hx⟩ := Finset.mem_erase.mp hx
        obtain ⟨-, heq⟩ := (hholder _ hleft).mp rfl
        rw [← heq]
        rw [← hentry] at hx ⊢
        refine h.exclusive ?_ x hx
        rw [hentry, heq]
        exact hleft
      · intro i e' he'
        rw [htable] at he'
        split_ifs at he' with hi hempty
        · exact Option.some.inj he' ▸ hempty
        · exact h.occupied he'
      · rw [hrows, hself, hholder t ht]
        refine iff_of_false (fun hboth => hboth.2 rfl rfl) ?_
        rintro (hin | ⟨hne, -⟩)
        · exact absurd rfl (Finset.mem_erase.mp hin).1
        · exact hne rfl
    split_ifs with hheld
    · exact ⟨_, m', rfl, hc, hinv, by rw [hself, hentry], by simp⟩
    · rw [hentry]
      exact ⟨_, m', rfl, hc, hinv, hself, fun _ _ => ⟨fun hin => hheld (.inl hin),
        fun heq => hheld (.inr heq)⟩⟩

end LockManager

/-! ### The locks of a transaction by its own steps -/

/-- The rows that a transaction has locked. -/
structure LockView where
  shared : Finset RecordId
  exclusive : Finset RecordId
  deriving DecidableEq

/-- What an answered step does to the locks of its transaction. -/
def LockStep.next : LockStep → LockAnswer → LockView → LockView
  | .call _ (.lockShared rid), .status (.ok _), v => { v with shared := insert rid v.shared }
  | .call _ (.lockExclusive rid), .status (.ok _), v =>
    ⟨v.shared.erase rid, insert rid v.exclusive⟩
  | .call _ (.unlock rid), .status (.ok _), v => ⟨v.shared.erase rid, v.exclusive.erase rid⟩
  | .resume _, .unlocked rid, v => ⟨v.shared.erase rid, v.exclusive.erase rid⟩
  | _, _, v => v

/-- The locks that its own steps have left a transaction. -/
def ownLocks (history : List (LockStep × LockAnswer)) (t : TxnId) : LockView :=
  (history.filter fun e => e.1.txnId = t).foldl (fun v e => e.1.next e.2 v) ⟨∅, ∅⟩

theorem ownLocks_snoc (history : List (LockStep × LockAnswer)) (step : LockStep) (r : LockAnswer)
    (t : TxnId) : ownLocks (history ++ [(step, r)]) t
      = if step.txnId = t then step.next r (ownLocks history t) else ownLocks history t := by
  rw [ownLocks, List.filter_append, List.foldl_append]
  by_cases ht : step.txnId = t
  · have hself : [(step, r)].filter (fun e => e.1.txnId = t) = [(step, r)] := by simp [ht]
    rw [if_pos ht, hself]
    rfl
  · have hother : [(step, r)].filter (fun e => e.1.txnId = t) = [] := by simp [ht]
    rw [if_neg ht, hother]
    rfl

namespace LockSystem

open LockManager

variable {s s' : LockSystem} {history : List (LockStep × LockAnswer)} {step : LockStep}
  {r : LockAnswer} {t : TxnId} {rid : RecordId} {m' : LockManager}
  {releasing' : TxnId → Option (List RecordId)}

/-- The transaction has the locks of `v` on the row. -/
def HasLocks (m : LockManager) (t : TxnId) (rid : RecordId) (v : LockView) : Prop :=
  (t ∈ (m.entry rid).sharedHolders ↔ rid ∈ v.shared) ∧
    ((m.entry rid).exclusiveHolder = t ↔ rid ∈ v.exclusive)

/-- The system after a history of steps. -/
structure SystemInv (history : List (LockStep × LockAnswer)) (s : LockSystem) : Prop where
  locks : LockInv s.locks
  view : ∀ {t}, t ≠ kInvalidTxnId → ∀ rid, HasLocks s.locks t rid (ownLocks history t)
  releasing : ∀ {t held}, s.releasing t = some held → ∀ rid ∈ s.locks.rowsOf t, rid ∈ held

/-- A step that changes the locks of its transaction on one row. -/
theorem SystemInv.change (h : SystemInv history s)
    (hc : OwnChange step.txnId rid s.locks m') (hinv : LockInv m')
    (hother : ∀ i, i ≠ rid → ∀ v : LockView, (i ∈ (step.next r v).shared ↔ i ∈ v.shared) ∧
      (i ∈ (step.next r v).exclusive ↔ i ∈ v.exclusive))
    (hself : HasLocks m' step.txnId rid (step.next r (ownLocks history step.txnId)))
    (hreleasing : ∀ x, x ≠ step.txnId → releasing' x = s.releasing x)
    (hheld : ∀ held, releasing' step.txnId = some held → ∀ i ∈ m'.rowsOf step.txnId, i ∈ held) :
    SystemInv (history ++ [(step, r)]) ⟨m', releasing'⟩ := by
  refine ⟨hinv, ?_, ?_⟩
  · intro x hx i
    have hbefore := h.view hx i
    rw [ownLocks_snoc]
    by_cases hi : i = rid
    · subst hi
      split_ifs with hxt
      · rw [← hxt]
        exact hself
      · rw [HasLocks, hc.shared (Ne.symm hxt), hc.exclusive (Ne.symm hxt) hx]
        exact hbefore
    · rw [HasLocks, hc.other_row hi]
      split_ifs with hxt
      · rw [(hother i hi _).1, (hother i hi _).2]
        exact hbefore
      · exact hbefore
  · intro x held hx i hi
    by_cases hxt : x = step.txnId
    · subst hxt
      exact hheld held hx i hi
    · have hx' : s.releasing x = some held := (hreleasing x hxt).symm.trans hx
      exact h.releasing hx' i ((hc.rows hxt i).mp hi)

/-- The step of a transaction that is not in its `ReleaseAll`. -/
theorem SystemInv.call (h : SystemInv history s) (hidle : s.releasing step.txnId = none)
    (hc : OwnChange step.txnId rid s.locks m') (hinv : LockInv m')
    (hother : ∀ i, i ≠ rid → ∀ v : LockView, (i ∈ (step.next r v).shared ↔ i ∈ v.shared) ∧
      (i ∈ (step.next r v).exclusive ↔ i ∈ v.exclusive))
    (hself : HasLocks m' step.txnId rid (step.next r (ownLocks history step.txnId))) :
    SystemInv (history ++ [(step, r)]) ⟨m', s.releasing⟩ := by
  refine h.change hc hinv hother hself (fun _ _ => rfl) fun held hheld => ?_
  rw [hidle] at hheld
  cases hheld

/-- A step that changes no locks. -/
theorem SystemInv.same (h : SystemInv history s) (hsame : ∀ v, step.next r v = v)
    (hreleasing : ∀ x, x ≠ step.txnId → releasing' x = s.releasing x)
    (hheld : ∀ held, releasing' step.txnId = some held →
      ∀ i ∈ s.locks.rowsOf step.txnId, i ∈ held) :
    SystemInv (history ++ [(step, r)]) ⟨s.locks, releasing'⟩ := by
  refine ⟨h.locks, ?_, ?_⟩
  · intro x hx i
    rw [ownLocks_snoc, hsame, ite_self]
    exact h.view hx i
  · intro x held hx i hi
    by_cases hxt : x = step.txnId
    · subst hxt
      exact hheld held hx i hi
    · exact h.releasing ((hreleasing x hxt).symm.trans hx) i hi

/-- A transaction without locks on a row. -/
theorem hasLocks_unlocked {v : LockView} (ht : t ≠ kInvalidTxnId)
    (hentry : m'.entry rid = unlocked (s.locks.entry rid) t) (hshared : rid ∉ v.shared)
    (hexclusive : rid ∉ v.exclusive) : HasLocks m' t rid v := by
  rw [HasLocks, hentry, unlocked]
  refine ⟨iff_of_false (Finset.notMem_erase t _) hshared, iff_of_false ?_ hexclusive⟩
  dsimp only
  split_ifs with heq
  · exact ht.symm
  · exact heq

theorem erase_of_ne {i : RecordId} (hi : i ≠ rid) (v : LockView) :
    (i ∈ v.shared.erase rid ↔ i ∈ v.shared) ∧ (i ∈ v.exclusive.erase rid ↔ i ∈ v.exclusive) := by
  rw [Finset.mem_erase, Finset.mem_erase, and_iff_right hi, and_iff_right hi]
  exact ⟨Iff.rfl, Iff.rfl⟩

theorem SystemInv.start (h : SystemInv history s) (ht : t ≠ kInvalidTxnId)
    (hidle : s.releasing t = none) (c : LockCall) :
    SystemInv (history ++ [(.call t c, (s.start t c).1)]) (s.start t c).2 := by
  have hbusy : ∀ held, s.releasing t = some held → ∀ i ∈ s.locks.rowsOf t, i ∈ held := by
    intro held hheld
    rw [hidle] at hheld
    cases hheld
  cases c with
  | lockShared rid =>
    have hview := h.view ht rid
    rw [LockSystem.start, answer]
    rcases lockShared_spec h.locks ht rid with ⟨msg, heq⟩ | ⟨m', heq, hc, hinv, hentry⟩
    · rw [heq]
      exact h.same (fun _ => rfl) (fun _ _ => rfl) hbusy
    · rw [heq]
      refine h.call hidle hc hinv (fun i hi v => ⟨?_, Iff.rfl⟩) ⟨?_, ?_⟩
      · exact Finset.mem_insert.trans (or_iff_right hi)
      · rw [hentry]
        exact iff_of_true (Finset.mem_insert_self ..) (Finset.mem_insert_self ..)
      · rw [hentry]
        exact hview.2
  | lockExclusive rid =>
    rw [LockSystem.start, answer]
    rcases lockExclusive_spec h.locks ht rid with ⟨msg, heq⟩ | ⟨m', heq, hc, hinv, hentry⟩
    · rw [heq]
      exact h.same (fun _ => rfl) (fun _ _ => rfl) hbusy
    · rw [heq]
      refine h.call hidle hc hinv (fun i hi v => ⟨(erase_of_ne hi v).1, ?_⟩) ⟨?_, ?_⟩
      · exact Finset.mem_insert.trans (or_iff_right hi)
      · rw [hentry]
        exact iff_of_false (Finset.notMem_empty t) (Finset.notMem_erase rid _)
      · rw [hentry]
        exact iff_of_true rfl (Finset.mem_insert_self ..)
  | unlock rid =>
    obtain ⟨hshared, hexclusive⟩ := h.view ht rid
    rw [LockSystem.start, answer]
    obtain ⟨res, m', heq, hc, hinv, hentry, herror⟩ := unlock_spec h.locks ht rid
    rw [heq]
    cases res with
    | ok =>
      refine h.call hidle hc hinv (fun i hi v => erase_of_ne hi v) ?_
      exact hasLocks_unlocked ht hentry (Finset.notMem_erase rid _) (Finset.notMem_erase rid _)
    | error e =>
      obtain ⟨hnot_shared, hnot_exclusive⟩ := herror e rfl
      refine h.call hidle hc hinv (fun i hi v => ⟨Iff.rfl, Iff.rfl⟩) ?_
      exact hasLocks_unlocked ht hentry (fun hin => hnot_shared (hshared.mpr hin))
        fun hin => hnot_exclusive (hexclusive.mpr hin)
  | releaseAll =>
    rw [LockSystem.start]
    cases hfind : s.locks.txnLocks.find? t with
    | none => exact h.same (fun _ => rfl) (fun _ _ => rfl) hbusy
    | some rows =>
      refine h.same (fun _ => rfl) (fun x hx => Function.update_of_ne hx ..) fun held hheld i hi => ?_
      rw [LockStep.txnId, Function.update_self] at hheld
      obtain rfl := Option.some.inj hheld
      rw [rowsOf, LockStep.txnId, hfind] at hi
      exact hi

/-- Forgetting a transaction that has no rows left. -/
theorem SystemInv.forget (h : SystemInv history s) (hheld : s.releasing t = some []) :
    SystemInv (history ++ [(.resume t, .released)])
      ⟨{ s.locks with txnLocks := s.locks.txnLocks.erase t }, Function.update s.releasing t none⟩ := by
  have hnone : ∀ i, i ∉ s.locks.rowsOf t := fun i hi => List.not_mem_nil (h.releasing hheld i hi)
  have hrows : ∀ x i, i ∈ rowsOf { s.locks with txnLocks := s.locks.txnLocks.erase t } x ↔
      i ∈ s.locks.rowsOf x := by
    intro x i
    by_cases hx : x = t
    · subst hx
      rw [rowsOf, find?_erase, if_pos rfl]
      exact iff_of_false List.not_mem_nil (hnone i)
    · rw [rowsOf, find?_erase, if_neg hx]
      rfl
  refine ⟨⟨h.locks.exclusive, h.locks.occupied, fun hx i => ?_, h.locks.emptySet⟩, fun hx i => ?_,
    fun {x held} hx i hi => ?_⟩
  · rw [hrows]
    exact h.locks.rows hx i
  · rw [ownLocks_snoc]
    split_ifs
    · exact h.view hx i
    · exact h.view hx i
  · have hx : Function.update s.releasing t none x = some held := hx
    by_cases hxt : x = t
    · rw [hxt, Function.update_self] at hx
      cases hx
    · rw [Function.update_of_ne hxt] at hx
      exact h.releasing hx i ((hrows x i).mp hi)

theorem SystemInv.of_exec (h : SystemInv history s) (ht : step.txnId ≠ kInvalidTxnId)
    (hexec : s.exec step = .ok (r, s')) : SystemInv (history ++ [(step, r)]) s' := by
  cases step with
  | call t c =>
    rw [exec] at hexec
    cases hidle : s.releasing t with
    | some held =>
      rw [hidle] at hexec
      cases hexec
    | none =>
      rw [hidle] at hexec
      have heq := Except.ok.inj hexec
      have ht : t ≠ kInvalidTxnId := ht
      have hstart := h.start ht hidle c
      rw [heq] at hstart
      exact hstart
  | resume t =>
    rw [exec] at hexec
    cases hheld : s.releasing t with
    | none =>
      rw [hheld] at hexec
      cases hexec
    | some held =>
      rw [hheld] at hexec
      cases held with
      | nil =>
        cases hexec
        exact h.forget hheld
      | cons rid held =>
        cases hexec
        obtain ⟨res, m', heq, hc, hinv, hentry, -⟩ := unlock_spec h.locks ht rid
        rw [LockStep.txnId] at heq hc hentry
        rw [heq]
        have hself : HasLocks m' t rid
            (LockStep.next (.resume t) (.unlocked rid) (ownLocks history t)) :=
          hasLocks_unlocked ht hentry (Finset.notMem_erase rid _) (Finset.notMem_erase rid _)
        refine h.change hc hinv (fun i hi v => erase_of_ne hi v) hself
          (fun x hx => Function.update_of_ne hx ..) fun held' hheld' i hi => ?_
        rw [LockStep.txnId, Function.update_self] at hheld'
        obtain rfl := Option.some.inj hheld'
        -- the row that was unlocked is no longer one of `t`
        have hne : i ≠ rid := by
          rintro rfl
          rcases (hinv.rows ht i).mp hi with hin | hin
          · exact Finset.notMem_erase _ _ (hself.1.mp hin)
          · exact Finset.notMem_erase _ _ (hself.2.mp hin)
        have hin := h.releasing hheld i ((hc.other_rows hne).mp hi)
        exact (List.mem_cons.mp hin).resolve_left hne

theorem SystemInv.init {lockTable : UnorderedMap RecordId LockEntry}
    {txnLocks : UnorderedMap TxnId (UnorderedSet RecordId)} {emptySet : UnorderedSet RecordId}
    (htable : lockTable.entries = []) (hlocks : txnLocks.entries = [])
    (hset : emptySet.entries = []) : SystemInv [] (new lockTable txnLocks emptySet) := by
  have hfind : ∀ rid, lockTable.find? rid = none := by
    intro rid
    rw [UnorderedMap.find?, htable]
    rfl
  have hentry : ∀ rid, (new lockTable txnLocks emptySet).locks.entry rid = noHolders := by
    intro rid
    rw [entry, new, hfind]
    rfl
  have hrows : ∀ t, (new lockTable txnLocks emptySet).locks.rowsOf t = [] := by
    intro t
    rw [rowsOf, new, UnorderedMap.find?, hlocks]
    rfl
  refine ⟨⟨fun {rid} hrid => ?_, fun {rid e} he => ?_, fun ht rid => ?_, ?_⟩, fun ht rid => ?_,
    fun {t held} h => ?_⟩
  · rw [hentry] at hrid
    exact absurd rfl hrid
  · rw [new, hfind] at he
    cases he
  · rw [hrows, hentry]
    refine iff_of_false List.not_mem_nil ?_
    rintro (hin | heq)
    · exact Finset.notMem_empty _ hin
    · exact ht heq.symm
  · show emptySet.entries.map Prod.fst = []
    rw [hset]
    rfl
  · rw [HasLocks, hentry]
    exact ⟨iff_of_false (Finset.notMem_empty _) (Finset.notMem_empty _),
      iff_of_false ht.symm (Finset.notMem_empty _)⟩
  · cases h

/-- When `ReleaseAll` returns, the transaction has no locks. -/
theorem SystemInv.released (h : SystemInv history s) (ht : step.txnId ≠ kInvalidTxnId)
    (hexec : s.exec step = .ok (.released, s')) (rid : RecordId) :
    ¬ s'.locks.HoldsShared step.txnId rid ∧ ¬ s'.locks.HoldsExclusive step.txnId rid := by
  have h' := h.of_exec ht hexec
  have hnone : rid ∉ s'.locks.rowsOf step.txnId := by
    cases step with
    | call t c =>
      rw [exec] at hexec
      cases hidle : s.releasing t with
      | some held =>
        rw [hidle] at hexec
        cases hexec
      | none =>
        rw [hidle] at hexec
        cases c with
        | lockShared | lockExclusive | unlock => cases hexec
        | releaseAll =>
          rw [LockSystem.start] at hexec
          cases hfind : s.locks.txnLocks.find? t with
          | none =>
            rw [hfind] at hexec
            cases hexec
            rw [rowsOf, LockStep.txnId, hfind]
            exact List.not_mem_nil
          | some rows =>
            rw [hfind] at hexec
            cases hexec
    | resume t =>
      rw [exec] at hexec
      cases hheld : s.releasing t with
      | none =>
        rw [hheld] at hexec
        cases hexec
      | some held =>
        rw [hheld] at hexec
        cases held with
        | nil =>
          cases hexec
          rw [rowsOf, LockStep.txnId, find?_erase, if_pos rfl]
          exact List.not_mem_nil
        | cons rid held => cases hexec
  rw [h'.locks.rows ht] at hnone
  rw [holdsShared_iff, holdsExclusive_iff ht]
  exact not_or.mp hnone

/-- A call that fails changes no locks. -/
theorem SystemInv.refused (h : SystemInv history s) (ht : step.txnId ≠ kInvalidTxnId) {e : Status}
    (hexec : s.exec step = .ok (.status (.error e), s')) {x : TxnId} (hx : x ≠ kInvalidTxnId)
    (rid : RecordId) : (s'.locks.HoldsShared x rid ↔ s.locks.HoldsShared x rid) ∧
      (s'.locks.HoldsExclusive x rid ↔ s.locks.HoldsExclusive x rid) := by
  have hbefore := h.view hx rid
  have hafter := (h.of_exec ht hexec).view hx rid
  have hsame : ownLocks (history ++ [(step, .status (.error e))]) x = ownLocks history x := by
    rw [ownLocks_snoc]
    split_ifs
    · cases step with
      | call t c => cases c <;> rfl
      | resume t => rfl
    · rfl
  rw [hsame] at hafter
  rw [holdsShared_iff, holdsShared_iff, holdsExclusive_iff hx, holdsExclusive_iff hx, hafter.1,
    hafter.2, hbefore.1, hbefore.2]
  exact ⟨Iff.rfl, Iff.rfl⟩

/-- **Safety of the lock table.**  After any steps of any transactions: an exclusive holder is the only
holder; the rows listed for a transaction are those it holds a lock on; no entry is without holders;
each transaction holds what its own steps have left it, and nothing when its `ReleaseAll` returns; and
a call that fails changes no transaction's locks. -/
theorem lock_table_safety {lockTable : UnorderedMap RecordId LockEntry}
    {txnLocks : UnorderedMap TxnId (UnorderedSet RecordId)} {emptySet : UnorderedSet RecordId}
    (htable : lockTable.entries = []) (hlocks : txnLocks.entries = [])
    (hset : emptySet.entries = []) (hrun : Run exec (new lockTable txnLocks emptySet) history s)
    (hids : ∀ e ∈ history, e.1.txnId ≠ kInvalidTxnId) :
    (∀ t x rid, t ≠ kInvalidTxnId → s.locks.HoldsExclusive t rid → x ≠ t → x ≠ kInvalidTxnId →
      ¬ s.locks.HoldsShared x rid ∧ ¬ s.locks.HoldsExclusive x rid) ∧
    (∀ t rid, t ≠ kInvalidTxnId → (rid ∈ s.locks.rowsOf t ↔
      s.locks.HoldsShared t rid ∨ s.locks.HoldsExclusive t rid)) ∧
    (∀ rid e, s.locks.lockTable.find? rid = some e →
      e.sharedHolders ≠ ∅ ∨ e.exclusiveHolder ≠ kInvalidTxnId) ∧
    (∀ t rid, t ≠ kInvalidTxnId →
      (s.locks.HoldsShared t rid ↔ rid ∈ (ownLocks history t).shared) ∧
      (s.locks.HoldsExclusive t rid ↔ rid ∈ (ownLocks history t).exclusive)) ∧
    ∀ step s', step.txnId ≠ kInvalidTxnId →
      (s.exec step = .ok (.released, s') → ∀ rid, ¬ s'.locks.HoldsShared step.txnId rid ∧
        ¬ s'.locks.HoldsExclusive step.txnId rid) ∧
      ∀ e, s.exec step = .ok (.status (.error e), s') → ∀ x rid, x ≠ kInvalidTxnId →
        (s'.locks.HoldsShared x rid ↔ s.locks.HoldsShared x rid) ∧
        (s'.locks.HoldsExclusive x rid ↔ s.locks.HoldsExclusive x rid) := by
  have h : SystemInv history s :=
    hrun.invariant SystemInv (SystemInv.init htable hlocks hset)
      (fun _ _ _ _ _ h ht hexec => h.of_exec ht hexec)
      (guarded_of_forall (P := fun (o : LockStep) _ => o.txnId ≠ kInvalidTxnId) hids)
  refine ⟨fun t x rid ht hholds hx hx0 => ?_, fun t rid ht => ?_, fun rid e he => ?_,
    fun t rid ht => ?_, fun step s' ht => ⟨fun hexec rid => h.released ht hexec rid,
      fun e hexec x rid hx => h.refused ht hexec hx rid⟩⟩
  · rw [holdsExclusive_iff ht] at hholds
    rw [holdsShared_iff, holdsExclusive_iff hx0]
    refine ⟨fun hin => hx ?_, fun heq => hx (heq.symm.trans hholds)⟩
    rw [h.locks.exclusive (hholds ▸ ht) x hin, hholds]
  · rw [holdsShared_iff, holdsExclusive_iff ht]
    exact h.locks.rows ht rid
  · by_contra hnot
    obtain ⟨hshared, hexclusive⟩ := not_or.mp hnot
    refine h.locks.occupied he ?_
    obtain ⟨sharedHolders, exclusiveHolder⟩ := e
    obtain rfl : sharedHolders = ∅ := not_not.mp hshared
    obtain rfl : exclusiveHolder = kInvalidTxnId := not_not.mp hexclusive
    rfl
  · rw [holdsShared_iff, holdsExclusive_iff ht]
    exact h.view ht rid

/-- A lock that is asked for while another transaction is in its `ReleaseAll`. -/
def duringRelease : List (LockStep × LockAnswer) :=
  [(.call 1 (.lockExclusive ⟨1, 0⟩), .status (.ok ())), (.call 1 .releaseAll, .copied),
    (.call 2 (.lockShared ⟨1, 0⟩), .status (.error ⟨.conflict,
      lit "LockShared: row is exclusively locked by another transaction"⟩)),
    (.resume 1, .unlocked ⟨1, 0⟩), (.call 2 (.lockShared ⟨1, 0⟩), .status (.ok ())),
    (.resume 1, .released)]

theorem lock_table_safety_duringRelease : ∃ s : LockSystem,
    Run exec (new (.empty (fun l => l) fun _ => .refl _) (.empty (fun l => l) fun _ => .refl _)
      (.empty (fun l => l) fun _ => .refl _)) duringRelease s ∧
    s.locks.HoldsShared 2 ⟨1, 0⟩ ∧ ¬ s.locks.HoldsExclusive 1 ⟨1, 0⟩ := by
  obtain ⟨s, hrun, -⟩ := exists_run_of_check exec
    (new (.empty (fun l => l) fun _ => .refl _) (.empty (fun l => l) fun _ => .refl _)
      (.empty (fun l => l) fun _ => .refl _)) (duringRelease.map Prod.fst) duringRelease
    (fun _ => true) (by decide +kernel)
  obtain ⟨-, -, -, hown, -⟩ := lock_table_safety rfl rfl rfl hrun (by decide)
  obtain ⟨hshared, -⟩ := hown 2 ⟨1, 0⟩ (by decide)
  obtain ⟨-, hexclusive⟩ := hown 1 ⟨1, 0⟩ (by decide)
  exact ⟨s, hrun, hshared.mpr (by decide), fun hholds => absurd (hexclusive.mp hholds) (by decide)⟩

end LockSystem

end MiniDB
