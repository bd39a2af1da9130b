import MiniDB.Lib.Run
import MiniDB.Transaction.Mvcc

/-!
# Snapshots

A Snapshot Isolation transaction should see what had been committed when it began.  The code does not
record this: it looks at the states the transactions have at the time of the scan, at their ids, and at
the set of transactions that were active when the reader began.  `ManagerInv` ties these to the history
of calls: a transaction that is committed by now, has a smaller id than the reader and was not active when
the reader began had committed before, and no other one had.
-/

namespace MiniDB

open Paged Runs Mvcc

namespace TransactionManager

variable {m m' : TransactionManager} {c : TxnCall} {r : TxnAnswer}
  {history : List (TxnCall × TxnAnswer)} {id x : TxnId} {t : Transaction} {state state' : TxnState}
  {transactions : UnorderedMap TxnId Transaction}

/-- The state of a transaction. -/
def stateOf (m : TransactionManager) (id : TxnId) : Option TxnState :=
  (m.getTransaction id).map Transaction.state

/-- The manager after `Begin`. -/
def afterBegin (m : TransactionManager) (level : IsolationLevel) : TransactionManager where
  nextTxnId := m.nextTxnId + 1
  transactions := m.transactions.insert m.nextTxnId ⟨m.nextTxnId, .active, level, m.activeTxnIds⟩
  activeTxnIds := insert m.nextTxnId m.activeTxnIds

/-- The manager after the end of a transaction. -/
def afterEnd (m : TransactionManager) (id : TxnId) (state : TxnState) : TransactionManager where
  nextTxnId := m.nextTxnId
  transactions := m.transactions.adjust id fun t => { t with state := state }
  activeTxnIds := m.activeTxnIds.erase id

theorem getTransaction_afterBegin (m : TransactionManager) (level : IsolationLevel) (id : TxnId) :
    (m.afterBegin level).getTransaction id
      = if id = m.nextTxnId then some ⟨m.nextTxnId, .active, level, m.activeTxnIds⟩
        else m.getTransaction id :=
  UnorderedMap.find?_insert ..

theorem getTransaction_afterEnd (m : TransactionManager) (id : TxnId) (state : TxnState) (id' : TxnId) :
    (m.afterEnd id state).getTransaction id'
      = if id' = id then (m.getTransaction id).map fun t => { t with state := state }
        else m.getTransaction id' := by
  rw [getTransaction, afterEnd, UnorderedMap.find?_adjust]
  split_ifs with h
  · rw [h]
    rfl
  · rfl

theorem stateOf_afterBegin (m : TransactionManager) (level : IsolationLevel) (id : TxnId) :
    (m.afterBegin level).stateOf id
      = if id = m.nextTxnId then some .active else m.stateOf id := by
  rw [stateOf, getTransaction_afterBegin]
  split_ifs <;> rfl

theorem stateOf_afterEnd (hid : m.getTransaction id = some t) (state : TxnState) (id' : TxnId) :
    (m.afterEnd id state).stateOf id' = if id' = id then some state else m.stateOf id' := by
  rw [stateOf, getTransaction_afterEnd, hid]
  split_ifs <;> rfl

/-- The call that ends a transaction in a state. -/
def Ends (c : TxnCall) (id : TxnId) (state : TxnState) : Prop :=
  c = .commit (some id) ∧ state = .committed ∨ c = .abort (some id) ∧ state = .aborted

theorem Ends.ne_active (h : Ends c id state) : state ≠ .active := by
  rcases h with ⟨-, rfl⟩ | ⟨-, rfl⟩ <;> nofun

theorem Ends.id_eq (h : Ends c id state) (h' : Ends c x state') : id = x := by
  rcases h with ⟨rfl, -⟩ | ⟨rfl, -⟩ <;> rcases h' with ⟨heq, -⟩ | ⟨heq, -⟩ <;> cases heq <;> rfl

theorem Ends.call_eq_iff {c' : TxnCall} (h : Ends c id state) (h' : Ends c' id state') :
    c = c' ↔ state' = state := by
  rcases h with ⟨rfl, rfl⟩ | ⟨rfl, rfl⟩ <;> rcases h' with ⟨rfl, rfl⟩ | ⟨rfl, rfl⟩
  · exact iff_of_true rfl rfl
  · exact iff_of_false nofun nofun
  · exact iff_of_false nofun nofun
  · exact iff_of_true rfl rfl

theorem finish_cases (caller : String) (state : TxnState) (m : TransactionManager)
    (txn : Option TxnId) :
    (∃ id t, txn = some id ∧ m.getTransaction id = some t ∧ t.state = .active ∧
      finish caller state m txn = (.ok (), m.afterEnd t.txnId state)) ∨
    ∃ e, finish caller state m txn = (.error e, m) := by
  unfold finish
  cases txn with
  | none => exact .inr ⟨_, rfl⟩
  | some id =>
    rw [Option.bind_some]
    cases ht : m.transactions.find? id with
    | none => exact .inr ⟨_, rfl⟩
    | some t =>
      dsimp only
      split_ifs with hactive
      · exact .inl ⟨id, t, rfl, ht, hactive, rfl⟩
      · exact .inr ⟨_, rfl⟩

/-- What a call does: `Begin` adds a transaction, an active transaction ends, or nothing happens. -/
theorem exec_cases (h : m.exec c = .ok (r, m')) :
    (∃ level, c = .begin level ∧ m.nextTxnId ≠ 0xFFFFFFFFFFFFFFFF ∧ r = .begun m.nextTxnId ∧
      m' = m.afterBegin level) ∨
    (∃ id t state, Ends c id state ∧ m.getTransaction id = some t ∧ t.state = .active ∧
      r = .status (.ok ()) ∧ m' = m.afterEnd t.txnId state) ∨
    ((∀ level, c ≠ .begin level) ∧ (∃ e, r = .status (.error e)) ∧ m' = m) := by
  cases c with
  | begin level =>
    rw [exec, begin] at h
    split_ifs at h with hmax
    · cases h
    · cases h
      exact .inl ⟨level, rfl, hmax, rfl, rfl⟩
  | commit txn =>
    cases h
    rcases finish_cases "Commit" .committed m txn with ⟨id, t, rfl, ht, hactive, heq⟩ | ⟨e, heq⟩
    · rw [commit, heq]
      exact .inr (.inl ⟨id, t, .committed, .inl ⟨rfl, rfl⟩, ht, hactive, rfl, rfl⟩)
    · rw [commit, heq]
      exact .inr (.inr ⟨fun _ => nofun, ⟨e, rfl⟩, rfl⟩)
  | abort txn =>
    cases h
    rcases finish_cases "Abort" .aborted m txn with ⟨id, t, rfl, ht, hactive, heq⟩ | ⟨e, heq⟩
    · rw [abort, heq]
      exact .inr (.inl ⟨id, t, .aborted, .inr ⟨rfl, rfl⟩, ht, hactive, rfl, rfl⟩)
    · rw [abort, heq]
      exact .inr (.inr ⟨fun _ => nofun, ⟨e, rfl⟩, rfl⟩)

/-! ### The history -/

/-- The answered call that commits a transaction. -/
def committing (id : TxnId) : TxnCall × TxnAnswer := (.commit (some id), .status (.ok ()))

/-- The answered call that aborts a transaction. -/
def aborting (id : TxnId) : TxnCall × TxnAnswer := (.abort (some id), .status (.ok ()))

/-- The answered call that starts a transaction. -/
def beginning (level : IsolationLevel) (id : TxnId) : TxnCall × TxnAnswer := (.begin level, .begun id)

/-- `x` had committed when `id` began. -/
def CommittedBefore (history : List (TxnCall × TxnAnswer)) (id x : TxnId) : Prop :=
  ∃ level, Precedes (committing x) (beginning level id) history

/-- The manager after a history of calls. -/
structure ManagerInv (history : List (TxnCall × TxnAnswer)) (m : TransactionManager) : Prop where
  next_pos : 0 < m.nextTxnId
  id_eq : ∀ {id t}, m.getTransaction id = some t → t.txnId = id
  known : ∀ {id t}, m.getTransaction id = some t → 0 < id ∧ id < m.nextTxnId
  active : ∀ id, id ∈ m.activeTxnIds ↔ m.stateOf id = some .active
  ended : ∀ {c id state}, Ends c id state →
    (m.stateOf id = some state ↔ (c, .status (.ok ())) ∈ history)
  begun : ∀ level id, beginning level id ∈ history ↔
    ∃ t, m.getTransaction id = some t ∧ t.isolationLevel = level
  /-- a transaction that is still active was so when younger ones began -/
  active_before : ∀ {id t x}, m.getTransaction id = some t → x < id → m.stateOf x = some .active →
    x ∈ t.activeAtStart
  snapshot : ∀ {id t}, m.getTransaction id = some t → ∀ x, CommittedBefore history id x ↔
    x < id ∧ x ∉ t.activeAtStart ∧ m.stateOf x = some .committed

theorem ManagerInv.committed (h : ManagerInv history m) (id : TxnId) :
    m.stateOf id = some .committed ↔ committing id ∈ history := h.ended (.inl ⟨rfl, rfl⟩)

theorem ManagerInv.aborted (h : ManagerInv history m) (id : TxnId) :
    m.stateOf id = some .aborted ↔ aborting id ∈ history := h.ended (.inr ⟨rfl, rfl⟩)

/-- A transaction that has begun does not begin again. -/
theorem ManagerInv.committedBefore_step (h : ManagerInv history m) (hexec : m.exec c = .ok (r, m'))
    (hid : m.getTransaction id = some t) (x : TxnId) :
    CommittedBefore (history ++ [(c, r)]) id x ↔ CommittedBefore history id x := by
  refine exists_congr fun level => ?_
  rw [precedes_snoc, or_iff_left]
  rintro ⟨heq, -⟩
  have hlt := (h.known hid).2
  rcases exec_cases hexec with ⟨level', -, -, rfl, -⟩ | ⟨id', t', state, hends, -⟩ | ⟨hne, -⟩
  · obtain rfl : m.nextTxnId = id := TxnAnswer.begun.inj (Prod.mk.inj heq).2
    exact absurd hlt (UInt64.lt_irrefl _)
  · rcases hends with ⟨rfl, -⟩ | ⟨rfl, -⟩ <;> cases heq
  · exact hne level (Prod.mk.inj heq).1

theorem ManagerInv.init (hempty : transactions.entries = []) : ManagerInv [] (.new transactions) := by
  have hnone : ∀ id, (new transactions).getTransaction id = none := by
    intro id
    rw [getTransaction, new, UnorderedMap.find?, hempty]
    rfl
  have hstate : ∀ id, (new transactions).stateOf id = none := by
    intro id
    rw [stateOf, hnone]
    rfl
  refine ⟨?_, ?_, ?_, ?_, ?_, ?_, ?_, ?_⟩
  · show (0 : TxnId) < 1
    decide
  · intro id t ht
    rw [hnone] at ht
    cases ht
  · intro id t ht
    rw [hnone] at ht
    cases ht
  · intro id
    rw [hstate]
    exact iff_of_false (Finset.notMem_empty id) (Option.some_ne_none _).symm
  · intro c id state _
    rw [hstate]
    exact iff_of_false (Option.some_ne_none _).symm List.not_mem_nil
  · intro level id
    rw [hnone]
    refine iff_of_false List.not_mem_nil ?_
    rintro ⟨t, ht, -⟩
    cases ht
  · intro id t x ht
    rw [hnone] at ht
    cases ht
  · intro id t ht
    rw [hnone] at ht
    cases ht

/-- Ids below the next one. -/
theorem lt_succ_iff {n : TxnId} (hn : n ≠ 0xFFFFFFFFFFFFFFFF) (id : TxnId) :
    id < n + 1 ↔ id < n ∨ id = n := by
  have hmax : n.toNat ≠ 0xFFFFFFFFFFFFFFFF := fun h => hn (UInt64.toNat.inj h)
  have hlt := n.toNat_lt
  have hadd : (n + 1).toNat = n.toNat + 1 := by
    rw [UInt64.toNat_add]
    show (n.toNat + 1) % 2 ^ 64 = _
    omega
  rw [UInt64.lt_iff_toNat_lt, UInt64.lt_iff_toNat_lt, hadd, ← UInt64.toNat_inj]
  omega

/-- Committed transactions have begun and are not active. -/
theorem ManagerInv.of_committed (h : ManagerInv history m) (hx : committing x ∈ history) :
    x < m.nextTxnId ∧ x ∉ m.activeTxnIds := by
  have hstate := (h.committed x).mpr hx
  obtain ⟨t, ht, hcommitted⟩ := Option.map_eq_some_iff.mp hstate
  refine ⟨(h.known ht).2, fun hmem => ?_⟩
  rw [h.active, hstate] at hmem
  cases hmem

/-- The next id is not in use. -/
theorem ManagerInv.getTransaction_next (h : ManagerInv history m) :
    m.getTransaction m.nextTxnId = none := by
  refine Option.eq_none_iff_forall_ne_some.mpr fun t ht => ?_
  exact UInt64.lt_irrefl _ (h.known ht).2

/-- When a transaction begins, all that has committed had committed before. -/
theorem ManagerInv.committedBefore_new (h : ManagerInv history m) (level : IsolationLevel)
    (x : TxnId) : CommittedBefore (history ++ [beginning level m.nextTxnId]) m.nextTxnId x ↔
      committing x ∈ history := by
  constructor
  · rintro ⟨level', hprecedes⟩
    rcases precedes_snoc.mp hprecedes with hold | ⟨-, hmem⟩
    · obtain ⟨t, ht, -⟩ := (h.begun _ _).mp hold.right_mem
      exact absurd (h.known ht).2 (UInt64.lt_irrefl _)
    · exact hmem
  · exact fun hmem => ⟨level, precedes_snoc.mpr (.inr ⟨rfl, hmem⟩)⟩

theorem ManagerInv.afterBegin (h : ManagerInv history m) (hmax : m.nextTxnId ≠ 0xFFFFFFFFFFFFFFFF)
    (level : IsolationLevel) :
    ManagerInv (history ++ [beginning level m.nextTxnId]) (m.afterBegin level) := by
  have hexec : m.exec (.begin level) = .ok (.begun m.nextTxnId, m.afterBegin level) := by
    rw [exec, begin, if_neg hmax]
    rfl
  have hnew := h.getTransaction_next
  have hget := m.getTransaction_afterBegin level
  have hstate := m.stateOf_afterBegin level
  have hsucc := lt_succ_iff hmax
  refine ⟨?_, ?_, ?_, ?_, ?_, ?_, ?_, ?_⟩
  · exact (hsucc 0).mpr (.inl h.next_pos)
  · intro id t ht
    rw [hget] at ht
    split_ifs at ht with hid
    · cases ht
      exact hid.symm
    · exact h.id_eq ht
  · intro id t ht
    rw [hget] at ht
    split_ifs at ht with hid
    · rw [hid]
      exact ⟨h.next_pos, (hsucc _).mpr (.inr rfl)⟩
    · exact ⟨(h.known ht).1, (hsucc _).mpr (.inl (h.known ht).2)⟩
  · intro id
    rw [hstate]
    show id ∈ insert m.nextTxnId m.activeTxnIds ↔ _
    rw [Finset.mem_insert, h.active]
    split_ifs with hid
    · exact iff_of_true (.inl hid) rfl
    · exact or_iff_right hid
  · intro c id state hends
    rw [hstate, List.mem_append, ← h.ended hends, List.mem_singleton]
    have hne : ((c, .status (.ok ())) : TxnCall × TxnAnswer) ≠ beginning level m.nextTxnId := nofun
    rw [or_iff_left hne]
    split_ifs with hid
    · rw [hid, stateOf, hnew]
      exact iff_of_false (fun hsome => hends.ne_active (Option.some.inj hsome).symm) nofun
    · exact Iff.rfl
  · intro level' id
    rw [List.mem_append, h.begun, List.mem_singleton, hget]
    split_ifs with hid
    · rw [hid, hnew]
      constructor
      · rintro (⟨t, ht, -⟩ | heq)
        · cases ht
        · obtain rfl : level' = level := TxnCall.begin.inj (Prod.mk.inj heq).1
          exact ⟨_, rfl, rfl⟩
      · rintro ⟨t, ht, rfl⟩
        cases ht
        exact .inr rfl
    · refine or_iff_left fun heq => hid ?_
      exact TxnAnswer.begun.inj (Prod.mk.inj heq).2
  · intro id t x ht hlt hactive
    rw [hget] at ht
    rw [hstate] at hactive
    split_ifs at ht with hid
    · cases ht
      rw [if_neg (by rintro rfl; rw [hid] at hlt; exact UInt64.lt_irrefl _ hlt)] at hactive
      exact (h.active x).mpr hactive
    · have hx : x ≠ m.nextTxnId := by
        rintro rfl
        exact UInt64.lt_asymm hlt (h.known ht).2
      rw [if_neg hx] at hactive
      exact h.active_before ht hlt hactive
  · intro id t ht x
    have hcommitted : (m.afterBegin level).stateOf x = some .committed
        ↔ m.stateOf x = some .committed := by
      rw [hstate]
      split_ifs with hx
      · rw [hx, stateOf, hnew]
        exact ⟨nofun, nofun⟩
      · exact Iff.rfl
    rw [hcommitted]
    rw [hget] at ht
    split_ifs at ht with hid
    · -- the new transaction: what has committed by now
      cases ht
      rw [hid, h.committedBefore_new, h.committed]
      constructor
      · intro hx
        obtain ⟨hlt, hnot⟩ := h.of_committed hx
        exact ⟨hlt, hnot, hx⟩
      · exact fun hx => hx.2.2
    · rw [← h.snapshot ht x]
      exact h.committedBefore_step hexec ht x

theorem ManagerInv.afterEnd (h : ManagerInv history m) (hends : Ends c id state)
    (hid : m.getTransaction id = some t) (hactive : t.state = .active)
    (hexec : m.exec c = .ok (.status (.ok ()), m.afterEnd id state)) :
    ManagerInv (history ++ [(c, .status (.ok ()))]) (m.afterEnd id state) := by
  have hget := m.getTransaction_afterEnd id state
  rw [hid, Option.map_some] at hget
  have hstate := stateOf_afterEnd hid state
  have hstate_id : m.stateOf id = some .active := by
    rw [stateOf, hid, Option.map_some, hactive]
  have hne := hends.ne_active
  -- apart from its state, every transaction is as before
  have hsame : ∀ id' t', (m.afterEnd id state).getTransaction id' = some t' →
      ∃ t₀, m.getTransaction id' = some t₀ ∧ t'.txnId = t₀.txnId ∧
        t'.isolationLevel = t₀.isolationLevel ∧ t'.activeAtStart = t₀.activeAtStart := by
    intro id' t' ht'
    rw [hget] at ht'
    split_ifs at ht' with heq
    · cases ht'
      exact ⟨t, by rw [heq]; exact hid, rfl, rfl, rfl⟩
    · exact ⟨t', ht', rfl, rfl, rfl⟩
  refine ⟨h.next_pos, ?_, ?_, ?_, ?_, ?_, ?_, ?_⟩
  · intro id' t' ht'
    obtain ⟨t₀, ht₀, htxn, -⟩ := hsame id' t' ht'
    rw [htxn]
    exact h.id_eq ht₀
  · intro id' t' ht'
    obtain ⟨t₀, ht₀, -⟩ := hsame id' t' ht'
    exact h.known ht₀
  · intro id'
    rw [hstate]
    show id' ∈ m.activeTxnIds.erase id ↔ _
    rw [Finset.mem_erase, h.active]
    split_ifs with heq
    · exact iff_of_false (fun hmem => hmem.1 heq) fun hsome => hne (Option.some.inj hsome)
    · exact and_iff_right heq
  · intro c' id' state' hends'
    rw [hstate, List.mem_append, List.mem_singleton, ← h.ended hends', Prod.mk.injEq,
      and_iff_left rfl]
    split_ifs with heq
    · rw [heq] at hends'
      rw [heq, hstate_id, Option.some.injEq, Option.some.injEq,
        or_iff_right hends'.ne_active.symm, hends'.call_eq_iff hends]
    · exact (or_iff_left fun hcall => heq (hends'.id_eq (hcall ▸ hends))).symm
  · intro level id'
    rw [List.mem_append, List.mem_singleton, h.begun, or_iff_left, hget]
    · split_ifs with heq
      · rw [heq, hid]
        constructor
        · rintro ⟨t', ht', rfl⟩
          cases ht'
          exact ⟨_, rfl, rfl⟩
        · rintro ⟨t', ht', rfl⟩
          cases ht'
          exact ⟨t, rfl, rfl⟩
      · exact Iff.rfl
    · intro hmem
      rcases hends with ⟨rfl, -⟩ | ⟨rfl, -⟩ <;> cases hmem
  · intro id' t' x ht' hlt hx
    obtain ⟨t₀, ht₀, -, -, hstart⟩ := hsame id' t' ht'
    rw [hstate] at hx
    rw [hstart]
    split_ifs at hx with heq
    · exact absurd (Option.some.inj hx) hne
    · exact h.active_before ht₀ hlt hx
  · intro id' t' ht' x
    obtain ⟨t₀, ht₀, -, -, hstart⟩ := hsame id' t' ht'
    rw [h.committedBefore_step hexec ht₀, h.snapshot ht₀, hstart, hstate]
    refine and_congr_right fun hlt => and_congr_right fun hnot => ?_
    split_ifs with heq
    · -- it was active when the reader began
      rw [heq] at hlt hnot
      exact absurd (h.active_before ht₀ hlt hstate_id) hnot
    · exact Iff.rfl

theorem ManagerInv.step (h : ManagerInv history m) (hexec : m.exec c = .ok (r, m')) :
    ManagerInv (history ++ [(c, r)]) m' := by
  rcases exec_cases hexec with ⟨level, rfl, hmax, rfl, rfl⟩ |
    ⟨id, t, state, hends, hid, hactive, rfl, rfl⟩ | ⟨hne, ⟨e, rfl⟩, rfl⟩
  · exact h.afterBegin hmax level
  · rw [h.id_eq hid] at hexec ⊢
    exact h.afterEnd hends hid hactive hexec
  · -- a refused call neither commits nor begins anything
    refine { h with ended := ?_, begun := ?_, snapshot := ?_ }
    · intro c id state hends
      rw [List.mem_append, List.mem_singleton, or_iff_left (nofun), h.ended hends]
    · intro level id
      rw [List.mem_append, List.mem_singleton, or_iff_left (nofun), h.begun]
    · intro id t ht x
      rw [h.committedBefore_step hexec ht, h.snapshot ht]

theorem ManagerInv.run (hempty : transactions.entries = [])
    (hrun : Run exec (.new transactions) history m) : ManagerInv history m :=
  hrun.always ManagerInv (ManagerInv.init hempty) fun _ _ _ _ _ h hexec => h.step hexec

/-- What had committed when a transaction began does not change any more. -/
theorem ManagerInv.committedBefore_run (hempty : transactions.entries = [])
    {later : List (TxnCall × TxnAnswer)} (hrun : Run exec (.new transactions) history m)
    (hid : m.getTransaction id = some t) (hlater : Run exec (.new transactions) (history ++ later) m') :
    (∃ t', m'.getTransaction id = some t' ∧ t'.isolationLevel = t.isolationLevel) ∧
      ∀ x, CommittedBefore (history ++ later) id x ↔ CommittedBefore history id x := by
  induction later using List.reverseRecOn generalizing m' with
  | nil =>
    rw [List.append_nil] at hlater ⊢
    rw [hlater.unique hrun]
    exact ⟨⟨t, hid, rfl⟩, fun x => Iff.rfl⟩
  | append_singleton later e ih =>
    rw [← List.append_assoc] at hlater ⊢
    obtain ⟨m₁, hrun₁, hexec⟩ := run_snoc_iff.mp hlater
    obtain ⟨⟨t₁, ht₁, hlevel⟩, hbefore⟩ := ih hrun₁
    have h₁ := ManagerInv.run hempty hrun₁
    constructor
    · rw [← hlevel, ← (ManagerInv.run hempty hlater).begun, List.mem_append]
      exact .inl ((h₁.begun _ _).mpr ⟨t₁, ht₁, rfl⟩)
    · intro x
      rw [h₁.committedBefore_step hexec ht₁, hbefore]

/-! ### Visibility -/

variable {R : TxnId} {reader : Transaction}

/-- The transactions whose committed work a reader accepts. -/
def Accepts (history : List (TxnCall × TxnAnswer)) (reader : Transaction) (x : TxnId) : Prop :=
  match reader.isolationLevel with
  | .readCommitted => committing x ∈ history
  | .snapshotIsolation => CommittedBefore history reader.txnId x

theorem accepts_snapshot (hsnapshot : reader.isolationLevel = .snapshotIsolation) (x : TxnId) :
    Accepts history reader x ↔ CommittedBefore history reader.txnId x := by
  rw [Accepts, hsnapshot]

/-- What a reader accepts it accepts later on. -/
theorem Accepts.later {reader' : Transaction} (h : Accepts history reader x)
    (hid : reader'.txnId = reader.txnId) (hlevel : reader'.isolationLevel = reader.isolationLevel)
    (later : List (TxnCall × TxnAnswer)) : Accepts (history ++ later) reader' x := by
  rw [Accepts] at h ⊢
  rw [hlevel, hid]
  generalize reader.isolationLevel = level at h ⊢
  cases level with
  | readCommitted => exact List.mem_append_left _ h
  | snapshotIsolation =>
    obtain ⟨level, hprecedes⟩ := h
    exact ⟨level, hprecedes.append later⟩

/-- The code's test. -/
theorem ManagerInv.committedAndVisibleTo_iff (h : ManagerInv history m)
    (hreader : m.getTransaction R = some reader) (x : TxnId) :
    committedAndVisibleTo x reader m = true ↔ Accepts history reader x := by
  have hsnapshot := h.snapshot hreader x
  have hcommitted := h.committed x
  rw [committedAndVisibleTo, Accepts, h.id_eq hreader]
  rw [stateOf] at hsnapshot hcommitted
  cases hx : m.getTransaction x with
  | none =>
    rw [hx] at hsnapshot hcommitted
    cases reader.isolationLevel
    · simp [← hcommitted]
    · simp [hsnapshot]
  | some actor =>
    have hne : x ≠ kInvalidTxnId := by
      rintro rfl
      exact absurd (h.known hx).1 (UInt64.lt_irrefl 0)
    rw [hx] at hsnapshot hcommitted
    rw [if_neg hne]
    by_cases hactor : actor.state = .committed
    · cases reader.isolationLevel
      · simp [hactor, ← hcommitted]
      · simp [hactor, hsnapshot]
    · cases reader.isolationLevel
      · simp [hactor, ← hcommitted]
      · simp [hactor, hsnapshot]

/-- Committed transactions only are accepted. -/
theorem ManagerInv.committed_of_accepts (h : ManagerInv history m)
    (hreader : m.getTransaction R = some reader) (hx : Accepts history reader x) :
    m.stateOf x = some .committed := by
  cases hlevel : reader.isolationLevel with
  | readCommitted =>
    rw [Accepts, hlevel] at hx
    exact (h.committed x).mpr hx
  | snapshotIsolation =>
    rw [accepts_snapshot hlevel, h.id_eq hreader] at hx
    exact ((h.snapshot hreader x).mp hx).2.2

/-- No transaction has the id 0. -/
theorem ManagerInv.stateOf_zero (h : ManagerInv history m) : m.stateOf kInvalidTxnId = none := by
  refine Option.map_eq_none_iff.mpr (Option.eq_none_iff_forall_ne_some.mpr fun t ht => ?_)
  exact absurd (h.known ht).1 (UInt64.lt_irrefl 0)

theorem ManagerInv.isVisible_iff (h : ManagerInv history m)
    (hreader : m.getTransaction R = some reader) (v : VersionMeta) :
    isVisible v reader m = true ↔ (v.xmin = R ∨ Accepts history reader v.xmin) ∧
      ¬ (v.xmax = R ∨ Accepts history reader v.xmax) := by
  have hmin := h.committedAndVisibleTo_iff hreader v.xmin
  have hmax := h.committedAndVisibleTo_iff hreader v.xmax
  rw [isVisible, h.id_eq hreader]
  by_cases hself : v.xmax = R
  · simp [hself]
  · by_cases hcreator : v.xmin = R ∨ Accepts history reader v.xmin
    · by_cases hzero : v.xmax = kInvalidTxnId
      · have hnot : ¬ Accepts history reader kInvalidTxnId := by
          intro haccepts
          have hstate := h.committed_of_accepts hreader haccepts
          rw [h.stateOf_zero] at hstate
          cases hstate
        rw [hzero] at hself
        simp [hzero, hself, hcreator, hmin, hnot]
      · simp [hself, hcreator, hmin, hzero, ← hmax]
    · simp [hself, hcreator, hmin]

/-- The same for a Snapshot Isolation reader. -/
theorem ManagerInv.isVisible_snapshot (h : ManagerInv history m)
    (hreader : m.getTransaction R = some reader)
    (hsnapshot : reader.isolationLevel = .snapshotIsolation) (v : VersionMeta) :
    isVisible v reader m = true ↔ (v.xmin = R ∨ CommittedBefore history R v.xmin) ∧
      ¬ (v.xmax = R ∨ CommittedBefore history R v.xmax) := by
  rw [h.isVisible_iff hreader, accepts_snapshot hsnapshot, accepts_snapshot hsnapshot,
    h.id_eq hreader]

/-- A transaction that is not committed by now had not committed before. -/
theorem ManagerInv.not_committedBefore (h : ManagerInv history m)
    (hreader : m.getTransaction R = some reader) (hx : m.stateOf x ≠ some .committed) :
    ¬ CommittedBefore history R x :=
  fun hbefore => hx ((h.snapshot hreader x).mp hbefore).2.2

/-- **Snapshots.**  At every moment after it began, a Snapshot Isolation transaction sees a version iff it
made the version or the maker had committed before it began, and neither has it deleted the version nor had
a deleter committed before it began.  So the answer does not change by later calls, and what active or
aborted transactions make or delete has no influence on it. -/
theorem snapshot_isolation {transactions : UnorderedMap TxnId Transaction}
    (hempty : transactions.entries = []) (hrun : Run exec (.new transactions) history m)
    (hreader : m.getTransaction R = some reader)
    (hsnapshot : reader.isolationLevel = .snapshotIsolation) (v : VersionMeta) :
    (isVisible v reader m = true ↔ (v.xmin = R ∨ CommittedBefore history R v.xmin) ∧
      ¬ (v.xmax = R ∨ CommittedBefore history R v.xmax)) ∧
    (∀ later m', Run exec (.new transactions) (history ++ later) m' →
      ∃ reader', m'.getTransaction R = some reader' ∧
        isVisible v reader' m' = isVisible v reader m) ∧
    (v.xmin ≠ R → m.stateOf v.xmin ≠ some .committed → isVisible v reader m = false) ∧
    (v.xmax ≠ R → m.stateOf v.xmax ≠ some .committed →
      isVisible v reader m = isVisible ⟨v.xmin, kInvalidTxnId⟩ reader m) := by
  have h := ManagerInv.run hempty hrun
  have hvisible := h.isVisible_snapshot hreader hsnapshot
  refine ⟨hvisible v, fun later m' hlater => ?_, fun hother hstate => ?_, fun hother hstate => ?_⟩
  · obtain ⟨⟨reader', hreader', hlevel⟩, hbefore⟩ :=
      ManagerInv.committedBefore_run hempty hrun hreader hlater
    refine ⟨reader', hreader', ?_⟩
    rw [Bool.eq_iff_iff, (ManagerInv.run hempty hlater).isVisible_snapshot hreader'
      (hlevel.trans hsnapshot), hvisible, hbefore, hbefore]
  · rw [Bool.eq_false_iff, Ne, hvisible]
    rintro ⟨hself | hbefore, -⟩
    · exact hother hself
    · exact h.not_committedBefore hreader hstate hbefore
  · have hzero : kInvalidTxnId ≠ R := (UInt64.ne_of_lt (h.known hreader).1)
    rw [Bool.eq_iff_iff, hvisible, hvisible]
    refine and_congr_right fun _ => iff_of_true ?_ ?_
    · rintro (hself | hbefore)
      · exact hother hself
      · exact h.not_committedBefore hreader hstate hbefore
    · rintro (hself | hbefore)
      · exact hzero hself
      · exact h.not_committedBefore hreader (h.stateOf_zero ▸ nofun) hbefore

/-- No transactions, in an implementation that puts new elements first. -/
def noTransactions : UnorderedMap TxnId Transaction := .empty (fun l => l) fun _ => .refl _

/-- The second transaction commits after the third one has begun. -/
def overlapping : List (TxnCall × TxnAnswer) :=
  [beginning .readCommitted 1, committing 1, beginning .snapshotIsolation 2,
    beginning .snapshotIsolation 3, committing 2]

theorem snapshot_isolation_overlapping : ∃ m reader,
    Run exec (.new noTransactions) overlapping m ∧ m.getTransaction 3 = some reader ∧
    reader.isolationLevel = .snapshotIsolation ∧ isVisible ⟨1, 2⟩ reader m = true ∧
    (1 = (3 : TxnId) ∨ CommittedBefore overlapping 3 1) ∧
    ¬ (2 = (3 : TxnId) ∨ CommittedBefore overlapping 3 2) := by
  obtain ⟨m, hrun, hcheck⟩ := exists_run_of_check exec (.new noTransactions)
    [.begin .readCommitted, .commit (some 1), .begin .snapshotIsolation, .begin .snapshotIsolation,
      .commit (some 2)] overlapping
    (fun m => (m.getTransaction 3).any fun reader =>
      reader.isolationLevel = .snapshotIsolation && isVisible ⟨1, 2⟩ reader m) (by decide +kernel)
  obtain ⟨reader, hreader, hboth⟩ := (Option.any_eq_true _ _).mp hcheck
  obtain ⟨hsnapshot, hvisible⟩ := Bool.and_eq_true_iff.mp hboth
  have hsnapshot := of_decide_eq_true hsnapshot
  obtain ⟨hcreator, hdeleter⟩ :=
    (snapshot_isolation rfl hrun hreader hsnapshot ⟨1, 2⟩).1.mp hvisible
  exact ⟨m, reader, hrun, hreader, hsnapshot, hvisible, hcreator, hdeleter⟩

end TransactionManager

end MiniDB
