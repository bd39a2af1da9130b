import MiniDB.Lib.Versions
import MiniDB.Storage.Equiv.Tables
import MiniDB.Transaction.Equiv.TransactionManager

/-!
# The versioned store as a map from record ids to versions

`Holds` says that the records of the heap file are the encodings of the versions of a map.  An insert
adds a version under a free record id, a deletion overwrites the deleter of a version in its place,
and `ScanVisible` lists the versions that are visible.  No version is ever removed.

`versions` computes the map from the history of calls, and `MvccInv` says that this is what the
system holds after every run in which transactions act while they are active and write only to
versions that their own scans returned.
-/

namespace MiniDB

open Paged Runs Bytes Mvcc HeapFile RecordCodec SlottedPage TableManager
open Function (update_of_ne update_self)
open Prog (wp_access wp_bind)

namespace VersionedRecordStore

variable {C : Type} {allow : Fault → Prop} {pre : C → Store → Prop} {st : Store}
  {vs : VersionedRecordStore} {chain : List PageId} {f : RecordId → Option (VersionMeta × Row)}
  {rid : RecordId} {t : TxnId} {fuel : Nat}

/-- `bs` is the record of a version. -/
def IsRecord (schema : Schema) (v : VersionMeta × Row) (bs : Str) : Prop :=
  ∃ encoded, encode schema v.2 = .ok encoded ∧ bs = encodeVersioned v.1 encoded

/-- The heap file holds the versions of `f`. -/
structure Holds (st : Store) (vs : VersionedRecordStore) (chain : List PageId)
    (f : RecordId → Option (VersionMeta × Row)) : Prop where
  inv : HeapInv st vs.heapFile chain
  record : ∀ rid, Option.Rel (IsRecord vs.schema) (f rid) (recordIn st chain rid)

/-! ### The header of a record -/

theorem length_encodeVersioned (m : VersionMeta) (encoded : Str) :
    (encodeVersioned m encoded).length = kVersionHeaderSize + encoded.length := by
  rw [encodeVersioned, List.length_append, List.length_append, FixedSize.length_toBytes,
    FixedSize.length_toBytes]
  rfl

theorem decodeVersionMeta_encodeVersioned (m : VersionMeta) (encoded : Str) :
    decodeVersionMeta (encodeVersioned m encoded) = some m := by
  have hlen := length_encodeVersioned m encoded
  have hmin : fixedAt? TxnId (encodeVersioned m encoded) 0 = some m.xmin :=
    fixedAt?_eq_some (Nat.zero_le _) (List.append_assoc ..)
  have hmax : fixedAt? TxnId (encodeVersioned m encoded) 8 = some m.xmax := by
    have hle : 8 ≤ (encodeVersioned m encoded).length := by
      rw [hlen]
      exact Nat.le_add_right_of_le (by decide)
    refine fixedAt?_eq_some hle (?_ : _ = _ ++ encoded)
    rw [encodeVersioned, List.append_assoc]
    exact List.drop_left' (FixedSize.length_toBytes m.xmin)
  rw [decodeVersionMeta, hmin, hmax]
  rfl

theorem rowPayload_encodeVersioned (m : VersionMeta) (encoded : Str) :
    rowPayload (encodeVersioned m encoded) = some encoded := by
  have hlen := length_encodeVersioned m encoded
  rw [rowPayload, if_pos (by omega), encodeVersioned]
  exact congrArg some (List.drop_left' rfl)

/-- The cast to 16 bits keeps the size of a record. -/
theorem castSize_bytes {bytes : Str} (h : bytes.length ≤ 0xFFFF) : (castSize bytes).bytes = bytes := by
  show bytes.take (bytes.length % 2 ^ 16) = bytes
  rw [Nat.mod_eq_of_lt (by omega), List.take_length]

theorem stored_of_length {d : RecordBytes} (h : d.bytes.length ≠ 0) : stored d = some d.bytes :=
  if_neg fun hnil => h (by rw [hnil]; rfl)

/-! ### Writing versions -/

variable {v : VersionMeta × Row} {reader : Transaction}

/-- A version is in one of the pages. -/
theorem Holds.of_some (h : Holds st vs chain f) (hv : f rid = some v) :
    rid.pageId ∈ chain ∧ ∃ bs, recordAt st rid = some bs ∧ IsRecord vs.schema v bs := by
  have hrec := h.record rid
  rw [hv, recordIn] at hrec
  split_ifs at hrec with hmem
  · generalize recordAt st rid = r at hrec
    cases hrec with
    | some hbs => exact ⟨hmem, _, rfl, hbs⟩
  · cases hrec

/-- A free record id has no version. -/
theorem Holds.none_of_free (h : Holds st vs chain f) (hfree : recordAt st rid = none) :
    f rid = none := by
  have hrec := h.record rid
  rw [recordIn, hfree, ite_self] at hrec
  generalize f rid = v at hrec
  cases hrec
  rfl

/-- The map after a step of the heap file that wrote one record. -/
theorem Holds.write (h : Holds st vs chain f) {st' : Store} {file : HeapFile} {chain' : List PageId}
    {bs : Str} (hs : HeapStep st vs.heapFile chain st' file chain') (hmem : rid.pageId ∈ chain')
    (hv : IsRecord vs.schema v bs)
    (hrec : ∀ i, recordAt st' i = if i = rid then some bs else recordAt st i) :
    Holds st' { vs with heapFile := file } chain' (Function.update f rid (some v)) := by
  refine ⟨hs.inv, fun i => ?_⟩
  by_cases hi : i = rid
  · rw [hi, update_self, recordIn, if_pos hmem, hrec, if_pos rfl]
    exact .some hv
  · rw [update_of_ne hi, recordIn_eq_of_step hs (by rw [hrec, if_neg hi])]
    exact h.record i

/-- The versions after `InsertVersion` was answered with `r`. -/
def inserted (t : TxnId) (values : Row) (r : Result RecordId)
    (f : RecordId → Option (VersionMeta × Row)) : RecordId → Option (VersionMeta × Row) :=
  match r with
  | .ok rid => Function.update f rid (some (⟨t, kInvalidTxnId⟩, values))
  | .error _ => f

/-- The versions after a deletion. -/
def deleted (t : TxnId) (rid : RecordId) (f : RecordId → Option (VersionMeta × Row)) :
    RecordId → Option (VersionMeta × Row) :=
  Function.update f rid ((f rid).map fun v => ({ v.1 with xmax := t }, v.2))

/-- A row that can be stored as a version: it fits the schema, and its record with the header fits a
page. -/
def Storable (schema : Schema) (values : Row) : Prop :=
  ∃ encoded, encode schema values = .ok encoded ∧
    kVersionHeaderSize + encoded.length ≤ kMaxRecordSize

/-- What `InsertVersion` leaves. -/
def Inserts (schema : Schema) (t : TxnId) (values : Row)
    (f : RecordId → Option (VersionMeta × Row)) (r : Result RecordId × VersionedRecordStore)
    (st : Store) : Prop :=
  (∀ rid, r.1 = .ok rid → f rid = none) ∧
    (∃ chain, Holds st r.2 chain (inserted t values r.1 f)) ∧
    ((∃ rid, r.1 = .ok rid) ↔ Storable schema values)

/-- The record of a new version. -/
theorem encodeNew_spec (vs : VersionedRecordStore) (t : TxnId) (values : Row) :
    (∃ e, vs.encodeNew t values = .error e ∧ ¬ Storable vs.schema values) ∨
    ∃ d, vs.encodeNew t values = .ok d ∧ IsRecord vs.schema (⟨t, kInvalidTxnId⟩, values) d.bytes ∧
      d.bytes.length ≠ 0 ∧ (d.bytes.length ≤ kMaxRecordSize ↔ Storable vs.schema values) := by
  rw [encodeNew]
  cases hrow : encode vs.schema values with
  | error e =>
    refine .inl ⟨e, rfl, fun ⟨encoded, hencoded, _⟩ => ?_⟩
    rw [hrow] at hencoded
    cases hencoded
  | ok encoded =>
    have hlen := length_encodeVersioned ⟨t, kInvalidTxnId⟩ encoded
    have hstorable : (encodeVersioned ⟨t, kInvalidTxnId⟩ encoded).length ≤ kMaxRecordSize ↔
        Storable vs.schema values := by
      rw [hlen]
      constructor
      · exact fun hle => ⟨encoded, hrow, hle⟩
      · rintro ⟨encoded', hencoded', hle⟩
        rw [hrow] at hencoded'
        cases hencoded'
        exact hle
    dsimp only [bind, Except.bind]
    split_ifs with hlong
    · refine .inl ⟨_, rfl, fun h => ?_⟩
      have hmax : kMaxRecordSize ≤ 0xFFFF := by decide
      exact absurd (hstorable.mpr h) (by omega)
    · refine .inr ⟨_, rfl, ⟨encoded, hrow, rfl⟩, ?_, hstorable⟩
      show (encodeVersioned _ _).length ≠ 0
      rw [hlen]
      exact Nat.ne_of_gt (Nat.add_pos_left (by decide) _)

theorem insertVersion_wp (h : Holds st vs chain f) (t : TxnId) (values : Row)
    (hfuel : chain.length < fuel) :
    (vs.insertVersion t values fuel : Prog PageId Page C _).wp Store.OutOfPages pre
      (Inserts vs.schema t values f) st := by
  unfold insertVersion
  rcases encodeNew_spec vs t values with ⟨e, henc, hnot⟩ | ⟨d, henc, hrecord, hlen, hstorable⟩
  · rw [henc]
    exact ⟨nofun, ⟨chain, h⟩, iff_of_false (fun ⟨_, h⟩ => nomatch h) hnot⟩
  · rw [henc]
    dsimp only
    rw [wp_bind]
    refine Prog.wp_mono ?_ (HeapFile.insertRecord_wp h.inv d hfuel)
    rintro ⟨r, file⟩ st' ⟨chain', hs, ⟨rid, rfl, hle, hmem, hfree, hrec⟩ | ⟨rfl, hlong, hrec⟩⟩
    · rw [stored_of_length hlen] at hrec
      refine ⟨fun rid' hrid' => ?_, ⟨chain', h.write hs hmem hrecord hrec⟩,
        iff_of_true ⟨rid, rfl⟩ (hstorable.mp hle)⟩
      obtain rfl := Except.ok.inj hrid'
      exact h.none_of_free hfree
    · refine ⟨nofun, ⟨chain', hs.inv, fun i => ?_⟩, iff_of_false (fun ⟨_, h⟩ => nomatch h) fun h => ?_⟩
      · rw [recordIn_eq_of_step hs (hrec i)]
        exact h.record i
      · exact absurd (hstorable.mpr h) (not_le.mpr hlong)

/-- `DeleteVersion` of a version succeeds; the deleter it had is overwritten. -/
theorem deleteVersion_wp (h : Holds st vs chain f) (hv : f rid = some v)
    {Q : Result Unit × VersionedRecordStore → Store → Prop}
    (hQ : ∀ vs' st', vs'.schema = vs.schema → Holds st' vs' chain (deleted t rid f) →
      Q (.ok (), vs') st') :
    (vs.deleteVersion t rid fuel : Prog PageId Page C _).wp allow pre Q st := by
  obtain ⟨hmem, bs, hbs, encoded, henc, rfl⟩ := h.of_some hv
  have hmax := length_le_of_recordAt h.inv hmem hbs
  -- the new record is as long as the old one
  have hlen : (encodeVersioned { v.1 with xmax := t } encoded).length
      = (encodeVersioned v.1 encoded).length := by
    rw [length_encodeVersioned, length_encodeVersioned]
  have hcast : (castSize (encodeVersioned { v.1 with xmax := t } encoded)).bytes
      = encodeVersioned { v.1 with xmax := t } encoded := by
    refine castSize_bytes (hlen.trans_le (hmax.trans ?_))
    decide
  unfold deleteVersion
  rw [wp_bind]
  refine getRecordBytes_wp h.inv hmem (fun bs hbs' => ?_) fun hnone => ?_
  · obtain rfl := Option.some.inj (hbs.symm.trans hbs')
    dsimp only
    rw [wp_bind, wp_access (decodeVersionMeta_encodeVersioned ..), wp_bind,
      wp_access (rowPayload_encodeVersioned ..), wp_bind]
    refine updateRecord_inPlace_wp h.inv hmem hbs (by rw [hcast, hlen]) fun st' hs hrec => ?_
    rw [stored_of_length, hcast] at hrec
    · refine hQ _ st' rfl ?_
      rw [deleted, hv]
      exact h.write hs hmem ⟨encoded, henc, rfl⟩ hrec
    · rw [hcast, length_encodeVersioned]
      exact Nat.ne_of_gt (Nat.add_pos_left (by decide) _)
  · rw [hbs] at hnone
    cases hnone

/-- `UpdateVersion` of a version deletes it and inserts another one. -/
theorem updateVersion_wp (h : Holds st vs chain f) (hv : f rid = some v) (t : TxnId) (values : Row)
    (hfuel : chain.length < fuel) :
    (vs.updateVersion t rid values fuel : Prog PageId Page C _).wp Store.OutOfPages pre
      (Inserts vs.schema t values (deleted t rid f)) st := by
  unfold updateVersion
  rw [wp_bind]
  refine deleteVersion_wp h hv fun vs' st' hschema h' => ?_
  rw [← hschema]
  exact insertVersion_wp h' t values hfuel

/-! ### Scanning -/

/-- The rows of the versions that are visible. -/
def seen (reader : Transaction) (txnMgr : TransactionManager) (v : VersionMeta × Row) : Option Row :=
  if isVisible v.1 reader txnMgr then some v.2 else none

theorem visibleRows_wp {schema : Schema} {txnMgr : TransactionManager} {records : List (RecordId × Str)}
    {l : List (RecordId × (VersionMeta × Row))}
    (h : List.Forall₂ (fun r p => r.1 = p.1 ∧ IsRecord schema p.2 r.2) records l)
    {Q : List (RecordId × Row) → Store → Prop}
    (hQ : Q (l.filterMap fun p => (seen reader txnMgr p.2).map fun row => (p.1, row)) st) :
    (visibleRows schema reader txnMgr records : Prog PageId Page C _).wp allow pre Q st := by
  induction h generalizing Q with
  | nil => exact hQ
  | @cons r p records l hr _ ih =>
    obtain ⟨rid, bs⟩ := r
    obtain ⟨rid', m, row⟩ := p
    obtain ⟨hrid, encoded, henc, hbs⟩ := hr
    obtain rfl : rid = rid' := hrid
    obtain rfl : bs = encodeVersioned m encoded := hbs
    rw [List.filterMap_cons, seen] at hQ
    unfold visibleRows
    rw [wp_bind, wp_access (decodeVersionMeta_encodeVersioned ..)]
    by_cases hvisible : isVisible m reader txnMgr = true
    · rw [if_pos hvisible] at hQ
      rw [if_pos hvisible, wp_bind, wp_access (rowPayload_encodeVersioned ..), wp_bind,
        Prog.wp_check (decode_encode henc)]
      dsimp only
      rw [wp_bind]
      exact ih hQ
    · rw [if_neg hvisible] at hQ
      rw [if_neg hvisible]
      exact ih hQ

/-- The versions in the order of the records. -/
theorem Holds.listing (h : Holds st vs chain f) : ∃ l, Lists l f ∧
    List.Forall₂ (fun r p => r.1 = p.1 ∧ IsRecord vs.schema p.2 r.2) (heapRecords st chain) l := by
  refine Lists.of_encoded (nodup_heapRecords h.inv.nodup) (fun r hr => ?_) fun rid v hv => ?_
  · obtain ⟨hpage, hbs⟩ := mem_heapRecords.mp hr
    have hrec := h.record r.1
    rw [recordIn, if_pos hpage, hbs] at hrec
    generalize f r.1 = v at hrec
    cases hrec with
    | some hv => exact ⟨_, rfl, hv⟩
  · obtain ⟨hpage, bs, hbs, -⟩ := h.of_some hv
    exact List.mem_map_of_mem (f := Prod.fst) (mem_heapRecords.mpr ⟨hpage, hbs⟩)

/-- `ScanVisible` lists the rows of the visible versions. -/
theorem scanVisible_exec (h : Holds st vs chain f) (reader : Transaction)
    (txnMgr : TransactionManager) :
    ∃ rows, Store.exec (C := Empty) (vs.scanVisible reader txnMgr) st = .ok (rows, st) ∧
      Lists rows fun rid => (f rid).bind (seen reader txnMgr) := by
  obtain ⟨l, hl, hrel⟩ := h.listing
  have hwp : (vs.scanVisible reader txnMgr (st.pages.length + 1) : Prog PageId Page Empty _).wp
      (fun _ => False) (fun _ _ => True) (fun rows st' => st' = st ∧
        rows = l.filterMap fun p => (seen reader txnMgr p.2).map fun row => (p.1, row)) st := by
    unfold scanVisible
    rw [wp_bind]
    refine scan_wp h.inv (Nat.lt_succ_of_le h.inv.length_le) ?_
    exact visibleRows_wp hrel ⟨rfl, rfl⟩
  obtain ⟨rows, st', hexec, rfl, rfl⟩ := Store.exec_of_wp_false hwp
  exact ⟨_, hexec, hl.filterMap _⟩

end VersionedRecordStore

open VersionedRecordStore TransactionManager

/-! ### The history of calls -/

/-- What an answered call does to the versions. -/
def MvccCall.next : MvccCall → MvccAnswer → (RecordId → Option (VersionMeta × Row)) →
    RecordId → Option (VersionMeta × Row)
  | .insertVersion t values, .record r, f => inserted t values r f
  | .deleteVersion t rid, .status (.ok _), f => deleted t rid f
  | .updateVersion t rid values, .record r, f => inserted t values r (deleted t rid f)
  | _, _, f => f

namespace MvccSystem

variable {transactions : UnorderedMap TxnId Transaction} {pool : Store} {schema : Schema}
  {s₀ s s' : MvccSystem} {history : List (MvccCall × MvccAnswer)} {c : MvccCall} {r : MvccAnswer}
  {t : TxnId} {rid : RecordId} {f f' f'' : RecordId → Option (VersionMeta × Row)}
  {res : Result RecordId} {values : Row}

/-- The versions after a history of calls. -/
def versions (history : List (MvccCall × MvccAnswer)) : RecordId → Option (VersionMeta × Row) :=
  history.foldl (fun f e => e.1.next e.2 f) fun _ => none

/-- The calls of the transaction manager in a history. -/
def txnCalls (history : List (MvccCall × MvccAnswer)) : List (TxnCall × TxnAnswer) :=
  history.filterMap fun
    | (.txn c, .txn r) => some (c, r)
    | _ => none

theorem versions_snoc (history : List (MvccCall × MvccAnswer)) (c : MvccCall) (r : MvccAnswer) :
    versions (history ++ [(c, r)]) = c.next r (versions history) := by
  rw [versions, List.foldl_append]
  rfl

theorem txnCalls_append (a b : List (MvccCall × MvccAnswer)) :
    txnCalls (a ++ b) = txnCalls a ++ txnCalls b := List.filterMap_append ..

theorem txnCalls_snoc_txn (history : List (MvccCall × MvccAnswer)) (c : TxnCall) (r : TxnAnswer) :
    txnCalls (history ++ [(.txn c, .txn r)]) = txnCalls history ++ [(c, r)] := txnCalls_append ..

/-- `ScanVisible` has returned the version to the transaction at some time. -/
def Returned (s₀ : MvccSystem) (history : List (MvccCall × MvccAnswer)) (t : TxnId)
    (rid : RecordId) : Prop :=
  ∃ earlier later s rows row, history = earlier ++ later ∧ Run exec s₀ earlier s ∧
    s.scanVisible t = some rows ∧ (rid, row) ∈ rows

/-- The transaction is active. -/
def Acts (s₀ : MvccSystem) (history : List (MvccCall × MvccAnswer)) (t : TxnId) : Prop :=
  ∀ s, Run exec s₀ history s → s.txnMgr.stateOf t = some .active

/-- Transactions act while they are active, and write to versions that were returned to them. -/
def ProperCall (s₀ : MvccSystem) (history : List (MvccCall × MvccAnswer)) (c : MvccCall)
    (_ : MvccAnswer) : Prop :=
  match c with
  | .txn _ => True
  | .insertVersion t _ => Acts s₀ history t
  | .deleteVersion t rid | .updateVersion t rid _ =>
    Acts s₀ history t ∧ Returned s₀ history t rid

/-! ### What a transaction writes -/

/-- Calls of `t` have led from the versions `f` to `f'`. -/
structure Wrote (t : TxnId) (f f' : RecordId → Option (VersionMeta × Row)) : Prop where
  kept : ∀ {rid v}, f rid = some v →
    ∃ x, f' rid = some (⟨v.1.xmin, x⟩, v.2) ∧ (x = v.1.xmax ∨ x = t)
  new : ∀ {rid v}, f' rid = some v → f rid = none →
    v.1.xmin = t ∧ (v.1.xmax = kInvalidTxnId ∨ v.1.xmax = t)

theorem Wrote.trans (h : Wrote t f f') (h' : Wrote t f' f'') : Wrote t f f'' where
  kept := by
    intro rid v hv
    obtain ⟨x, hx, hold⟩ := h.kept hv
    obtain ⟨y, hy, hold'⟩ := h'.kept hx
    refine ⟨y, hy, ?_⟩
    rcases hold' with rfl | rfl
    · exact hold
    · exact .inr rfl
  new := by
    intro rid v hv hnone
    cases hmid : f' rid with
    | none => exact h'.new hv hmid
    | some w =>
      obtain ⟨hmin, hmax⟩ := h.new hmid hnone
      obtain ⟨x, hx, hold⟩ := h'.kept hmid
      obtain rfl := Option.some.inj (hv.symm.trans hx)
      refine ⟨hmin, ?_⟩
      rcases hold with rfl | rfl
      · exact hmax
      · exact .inr rfl

theorem wrote_deleted (t : TxnId) (rid : RecordId) (f : RecordId → Option (VersionMeta × Row)) :
    Wrote t f (deleted t rid f) where
  kept := by
    intro i v hv
    by_cases hi : i = rid
    · subst hi
      refine ⟨t, ?_, .inr rfl⟩
      rw [deleted, update_self, hv]
      rfl
    · exact ⟨_, by rw [deleted, update_of_ne hi]; exact hv, .inl rfl⟩
  new := by
    intro i v hv hnone
    by_cases hi : i = rid
    · rw [hi, deleted, update_self, ← hi, hnone] at hv
      cases hv
    · rw [deleted, update_of_ne hi, hnone] at hv
      cases hv

theorem inserted_of_some (hfresh : ∀ rid, res = .ok rid → f rid = none) (hv : f rid = some v) :
    inserted t values res f rid = some v := by
  cases res with
  | error e => exact hv
  | ok new =>
    have hne : rid ≠ new := by
      rintro rfl
      rw [hfresh rid rfl] at hv
      cases hv
    rw [inserted, update_of_ne hne, hv]

theorem wrote_inserted (hfresh : ∀ rid, res = .ok rid → f rid = none) :
    Wrote t f (inserted t values res f) where
  kept hv := ⟨_, inserted_of_some hfresh hv, .inl rfl⟩
  new := by
    intro i v hv hnone
    cases res with
    | error e =>
      rw [inserted, hnone] at hv
      cases hv
    | ok new =>
      by_cases hi : i = new
      · rw [inserted, hi, update_self] at hv
        cases hv
        exact ⟨rfl, .inl rfl⟩
      · rw [inserted, update_of_ne hi, hnone] at hv
        cases hv

theorem deleted_eq_none_iff {i : RecordId} : deleted t rid f i = none ↔ f i = none := by
  by_cases hi : i = rid
  · rw [hi, deleted, update_self, Option.map_eq_none_iff]
  · rw [deleted, update_of_ne hi]

/-! ### The system -/

/-- The system after a history of calls. -/
structure MvccInv (history : List (MvccCall × MvccAnswer)) (s : MvccSystem) : Prop where
  txns : ManagerInv (txnCalls history) s.txnMgr
  holds : ∃ chain, Holds s.pool s.records chain (versions history)
  makers : ∀ {rid v}, versions history rid = some v → s.txnMgr.stateOf v.1.xmin ≠ none ∧
    (v.1.xmax = kInvalidTxnId ∨ s.txnMgr.stateOf v.1.xmax ≠ none)
  kept : ∀ {earlier later rid v}, history = earlier ++ later → versions earlier rid = some v →
    ∃ x, versions history rid = some (⟨v.1.xmin, x⟩, v.2)

theorem create_inv (hempty : transactions.entries = [])
    (hcreate : create transactions pool schema = .ok s₀) : MvccInv [] s₀ := by
  have hopen := Store.exec_of_wp (x := fun _ => HeapFile.openHeap (C := Empty) kInvalidPageId)
    (s := pool) (Q := fun h st => ∃ id, h = ⟨id, id⟩ ∧ HeapInv st h [id] ∧
      ∀ rid, recordIn st [id] rid = none)
    (openHeap_new_wp fun id st' hnone hi _ hrec => ⟨id, rfl, hi, fun rid => by
      rw [recordIn, hrec]
      split_ifs with hmem
      · rw [recordAt, List.mem_singleton.mp hmem, hnone]
        rfl
      · rfl⟩)
  rw [create] at hcreate
  rcases hopen with herror | ⟨h, st, hexec, id, rfl, hi, hnone⟩
  · rw [herror] at hcreate
    cases hcreate
  · rw [hexec] at hcreate
    cases hcreate
    refine ⟨ManagerInv.init hempty, ⟨[id], hi, fun rid => ?_⟩, (fun h => by cases h), ?_⟩
    · rw [hnone]
      exact .none
    · intro earlier later rid v heq hv
      obtain ⟨rfl, -⟩ := List.append_eq_nil_iff.mp heq.symm
      cases hv

/-- What `ScanVisible` of a transaction returns. -/
theorem scanVisible_eq {chain : List PageId} (hholds : Holds s.pool s.records chain f)
    (hreader : s.txnMgr.getTransaction t = some reader) :
    ∃ rows, s.scanVisible t = some rows ∧
      Lists rows fun rid => (f rid).bind (seen reader s.txnMgr) := by
  obtain ⟨rows, hexec, hlists⟩ := scanVisible_exec hholds reader s.txnMgr
  refine ⟨rows, ?_, hlists⟩
  simp only [MvccSystem.scanVisible, hreader, hexec, Option.bind_eq_bind, Option.bind_some]
  rfl

theorem MvccInv.scanVisible (h : MvccInv history s) (hreader : s.txnMgr.getTransaction t = some reader) :
    ∃ rows, s.scanVisible t = some rows ∧
      Lists rows fun rid => (versions history rid).bind (seen reader s.txnMgr) := by
  obtain ⟨chain, hholds⟩ := h.holds
  exact scanVisible_eq hholds hreader

/-- A transaction that scans is known. -/
theorem getTransaction_of_scanVisible {rows : List (RecordId × Row)}
    (hscan : s.scanVisible t = some rows) : ∃ reader, s.txnMgr.getTransaction t = some reader := by
  cases hget : s.txnMgr.getTransaction t with
  | none =>
    rw [MvccSystem.scanVisible, hget] at hscan
    cases hscan
  | some reader => exact ⟨reader, rfl⟩

/-- A version that was returned to a transaction was made by it or by one that it accepts. -/
theorem Returned.version (hall : Throughout exec s₀ MvccInv history) (hrun : Run exec s₀ history s)
    (h : Returned s₀ history t rid) : ∃ v reader, versions history rid = some v ∧
      s.txnMgr.getTransaction t = some reader ∧
      (v.1.xmin = t ∨ Accepts (txnCalls history) reader v.1.xmin) := by
  obtain ⟨earlier, later, s₁, rows, row, rfl, hrun₁, hscan, hmem⟩ := h
  have h₁ := hall earlier later s₁ rfl hrun₁
  have h₂ := hall (earlier ++ later) [] s (List.append_nil _).symm hrun
  obtain ⟨reader₁, hreader₁⟩ := getTransaction_of_scanVisible hscan
  -- it was visible then
  obtain ⟨v, hv, hmaker⟩ : ∃ v, versions earlier rid = some v ∧
      (v.1.xmin = t ∨ Accepts (txnCalls earlier) reader₁ v.1.xmin) := by
    obtain ⟨rows', hscan', hlists⟩ := h₁.scanVisible hreader₁
    obtain rfl := Option.some.inj (hscan.symm.trans hscan')
    obtain ⟨v, hv, hseen⟩ := Option.bind_eq_some_iff.mp ((hlists.mem_iff rid row).mp hmem)
    rw [seen] at hseen
    split_ifs at hseen with hvisible
    exact ⟨v, hv, ((h₁.txns.isVisible_iff hreader₁ v.1).mp hvisible).1⟩
  obtain ⟨x, hx⟩ := h₂.kept rfl hv
  -- and the reader has kept its isolation level
  have hbegun := (h₁.txns.begun _ _).mpr ⟨reader₁, hreader₁, rfl⟩
  obtain ⟨reader, hreader, hlevel⟩ : ∃ reader, s.txnMgr.getTransaction t = some reader ∧
      reader.isolationLevel = reader₁.isolationLevel := by
    refine (h₂.txns.begun _ _).mp ?_
    rw [txnCalls_append]
    exact List.mem_append_left _ hbegun
  refine ⟨_, reader, hx, hreader, hmaker.imp id fun haccepts => ?_⟩
  rw [txnCalls_append]
  exact haccepts.later (by rw [h₂.txns.id_eq hreader, h₁.txns.id_eq hreader₁]) hlevel _

/-- The answered calls of a transaction that writes to the store. -/
inductive Writes (s₀ : MvccSystem) (history : List (MvccCall × MvccAnswer)) (t : TxnId) :
    MvccCall → MvccAnswer → Prop
  | insert {values : Row} {res : Result RecordId} :
      (∀ rid, res = .ok rid → versions history rid = none) →
      Writes s₀ history t (.insertVersion t values) (.record res)
  | delete {rid : RecordId} {v : VersionMeta × Row} :
      Returned s₀ history t rid → versions history rid = some v →
      Writes s₀ history t (.deleteVersion t rid) (.status (.ok ()))
  | update {rid : RecordId} {v : VersionMeta × Row} {values : Row} {res : Result RecordId} :
      Returned s₀ history t rid → versions history rid = some v →
      (∀ rid, res = .ok rid → versions history rid = none) →
      Writes s₀ history t (.updateVersion t rid values) (.record res)

theorem Writes.wrote (h : Writes s₀ history t c r) :
    Wrote t (versions history) (c.next r (versions history)) := by
  cases h with
  | insert hfresh => exact wrote_inserted hfresh
  | @delete rid v _ _ => exact wrote_deleted t rid _
  | @update rid v values res _ _ hfresh =>
    refine (wrote_deleted t rid _).trans (wrote_inserted fun rid' hrid' => ?_)
    exact deleted_eq_none_iff.mpr (hfresh rid' hrid')

theorem Writes.txnCalls_snoc (h : Writes s₀ history t c r) :
    txnCalls (history ++ [(c, r)]) = txnCalls history := by
  rw [txnCalls_append]
  cases h <;> exact List.append_nil _

/-- What a call can do: the transaction manager executes it, or an active transaction writes to the
store. -/
theorem MvccInv.exec_cases (hall : Throughout exec s₀ MvccInv history) (hrun : Run exec s₀ history s)
    (hproper : ProperCall s₀ history c r) (hexec : s.exec c = .ok (r, s')) :
    (∃ c' r', c = .txn c' ∧ r = .txn r' ∧ s.txnMgr.exec c' = .ok (r', s'.txnMgr) ∧
      s' = { s with txnMgr := s'.txnMgr }) ∨
    ∃ t, s.txnMgr.stateOf t = some .active ∧ s'.txnMgr = s.txnMgr ∧
      (∃ chain, Holds s'.pool s'.records chain (c.next r (versions history))) ∧
      Writes s₀ history t c r := by
  have h := hall history [] s (List.append_nil _).symm hrun
  obtain ⟨chain, hholds⟩ := h.holds
  have hfuel := Nat.lt_succ_of_le hholds.inv.length_le
  cases c with
  | txn c =>
    cases hc : s.txnMgr.exec c with
    | error e =>
      rw [exec, hc] at hexec
      cases hexec
    | ok p =>
      rw [exec, hc] at hexec
      cases hexec
      exact .inl ⟨c, p.1, rfl, rfl, hc, rfl⟩
  | insertVersion t values =>
    refine .inr ⟨t, hproper s hrun, ?_⟩
    rw [exec, call] at hexec
    rcases Store.exec_of_wp (insertVersion_wp hholds t values hfuel) with
      herror | ⟨⟨res, records⟩, pool, hok, hfresh, hholds', -⟩
    · rw [herror] at hexec
      cases hexec
    · rw [hok] at hexec
      cases hexec
      exact ⟨rfl, hholds', .insert hfresh⟩
  | deleteVersion t rid =>
    obtain ⟨hacts, hreturned⟩ := hproper
    obtain ⟨v, -, hv, -⟩ := hreturned.version hall hrun
    refine .inr ⟨t, hacts s hrun, ?_⟩
    rw [exec, call] at hexec
    have hwp : (s.records.deleteVersion t rid (s.pool.pages.length + 1) : Prog PageId Page Empty _).wp
        (fun _ => False) (fun _ _ => True)
        (fun p st => p.1 = .ok () ∧ Holds st p.2 chain (deleted t rid (versions history))) s.pool :=
      deleteVersion_wp hholds hv fun vs' st' _ h' => ⟨rfl, h'⟩
    obtain ⟨⟨res, records⟩, pool, hok, hres, hholds'⟩ := Store.exec_of_wp_false hwp
    obtain rfl : res = .ok () := hres
    rw [hok] at hexec
    cases hexec
    exact ⟨rfl, ⟨chain, hholds'⟩, .delete hreturned hv⟩
  | updateVersion t rid values =>
    obtain ⟨hacts, hreturned⟩ := hproper
    obtain ⟨v, -, hv, -⟩ := hreturned.version hall hrun
    refine .inr ⟨t, hacts s hrun, ?_⟩
    rw [exec, call] at hexec
    rcases Store.exec_of_wp (updateVersion_wp hholds hv t values hfuel) with
      herror | ⟨⟨res, records⟩, pool, hok, hfresh, hholds', -⟩
    · rw [herror] at hexec
      cases hexec
    · rw [hok] at hexec
      cases hexec
      refine ⟨rfl, hholds', .update hreturned hv fun rid' hrid' => ?_⟩
      exact deleted_eq_none_iff.mp (hfresh rid' hrid')

/-- A transaction that is known stays known. -/
theorem stateOf_ne_none_of_exec {m m' : TransactionManager} {c : TxnCall} {r : TxnAnswer} {x : TxnId}
    {history : List (TxnCall × TxnAnswer)} (h : ManagerInv history m)
    (hexec : m.exec c = .ok (r, m')) (hx : m.stateOf x ≠ none) : m'.stateOf x ≠ none := by
  obtain ⟨state, hstate⟩ := Option.ne_none_iff_exists'.mp hx
  obtain ⟨t, ht, -⟩ := Option.map_eq_some_iff.mp hstate
  have hbegun := (h.begun _ _).mpr ⟨t, ht, rfl⟩
  obtain ⟨t', ht', -⟩ := ((h.step hexec).begun _ _).mp (List.mem_append_left _ hbegun)
  rw [stateOf, ht']
  exact Option.some_ne_none _

/-- Versions are kept by a call if those of the last state are. -/
theorem MvccInv.kept_snoc (h : MvccInv history s) {e : MvccCall × MvccAnswer}
    (hstep : ∀ {rid v}, versions history rid = some v →
      ∃ x, versions (history ++ [e]) rid = some (⟨v.1.xmin, x⟩, v.2))
    {earlier later : List (MvccCall × MvccAnswer)} (heq : history ++ [e] = earlier ++ later)
    (hv : versions earlier rid = some v) :
    ∃ x, versions (history ++ [e]) rid = some (⟨v.1.xmin, x⟩, v.2) := by
  rcases List.eq_nil_or_concat later with rfl | ⟨later, e', rfl⟩
  · rw [heq, List.append_nil]
    exact ⟨_, hv⟩
  · rw [List.concat_eq_append, ← List.append_assoc] at heq
    obtain ⟨x, hx⟩ := h.kept (List.append_inj' heq rfl).1 hv
    obtain ⟨y, hy⟩ := hstep hx
    exact ⟨y, hy⟩

theorem MvccInv.step (hall : Throughout exec s₀ MvccInv history) (hrun : Run exec s₀ history s)
    (hproper : ProperCall s₀ history c r) (hexec : s.exec c = .ok (r, s')) :
    MvccInv (history ++ [(c, r)]) s' := by
  have h := hall history [] s (List.append_nil _).symm hrun
  rcases MvccInv.exec_cases hall hrun hproper hexec with ⟨c, r, rfl, rfl, htxn, heq⟩ |
    ⟨t, hactive, hmgr, hholds, hwrites⟩
  · have hsame : versions (history ++ [(.txn c, .txn r)]) = versions history := versions_snoc ..
    refine ⟨?_, ?_, ?_, ?_⟩
    · rw [txnCalls_snoc_txn]
      exact h.txns.step htxn
    · rw [hsame, heq]
      exact h.holds
    · intro rid v hv
      rw [hsame] at hv
      obtain ⟨hmin, hmax⟩ := h.makers hv
      exact ⟨stateOf_ne_none_of_exec h.txns htxn hmin,
        hmax.imp id (stateOf_ne_none_of_exec h.txns htxn)⟩
    · refine h.kept_snoc fun hv => ?_
      rw [hsame]
      exact ⟨_, hv⟩
  · have hwrote := hwrites.wrote
    refine ⟨?_, ?_, ?_, ?_⟩
    · rw [hwrites.txnCalls_snoc, hmgr]
      exact h.txns
    · rw [versions_snoc]
      exact hholds
    · intro rid v hv
      rw [versions_snoc] at hv
      rw [hmgr]
      have ht : s.txnMgr.stateOf t ≠ none := by
        rw [hactive]
        nofun
      cases hold : versions history rid with
      | none =>
        obtain ⟨hmin, hmax⟩ := hwrote.new hv hold
        exact ⟨hmin ▸ ht, hmax.imp id fun hself => by rw [hself]; exact ht⟩
      | some w =>
        obtain ⟨x, hx, hslot⟩ := hwrote.kept hold
        obtain rfl := Option.some.inj (hv.symm.trans hx)
        obtain ⟨hmin, hmax⟩ := h.makers hold
        rcases hslot with rfl | rfl
        · exact ⟨hmin, hmax⟩
        · exact ⟨hmin, .inr ht⟩
    · refine h.kept_snoc fun hv => ?_
      obtain ⟨x, hx, -⟩ := hwrote.kept hv
      rw [versions_snoc]
      exact ⟨x, hx⟩

/-- The invariant holds throughout every run of proper calls. -/
theorem MvccInv.throughout (hempty : transactions.entries = [])
    (hcreate : create transactions pool schema = .ok s₀) (hrun : Run exec s₀ history s)
    (hproper : Guarded (ProperCall s₀) history) : Throughout exec s₀ MvccInv history := by
  induction hrun with
  | nil =>
    intro before after s heq hs
    obtain ⟨rfl, -⟩ := List.append_eq_nil_iff.mp heq.symm
    rw [hs.unique .nil]
    exact create_inv hempty hcreate
  | snoc hrun hexec ih =>
    obtain ⟨hbefore, hlast⟩ := guarded_snoc.mp hproper
    refine (throughout_snoc (hrun.snoc hexec)).mpr ⟨ih hbefore, ?_⟩
    exact MvccInv.step (ih hbefore) hrun hlast hexec

/-! ### Executions -/

/-- A check that a call is proper; it scans at the time of the call. -/
def isProper (s : MvccSystem) (c : MvccCall) : Bool :=
  match c with
  | .txn _ => true
  | .insertVersion t _ => s.txnMgr.stateOf t = some .active
  | .deleteVersion t rid | .updateVersion t rid _ =>
    s.txnMgr.stateOf t = some .active &&
      (s.scanVisible t).any fun rows => rows.any fun p => p.1 = rid

theorem properCall_of_isProper (hrun : Run exec s₀ history s) (h : isProper s c = true) :
    ProperCall s₀ history c r := by
  have hacts : ∀ t, decide (s.txnMgr.stateOf t = some .active) = true → Acts s₀ history t := by
    intro t hactive s' hrun'
    rw [hrun'.unique hrun, of_decide_eq_true hactive]
  have hreturned : ∀ t rid, ((s.scanVisible t).any fun rows => rows.any fun p => p.1 = rid) = true →
      Returned s₀ history t rid := by
    intro t rid hscan
    obtain ⟨rows, hrows, hany⟩ := (Option.any_eq_true ..).mp hscan
    obtain ⟨⟨rid', row⟩, hmem, hrid⟩ := List.any_eq_true.mp hany
    obtain rfl : rid' = rid := of_decide_eq_true hrid
    exact ⟨history, [], s, rows, row, (List.append_nil _).symm, hrun, hrows, hmem⟩
  cases c with
  | txn c => trivial
  | insertVersion t values => exact hacts t h
  | deleteVersion t rid | updateVersion t rid values =>
    obtain ⟨hactive, hscan⟩ := Bool.and_eq_true_iff.mp h
    exact ⟨hacts t hactive, hreturned t rid hscan⟩

/-- A computed run of proper calls from a new system whose final state passes a check. -/
theorem exists_proper_run (schema : Schema) (calls : List MvccCall)
    (history : List (MvccCall × MvccAnswer)) (check : MvccSystem → Bool)
    (h : ((create noTransactions Store.new schema).toOption.bind fun s₀ =>
      runChecked exec (fun _ => isProper) [] s₀ calls).map (fun p => (p.1, check p.2))
        = some (history, true)) :
    ∃ s₀ s, create noTransactions Store.new schema = .ok s₀ ∧ Run exec s₀ history s ∧
      Guarded (ProperCall s₀) history ∧ check s = true := by
  obtain ⟨⟨history', s⟩, hp, hpair⟩ := Option.map_eq_some_iff.mp h
  obtain ⟨s₀, hs₀, hchecked⟩ := Option.bind_eq_some_iff.mp hp
  obtain ⟨rfl, hcheck⟩ := Prod.mk.inj hpair
  have hcreate : create noTransactions Store.new schema = .ok s₀ := by
    cases hc : create noTransactions Store.new schema with
    | error e =>
      rw [hc] at hs₀
      cases hs₀
    | ok s =>
      rw [hc] at hs₀
      cases hs₀
      rfl
  have hpass : ∀ before t c r, Run exec s₀ before t → isProper t c = true →
      ProperCall s₀ before c r := fun _ _ _ _ hrun hc => properCall_of_isProper hrun hc
  have hboth : Run exec s₀ history' s ∧ Guarded (ProperCall s₀) history' :=
    run_of_runChecked hpass .nil guarded_nil hchecked
  exact ⟨s₀, s, hcreate, hboth.1, hboth.2, hcheck⟩

/-! ### Scans -/

end MvccSystem

end MiniDB
