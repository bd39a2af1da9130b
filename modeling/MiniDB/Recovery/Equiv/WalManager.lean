import MiniDB.Lib.Framing
import MiniDB.Lib.Run
import MiniDB.Recovery.WalManager

/-!
# The log is read back as it was appended

`LogOf records m` says what a sound log file is: the frames of the records one after the other,
numbered from `1` on, with the next number ready.  Appending adds a record to it, and a new manager on
the file finds the same number (`LogOf.append`, `LogOf.reopen`).  `ReadAll` takes the frames off one at
a time (`readAll_flatMap`), so that it returns what was appended.

A file that was cut ends with a torn frame.  With fewer than four bytes of it the log reads as if it ended
there; with more, not at all (`readAll_torn`).  New records are appended behind the torn bytes and are
read from the wrong place on.
-/

namespace MiniDB

open Bytes Effect Paged Runs Framing
open List (append_assoc append_nil length_append length_drop length_take map_append take_left')

/-! ### Records -/

/-- The record a call appends under the number `lsn`. -/
def WalCall.record (lsn : Lsn) : WalCall → WalRecord
  | appendUpdate txnId pageId before after =>
    { lsn, type := .update, txnId, pageId, beforeImage := before.data, afterImage := after.data }
  | appendCommit txnId => { lsn, type := .commit, txnId }
  | appendAbort txnId => { lsn, type := .abort, txnId }
  | appendCheckpoint => { lsn, type := .checkpoint }

theorem WalCall.exec_eq (c : WalCall) (m : WalManager) :
    c.exec m = if m.nextLsn = 0xFFFFFFFFFFFFFFFF then .error .noMemory
      else .ok (m.nextLsn, ⟨m.file ++ (c.record m.nextLsn).frame, m.nextLsn + 1⟩) := by
  cases c <;> rfl

@[simp] theorem WalCall.lsn_record (lsn : Lsn) (c : WalCall) : (c.record lsn).lsn = lsn := by
  cases c <;> rfl

namespace WalRecord

/-- The record is one of those that calls append. -/
def Appended (r : WalRecord) : Prop := ∃ c lsn, r = WalCall.record lsn c

/-- The fixed part of a record and its images. -/
theorem serialize_eq (r : WalRecord) :
    r.serialize = FixedSize.toBytes r.lsn ++ (FixedSize.toBytes r.type.toByte
      ++ (FixedSize.toBytes r.txnId ++ (FixedSize.toBytes r.pageId
        ++ if r.type = .update then r.beforeImage ++ r.afterImage else []))) := by
  simp only [serialize, append_assoc, List.cons_append]
  rfl

theorem length_serialize_eq (r : WalRecord) :
    r.serialize.length
      = kFixedSize + (if r.type = .update then r.beforeImage ++ r.afterImage else []).length := by
  simp only [serialize_eq, length_append, FixedSize.length_toBytes]
  simp only [FixedSize.size, kFixedSize]
  omega

/-- Only an update has images, each of a page. -/
theorem Appended.images {r : WalRecord} (h : r.Appended) :
    (r.type = .update ∧ r.beforeImage.length = kPageSize ∧ r.afterImage.length = kPageSize) ∨
      (r.type ≠ .update ∧ r.beforeImage = [] ∧ r.afterImage = []) := by
  obtain ⟨c, lsn, rfl⟩ := h
  cases c with
  | appendUpdate txnId pageId before after => exact .inl ⟨rfl, before.size_eq, after.size_eq⟩
  | appendCommit txnId => exact .inr ⟨nofun, rfl, rfl⟩
  | appendAbort txnId => exact .inr ⟨nofun, rfl, rfl⟩
  | appendCheckpoint => exact .inr ⟨nofun, rfl, rfl⟩

theorem Appended.ofByte_toByte {r : WalRecord} (h : r.Appended) :
    WalRecordType.ofByte r.type.toByte = r.type := by
  obtain ⟨c, lsn, rfl⟩ := h
  cases c <;> rfl

/-- A record has one of two lengths. -/
theorem Appended.length_serialize {r : WalRecord} (h : r.Appended) :
    r.serialize.length = 21 ∨ r.serialize.length = 8213 := by
  rw [length_serialize_eq]
  rcases h.images with ⟨htype, hbefore, hafter⟩ | ⟨htype, -⟩
  · rw [if_pos htype, length_append, hbefore, hafter]
    exact .inr rfl
  · rw [if_neg htype]
    exact .inl rfl

theorem length_frame (r : WalRecord) : r.frame.length = 4 + r.serialize.length := by
  rw [frame, length_append, FixedSize.length_toBytes]
  rfl

/-- A record is read back from its bytes. -/
theorem deserialize_serialize {r : WalRecord} (h : r.Appended) :
    deserialize r.serialize = pure r := by
  have heq := r.serialize_eq
  have hlen := r.length_serialize_eq
  have hdata : r.serialize ++ [0] = FixedSize.toBytes r.lsn ++ (FixedSize.toBytes r.type.toByte
      ++ (FixedSize.toBytes r.txnId ++ (FixedSize.toBytes r.pageId
        ++ ((if r.type = .update then r.beforeImage ++ r.afterImage else []) ++ [0])))) := by
    rw [heq]
    simp only [append_assoc]
  have hle : kFixedSize ≤ (r.serialize ++ [0]).length := by
    rw [length_append, hlen]
    omega
  -- the fixed part: each field stands behind the ones before it
  have hlsn : fixedAt? Lsn (r.serialize ++ [0]) 0 = some r.lsn := fixedAt?_eq_some (Nat.zero_le _) hdata
  have htype : fixedAt? UInt8 (r.serialize ++ [0]) 8 = some r.type.toByte :=
    fixedAt?_eq_some (hle.trans' (by decide)) (by rw [hdata]; rfl)
  have htxn : fixedAt? TxnId (r.serialize ++ [0]) 9 = some r.txnId :=
    fixedAt?_eq_some (hle.trans' (by decide)) (by rw [hdata]; rfl)
  have hpage : fixedAt? PageId (r.serialize ++ [0]) 17 = some r.pageId :=
    fixedAt?_eq_some (hle.trans' (by decide)) (by rw [hdata]; rfl)
  have hrest : r.serialize.drop kFixedSize
      = if r.type = .update then r.beforeImage ++ r.afterImage else [] := by
    rw [heq]
    rfl
  simp only [deserialize, hlsn, htype, htxn, hpage, Checked.access_some, pure_bind,
    h.ofByte_toByte]
  rcases h.images with ⟨hup, hbefore, hafter⟩ | ⟨hup, hbefore, hafter⟩
  · rw [if_pos hup] at hlen hrest
    rw [length_append, hbefore, hafter] at hlen
    rw [if_pos hup, if_neg (by omega)]
    have hb : slice kFixedSize kPageSize r.serialize = r.beforeImage := by
      rw [slice, hrest, take_left' hbefore]
    have ha : slice (kFixedSize + kPageSize) kPageSize r.serialize = r.afterImage := by
      rw [slice, ← List.drop_drop, hrest, List.drop_left' hbefore,
        List.take_of_length_le (Nat.le_of_eq hafter)]
    rw [hb, ha]
  · rw [if_neg hup]
    cases r
    simp_all

end WalRecord

/-! ### Reading -/

namespace WalManager

variable {n k : Nat}

/-- A round of the loop takes bytes off the file: enough rounds are as good as more. -/
theorem readRecords_rounds {file : Str} {m : Nat} (hm : file.length < m) (hn : file.length < n) :
    readRecords m file = readRecords n file := by
  induction m generalizing n file with
  | zero => omega
  | succ m ih =>
    obtain ⟨n, rfl⟩ : ∃ n', n = n' + 1 := ⟨n - 1, by omega⟩
    rw [readRecords, readRecords]
    split_ifs with h4
    · rfl
    · -- what is left behind the record is shorter by its length and the four bytes before it
      have hleft : ∀ len, readRecords m ((file.drop 4).drop len)
          = readRecords n ((file.drop 4).drop len) := by
        intro len
        apply ih
        · simp only [length_drop]
          omega
        · simp only [length_drop]
          omega
      simp only [hleft]

theorem readAll_of_short {file : Str} (h : file.length < 4) : readAll file = pure [] := by
  rw [readAll, readRecords, if_pos h]

/-- Bytes behind their length. -/
def framed (buf : Str) : Str := FixedSize.toBytes (UInt32.ofNat buf.length) ++ buf

theorem length_framed (buf : Str) : (framed buf).length = 4 + buf.length := by
  rw [framed, length_append, FixedSize.length_toBytes]
  rfl

variable {buf : Str} {records : List WalRecord}

/-- The length before a record. -/
theorem readLength (h : buf.length < 2 ^ 32) (rest : Str) :
    (FixedSize.ofBytes ((framed buf ++ rest).take 4) : UInt32).toNat = buf.length := by
  rw [framed, append_assoc, take_left' (FixedSize.length_toBytes _ : _ = 4),
    FixedSize.ofBytes_toBytes, UInt32.toNat_ofNat_of_lt' h]

theorem drop_framed (buf rest : Str) : (framed buf ++ rest).drop 4 = buf ++ rest := by
  rw [framed, append_assoc, List.drop_left' (FixedSize.length_toBytes _ : _ = 4)]

/-- The bytes at the front of the file are taken apart first. -/
theorem readAll_framed (h : buf.length < 2 ^ 32) (rest : Str) :
    readAll (framed buf ++ rest) = (WalRecord.deserialize buf >>= fun r =>
      readAll rest >>= fun records => pure (r :: records)) := by
  have hlen : (framed buf ++ rest).length = 4 + buf.length + rest.length := by
    rw [length_append, length_framed]
  have hrounds : readRecords (framed buf ++ rest).length rest = readAll rest :=
    readRecords_rounds (by omega) (Nat.lt_succ_self _)
  rw [readAll, readRecords, if_neg (by omega)]
  simp only [readLength h, drop_framed]
  rw [if_neg (by rw [length_append]; omega), List.take_left, List.drop_left, hrounds]

theorem length_serialize_lt {r : WalRecord} (h : r.Appended) : r.serialize.length < 2 ^ 32 := by
  rcases h.length_serialize with h | h <;> omega

/-- The record at the front of the file is read first. -/
theorem readAll_frame {r : WalRecord} (h : r.Appended) (rest : Str) :
    readAll (r.frame ++ rest) = (readAll rest >>= fun records => pure (r :: records)) := by
  rw [show r.frame = framed r.serialize from rfl, readAll_framed (length_serialize_lt h),
    WalRecord.deserialize_serialize h, pure_bind]

/-- Sound records at the front of the file are read first. -/
theorem readAll_flatMap (h : ∀ r ∈ records, r.Appended) (rest : Str) :
    readAll (records.flatMap WalRecord.frame ++ rest)
      = (readAll rest >>= fun behind => pure (records ++ behind)) := by
  induction records with
  | nil => exact (bind_pure (readAll rest)).symm
  | cons r records ih =>
    rw [List.flatMap_cons, append_assoc, readAll_frame (h r List.mem_cons_self),
      ih fun r' hr' => h r' (List.mem_cons_of_mem _ hr')]
    simp only [bind_assoc, pure_bind, List.cons_append]

/-- A torn record whose length is there is reported. -/
theorem readAll_torn {r : WalRecord} (h : r.Appended) (hk : 4 ≤ k) (hlt : k < r.frame.length) :
    readAll (r.frame.take k)
      = throw ⟨.corruption, lit "WAL: truncated record (possible mid-write crash)"⟩ := by
  have hframe := r.length_frame
  have htake : (r.frame.take k).take 4 = (framed r.serialize ++ []).take 4 := by
    rw [List.take_take, Nat.min_eq_left hk, append_nil]
    rfl
  have hlength : (r.frame.take k).length = k := by
    rw [length_take]
    omega
  rw [readAll, readRecords, if_neg (by omega)]
  simp only [htake, readLength (length_serialize_lt h), length_drop]
  rw [if_pos (by omega)]
  rfl

theorem appended_whole (h : ∀ r ∈ records, r.Appended) (n : Nat) :
    ∀ r ∈ whole WalRecord.frame records n, r.Appended := by
  intro r hr
  obtain ⟨rest, has⟩ := exists_append_whole WalRecord.frame records n
  apply h
  rw [has]
  exact List.mem_append_left _ hr

/-- What is read of a cut log. -/
theorem readAll_cut (h : ∀ r ∈ records, r.Appended) (n : Nat) :
    readAll ((records.flatMap WalRecord.frame).take n)
      = if (torn WalRecord.frame records n).length < 4 then pure (whole WalRecord.frame records n)
        else throw ⟨.corruption, lit "WAL: truncated record (possible mid-write crash)"⟩ := by
  rw [take_flatMap, readAll_flatMap (appended_whole h n)]
  split_ifs with hshort
  · rw [readAll_of_short hshort, pure_bind, append_nil]
  · rcases torn_cases WalRecord.frame records n with
      ⟨rest, has, htorn⟩ | ⟨a, rest, k, has, -, hlt, htorn⟩
    · rw [htorn] at hshort
      exact absurd (by decide) hshort
    · have ha : a.Appended := h a (by rw [has]; simp)
      have hk : 4 ≤ k := by
        rw [htorn, length_take] at hshort
        omega
      rw [htorn, readAll_torn ha hk hlt]
      rfl

end WalManager

/-! ### Sound logs -/

/-- The manager has a log of these records open: their frames one after the other, numbered from `1` on,
with the next number ready. -/
structure LogOf (records : List WalRecord) (m : WalManager) : Prop where
  file_eq : m.file = records.flatMap WalRecord.frame
  appended : ∀ r ∈ records, r.Appended
  numbered : records.map (fun r => r.lsn.toNat) = List.range' 1 records.length
  nextLsn_eq : m.nextLsn.toNat = records.length + 1

namespace LogOf

variable {records : List WalRecord} {m m' : WalManager}

theorem readAll (h : LogOf records m) : WalManager.readAll m.file = pure records := by
  have hall := WalManager.readAll_flatMap h.appended []
  have hnil : WalManager.readAll [] = pure [] := WalManager.readAll_of_short (by decide)
  rwa [hnil, pure_bind, append_nil, append_nil, ← h.file_eq] at hall

/-- The numbers of a sound log increase. -/
theorem pairwise (h : LogOf records m) : records.Pairwise fun a b => a.lsn < b.lsn := by
  have hlt : (records.map fun r => r.lsn.toNat).Pairwise (· < ·) := by
    rw [h.numbered]
    exact List.pairwise_lt_range'
  exact (List.pairwise_map.mp hlt).imp fun h => UInt64.lt_iff_toNat_lt.mpr h

/-- The file that was just created. -/
theorem empty : LogOf [] ⟨[], 1⟩ where
  file_eq := rfl
  appended := nofun
  numbered := rfl
  nextLsn_eq := rfl

theorem file_openFile {file : Str} (h : WalManager.openFile file = .ok m) : m.file = file := by
  unfold WalManager.openFile at h
  cases hread : (WalManager.readAll file).run with
  | error f =>
    rw [hread] at h
    cases h
  | ok existing =>
    rw [hread] at h
    cases h
    rfl

/-- An appending call. -/
theorem append (h : LogOf records m) {c : WalCall} {lsn : Lsn} (hc : c.exec m = .ok (lsn, m')) :
    LogOf (records ++ [c.record lsn]) m' := by
  rw [WalCall.exec_eq] at hc
  split_ifs at hc with hfull
  obtain ⟨rfl, rfl⟩ := Prod.mk.inj (Except.ok.inj hc)
  have hnext := h.nextLsn_eq
  have hroom : records.length + 1 ≠ 2 ^ 64 - 1 := by
    intro hlast
    exact hfull (UInt64.toNat.inj (hnext.trans hlast))
  have hlt := m.nextLsn.toNat_lt
  refine ⟨?_, ?_, ?_, ?_⟩
  · rw [List.flatMap_append, ← h.file_eq, List.flatMap_singleton]
  · intro r hr
    rcases List.mem_append.mp hr with hr | hr
    · exact h.appended r hr
    · exact ⟨c, m.nextLsn, List.mem_singleton.mp hr⟩
  · rw [map_append, h.numbered, length_append, List.length_singleton,
      List.range'_concat, List.map_singleton, WalCall.lsn_record, hnext]
    congr 2
    omega
  · show (m.nextLsn + 1).toNat = _
    rw [UInt64.toNat_add, hnext, length_append, List.length_singleton]
    show (records.length + 1 + 1) % 2 ^ 64 = _
    exact Nat.mod_eq_of_lt (by omega)

/-- A prefix of a sound log is numbered from `1` on as well. -/
theorem numbered_left {before after : List WalRecord} (h : LogOf (before ++ after) m) :
    before.map (fun r => r.lsn.toNat) = List.range' 1 before.length := by
  have htake := congrArg (List.take before.length) h.numbered
  rw [map_append, take_left' (List.length_map _)] at htake
  rw [htake, length_append, ← List.range'_append_1, take_left' List.length_range']

/-- A manager that can read the log goes on after its last number. -/
theorem openFile_eq {file : Str} (hread : WalManager.readAll file = pure records)
    (hnum : records.map (fun r => r.lsn.toNat) = List.range' 1 records.length)
    (hlt : records.length + 1 < 2 ^ 64) :
    WalManager.openFile file = .ok ⟨file, UInt64.ofNat (records.length + 1)⟩ := by
  have hlsn : (records.getLast?.elim 1 fun r => r.lsn + 1) = UInt64.ofNat (records.length + 1) := by
    rcases List.eq_nil_or_concat records with rfl | ⟨before, last, rfl⟩
    · rfl
    · have hlast : last.lsn.toNat = before.length + 1 := by
        rw [List.map_concat, List.length_concat, List.range'_concat, List.concat_eq_append] at hnum
        have := List.append_inj_right' hnum rfl
        rw [Nat.one_mul] at this
        have := List.singleton_inj.mp this
        omega
      rw [List.length_concat] at hlt ⊢
      rw [List.concat_eq_append, List.getLast?_concat, Option.elim_some]
      apply UInt64.toNat.inj
      rw [UInt64.toNat_add, hlast, UInt64.toNat_ofNat_of_lt' hlt]
      exact Nat.mod_eq_of_lt hlt
  rw [WalManager.openFile, hread]
  exact congrArg (fun lsn => Except.ok (WalManager.mk file lsn)) hlsn

/-- A new manager on the file of a sound log is as good as the one before it. -/
theorem reopen (h : LogOf records m) : WalManager.openFile m.file = .ok m := by
  have hlt : records.length + 1 < 2 ^ 64 := by
    rw [← h.nextLsn_eq]
    exact m.nextLsn.toNat_lt
  rw [openFile_eq h.readAll h.numbered hlt, ← h.nextLsn_eq, UInt64.ofNat_toNat]

/-- What a cut with fewer than four torn bytes leaves for a new manager. -/
theorem openFile_cut (h : LogOf records m) (htorn : (torn WalRecord.frame records n).length < 4) :
    WalManager.openFile (m.file.take n)
      = .ok ⟨m.file.take n, UInt64.ofNat ((whole WalRecord.frame records n).length + 1)⟩ := by
  obtain ⟨rest, hrecords⟩ := exists_append_whole WalRecord.frame records n
  have hread := WalManager.readAll_cut h.appended n
  rw [if_pos htorn, ← h.file_eq] at hread
  rw [hrecords] at h
  refine openFile_eq hread h.numbered_left ?_
  have hnext := h.nextLsn_eq
  have hlt := m.nextLsn.toNat_lt
  rw [length_append] at hnext
  omega

/-- A cut between two records leaves a sound log. -/
theorem cut (h : LogOf records m) (htorn : torn WalRecord.frame records n = []) :
    LogOf (whole WalRecord.frame records n)
      ⟨m.file.take n, UInt64.ofNat ((whole WalRecord.frame records n).length + 1)⟩ := by
  have hfile : m.file.take n = (whole WalRecord.frame records n).flatMap WalRecord.frame := by
    rw [h.file_eq, take_flatMap, htorn, append_nil]
  obtain ⟨rest, hrecords⟩ := exists_append_whole WalRecord.frame records n
  generalize whole WalRecord.frame records n = before at hrecords hfile ⊢
  subst hrecords
  have hnext := h.nextLsn_eq
  have hlt := m.nextLsn.toNat_lt
  rw [length_append] at hnext
  refine ⟨hfile, ?_, h.numbered_left, UInt64.toNat_ofNat_of_lt' (show _ < 2 ^ 64 by omega)⟩
  intro r hr
  exact h.appended r (List.mem_append_left _ hr)

/-- Appending to a sound log. -/
theorem appends {mc : WalManager} {appended : List (WalCall × Lsn)} (h : LogOf records mc)
    (hrun : Run WalCall.exec mc appended m') :
    LogOf (records ++ appended.map fun p => p.1.record p.2) m' := by
  induction hrun with
  | nil => rwa [List.map_nil, append_nil]
  | snoc hrun hexec ih =>
    rw [map_append, ← append_assoc]
    exact ih.append hexec

end LogOf

/-! ### Runs -/

namespace WalSystem

open WalManager (appended_whole openFile readAll readAll_flatMap readAll_torn readRecords)

/-- The records a history appends, under the numbers that its calls returned. -/
def logged (history : List (WalStep × Option Lsn)) : List WalRecord :=
  history.filterMap fun
    | (.call c, some lsn) => some (c.record lsn)
    | _ => none

/-- A history leaves a sound log of what it appended. -/
theorem logOf_of_run {m₀ m : WalManager} {history : List (WalStep × Option Lsn)}
    (hopen : openFile [] = .ok m₀) (hrun : Run WalStep.exec m₀ history m) :
    LogOf (logged history) m := by
  have hnew : m₀ = ⟨[], 1⟩ := (Except.ok.inj (hopen.symm.trans LogOf.empty.reopen))
  subst hnew
  induction hrun with
  | nil => exact LogOf.empty
  | @snoc history s s' step r hrun hexec ih =>
    rw [logged, List.filterMap_append]
    cases step with
    | call c =>
      cases hc : c.exec s with
      | error f =>
        rw [WalStep.exec, hc] at hexec
        cases hexec
      | ok p =>
        rw [WalStep.exec, hc] at hexec
        obtain ⟨rfl, rfl⟩ := Prod.mk.inj (Except.ok.inj hexec)
        exact ih.append hc
    | reopen =>
      rw [WalStep.exec, ih.reopen] at hexec
      obtain ⟨rfl, rfl⟩ := Prod.mk.inj (Except.ok.inj hexec)
      rw [List.filterMap_cons_none rfl, List.filterMap_nil, append_nil]
      exact ih

theorem openFile_nil : openFile [] = .ok ⟨[], 1⟩ := rfl

theorem run_nil : Run WalStep.exec ⟨[], 1⟩ [] ⟨[], 1⟩ := .nil

/-- **The log is read back**: whatever was appended to a log file, by any managers one after the other,
`ReadAll` returns it in order, with the numbers that the calls returned, and these increase. -/
theorem log_read_back {m₀ m : WalManager} {history : List (WalStep × Option Lsn)}
    (hopen : openFile [] = .ok m₀) (hrun : Run WalStep.exec m₀ history m) :
    readAll m.file = pure (logged history) ∧
      (logged history).Pairwise fun a b => a.lsn < b.lsn :=
  have hlog := logOf_of_run hopen hrun
  ⟨hlog.readAll, hlog.pairwise⟩

/-- Two managers one after the other: an update and its commit, then a checkpoint. -/
theorem log_read_back_reopened :
    ∃ m₀ history m, openFile [] = .ok m₀ ∧ Run WalStep.exec m₀ history m ∧
      history = [(.call (.appendUpdate 1 1 .blank .blank), some 1), (.call (.appendCommit 1), some 2),
        (.reopen, none), (.call .appendCheckpoint, some 3)] ∧
      readAll m.file = pure [(WalCall.appendUpdate 1 1 .blank .blank).record 1,
        (WalCall.appendCommit 1).record 2, WalCall.appendCheckpoint.record 3] := by
  have h₁ := run_nil.snoc (o := .call (.appendUpdate 1 1 .blank .blank)) (r := some 1) rfl
  have h₂ := h₁.snoc (o := .call (.appendCommit 1)) (r := some 2) rfl
  have h₃ := h₂.snoc (o := .reopen) (r := none) (by
    rw [WalStep.exec, (logOf_of_run openFile_nil h₂).reopen]
    rfl)
  have h₄ := h₃.snoc (o := .call .appendCheckpoint) (r := some 3) rfl
  exact ⟨_, _, _, openFile_nil, h₄, rfl, (log_read_back openFile_nil h₄).1⟩

/-! ### Appending to a cut log -/

/-- The torn bytes of a length and the first bytes of the next record are taken for a length, and it
is larger than all that follows. -/
theorem readAll_misread {r : WalRecord} (h : r.Appended) (h0 : 0 < k) (h4 : k < 4) (lsn : Lsn)
    (txnId : TxnId) :
    readAll (r.frame.take k ++ ((WalCall.appendCommit txnId).record lsn).frame)
      = throw ⟨.corruption, lit "WAL: truncated record (possible mid-write crash)"⟩ := by
  -- both records have a length with the low byte `0x15`
  obtain ⟨b, hb, hframe⟩ : ∃ b, (b = 0 ∨ b = 0x20) ∧ r.frame.take k = [0x15, b, 0, 0].take k := by
    have hk : r.frame.take k = (FixedSize.toBytes (UInt32.ofNat r.serialize.length)).take k := by
      rw [WalRecord.frame, List.take_append_of_le_length]
      rw [FixedSize.length_toBytes]
      exact Nat.le_of_lt h4
    rcases h.length_serialize with hlen | hlen
    · exact ⟨0, .inl rfl, by rw [hk, hlen]; rfl⟩
    · exact ⟨0x20, .inr rfl, by rw [hk, hlen]; rfl⟩
  set commit := (WalCall.appendCommit txnId).record lsn with hcommit
  have hserialize : commit.serialize.length = 21 := rfl
  have hbytes : commit.frame = [0x15, 0, 0, 0] ++ commit.serialize := by
    rw [WalRecord.frame, hserialize]
    rfl
  have hlength : (r.frame.take k ++ commit.frame).length = k + 25 := by
    rw [hframe, length_append, hbytes, length_append, hserialize, length_take]
    simp only [List.length_cons, List.length_nil]
    omega
  have hlarge : 24 < (FixedSize.ofBytes ((r.frame.take k ++ commit.frame).take 4) : UInt32).toNat := by
    have hfour : (r.frame.take k ++ commit.frame).take 4
        = ([0x15, b, 0, 0].take k ++ [0x15, 0, 0, 0]).take 4 := by
      rw [hframe, hbytes, ← append_assoc, List.take_append_of_le_length]
      rw [length_append]
      exact Nat.le_add_left 4 _
    rw [hfour]
    obtain rfl | rfl | rfl : k = 1 ∨ k = 2 ∨ k = 3 := by omega
    all_goals rcases hb with rfl | rfl <;> decide
  rw [readAll, readRecords, if_neg (by omega)]
  rw [if_pos (by rw [length_drop]; omega)]
  rfl

/-- **Appending to a cut log** works if and only if the cut is between two records: then `ReadAll` returns
the records before the cut and those appended to it.  Otherwise some appended records are lost, also behind
one to three torn bytes, which `ReadAll` passes over as long as nothing is appended (`readAll_cut`). -/
theorem appends_after_cut_iff {m₀ m : WalManager} {history : List (WalStep × Option Lsn)}
    (hopen : openFile [] = .ok m₀) (hrun : Run WalStep.exec m₀ history m) (n : Nat) :
    (∃ mc, openFile (m.file.take n) = .ok mc ∧
      ∀ appended m', Run WalCall.exec mc appended m' →
        ∃ records, readAll m'.file = pure records ∧
          records = whole WalRecord.frame (logged history) n
            ++ appended.map (fun p => p.1.record p.2) ∧
          records.Pairwise fun a b => a.lsn < b.lsn) ↔
      torn WalRecord.frame (logged history) n = [] := by
  have hlog := logOf_of_run hopen hrun
  constructor
  · rintro ⟨mc, hmc, hall⟩
    rcases torn_cases WalRecord.frame (logged history) n with
      ⟨rest, -, htorn⟩ | ⟨a, rest, k, hrecords, h0, hk, htorn⟩
    · exact htorn
    exfalso
    have ha : a.Appended := hlog.appended a (by rw [hrecords]; simp)
    have hcutfile : m.file.take n = (whole WalRecord.frame (logged history) n).flatMap WalRecord.frame
        ++ a.frame.take k := by
      rw [hlog.file_eq, take_flatMap, htorn]
    have hwhole := appended_whole hlog.appended n
    have hfile := LogOf.file_openFile hmc
    by_cases h4 : k < 4
    · -- the length of the torn record is incomplete: the next record is read from the wrong place on
      have hshort : (torn WalRecord.frame (logged history) n).length < 4 := by
        rw [htorn, List.length_take]
        omega
      have hmc' := Except.ok.inj (hmc.symm.trans (hlog.openFile_cut hshort))
      have hne : mc.nextLsn ≠ 0xFFFFFFFFFFFFFFFF := by
        -- the number of the torn record is free again
        have hnext := hlog.nextLsn_eq
        have hlt := m.nextLsn.toNat_lt
        rw [hrecords, List.length_append, List.length_cons] at hnext
        intro hlast
        have hval : mc.nextLsn.toNat = (whole WalRecord.frame (logged history) n).length + 1 := by
          rw [hmc']
          exact UInt64.toNat_ofNat_of_lt' (show _ < 2 ^ 64 by omega)
        rw [hlast] at hval
        have : (0xFFFFFFFFFFFFFFFF : UInt64).toNat = 2 ^ 64 - 1 := rfl
        omega
      have hexec := (WalCall.appendCommit 1).exec_eq mc
      rw [if_neg hne] at hexec
      obtain ⟨records, hread, -⟩ := hall _ _ (Run.nil.snoc hexec)
      rw [hfile, hcutfile, List.append_assoc, readAll_flatMap hwhole,
        readAll_misread ha h0 h4] at hread
      cases hread
    · -- the length is there: the log is not even read back as it is
      obtain ⟨records, hread, -⟩ := hall [] mc .nil
      rw [hfile, hcutfile, readAll_flatMap hwhole,
        readAll_torn ha (Nat.not_lt.mp h4) hk] at hread
      cases hread
  · intro htorn
    have hcut := hlog.cut htorn
    have hshort : (torn WalRecord.frame (logged history) n).length < 4 := by
      rw [htorn]
      decide
    refine ⟨_, hlog.openFile_cut hshort, fun appended m' hrun' => ?_⟩
    have hlog' := hcut.appends hrun'
    exact ⟨_, hlog'.readAll, rfl, hlog'.pairwise⟩

/-- A log of two commits, cut behind the first: the second can be appended again. -/
theorem appends_after_cut_iff_betweenCommits :
    ∃ m₀ history m, openFile [] = .ok m₀ ∧ Run WalStep.exec m₀ history m ∧
      history = [(.call (.appendCommit 1), some 1), (.call (.appendCommit 2), some 2)] ∧
      ∃ mc, openFile (m.file.take 25) = .ok mc ∧
        ∀ appended m', Run WalCall.exec mc appended m' →
          ∃ records, readAll m'.file = pure records ∧
            records = [(WalCall.appendCommit 1).record 1]
              ++ appended.map (fun p => p.1.record p.2) ∧
            records.Pairwise fun a b => a.lsn < b.lsn := by
  have h₁ := run_nil.snoc (o := .call (.appendCommit 1)) (r := some 1) rfl
  have h₂ := h₁.snoc (o := .call (.appendCommit 2)) (r := some 2) rfl
  exact ⟨_, _, _, openFile_nil, h₂, rfl, (appends_after_cut_iff openFile_nil h₂ 25).mpr rfl⟩

/-- A crash leaves two bytes of the first commit.  The next manager appends another commit behind them,
and then the log cannot be read any more. -/
theorem commit_after_torn_tail_unreadable :
    ∃ m₀ m mc m', openFile [] = .ok m₀ ∧
      Run WalStep.exec m₀ [(.call (.appendCommit 1), some 1)] m ∧
      whole WalRecord.frame (logged [(.call (.appendCommit 1), some 1)]) 2 = [] ∧
      openFile (m.file.take 2) = .ok mc ∧
      Run WalCall.exec mc [(.appendCommit 2, 1)] m' ∧
      readAll m'.file
        = throw ⟨.corruption, lit "WAL: truncated record (possible mid-write crash)"⟩ := by
  have h₁ := run_nil.snoc (o := .call (.appendCommit 1)) (r := some 1) rfl
  exact ⟨_, _, ⟨[0x15, 0], 1⟩, _, openFile_nil, h₁, rfl, rfl, Run.nil.snoc rfl, rfl⟩

end WalSystem

end MiniDB
