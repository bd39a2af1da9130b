import MiniDB.Recovery.Equiv.WalManager

/-!
# Reading any bytes as a log

`ReadAll` takes a file apart by the lengths it finds in it.  A record that reaches over the end of the
file is reported, and so is an update without room for its images; that a record has room for its
fixed part is not checked.  The string that it is read into has a terminator, so that a byte may be missing
from the fixed part.  The file is read safely unless it has, behind records that are taken apart, a whole
one shorter than that (`HasShortRecord`).
-/

namespace MiniDB

open Bytes Effect Paged

namespace WalRecord

/-- There is room for the fixed part of a record, with the terminator, and for the images of an update. -/
def HasRoom (buf : Str) : Prop :=
  kFixedSize ≤ buf.length + 1 ∧ (buf[8]? = some 1 → kFixedSize + 2 * kPageSize ≤ buf.length)

variable {buf : Str}

/-- A field inside the record is read. -/
theorem fixedAt?_of_le {α : Type} [FixedSize α] {off : Nat} (h : off + FixedSize.size α ≤ buf.length) :
    fixedAt? α buf off = some (FixedSize.ofBytes (slice off (FixedSize.size α) buf)) := if_pos h

theorem ofByte_eq_update_iff {byte : UInt8} : WalRecordType.ofByte byte = .update ↔ byte = 1 := by
  unfold WalRecordType.ofByte
  split_ifs <;> simp_all

/-- Without room for the fixed part there is a read outside of the record. -/
theorem deserialize_of_short (h : buf.length + 1 < kFixedSize) :
    deserialize buf = Checked.die .outOfBounds := by
  -- the last field of the fixed part is outside, if none of the ones before it is
  have hpage : fixedAt? PageId (buf ++ [0]) 17 = none :=
    if_neg (Nat.not_le.mpr (List.length_append.trans_lt h))
  unfold deserialize
  dsimp only
  rw [hpage]
  cases fixedAt? Lsn (buf ++ [0]) 0 <;> cases fixedAt? UInt8 (buf ++ [0]) 8 <;>
    cases fixedAt? TxnId (buf ++ [0]) 9 <;> rfl

/-- With room for the fixed part the record is read, or an update is found to be too short. -/
theorem deserialize_of_fixed (h : kFixedSize ≤ buf.length + 1) :
    (HasRoom buf ∧ ∃ r, deserialize buf = pure r) ∨
      ¬ HasRoom buf ∧ ∃ message, deserialize buf = throw ⟨.corruption, message⟩ := by
  have hlen : 20 ≤ buf.length := Nat.le_of_succ_le_succ h
  have hdata : (buf ++ [0]).length = buf.length + 1 := List.length_append
  have hbyte : buf[8]? = some buf[8] := List.getElem?_eq_getElem _
  have hdrop : (buf ++ [0]).drop 8 = FixedSize.toBytes buf[8] ++ (buf.drop 9 ++ [0]) := by
    rw [List.drop_append_of_le_length (by omega), List.drop_eq_getElem_cons]
    rfl
  have htype : fixedAt? UInt8 (buf ++ [0]) 8 = some buf[8] := fixedAt?_eq_some (by omega) hdrop
  unfold deserialize
  dsimp only
  rw [fixedAt?_of_le (show 0 + 8 ≤ (buf ++ [0]).length by omega), htype,
    fixedAt?_of_le (show 9 + 8 ≤ (buf ++ [0]).length by omega),
    fixedAt?_of_le (show 17 + 4 ≤ (buf ++ [0]).length by omega)]
  simp only [Checked.access_some, pure_bind, ofByte_eq_update_iff]
  by_cases hupdate : buf[8] = 1
  · rw [if_pos hupdate]
    by_cases hshort : buf.length < kFixedSize + 2 * kPageSize
    · rw [if_pos hshort]
      exact .inr ⟨fun hroom => absurd (hroom.2 (by rw [hbyte, hupdate])) (by omega), _, rfl⟩
    · rw [if_neg hshort]
      exact .inl ⟨⟨h, fun _ => by omega⟩, _, rfl⟩
  · rw [if_neg hupdate]
    refine .inl ⟨⟨h, fun hone => absurd ?_ hupdate⟩, _, rfl⟩
    rw [hbyte] at hone
    exact Option.some.inj hone

end WalRecord

namespace WalManager

open WalRecord

/-- `ReadAll` returns a list of records or `Corruption`. -/
def ReadSafely (file : Str) : Prop :=
  (∃ records, readAll file = pure records) ∨ ∃ message, readAll file = throw ⟨.corruption, message⟩

/-- Behind records with room for what is read from them the file has a whole one that does not have room
for its fixed part, even with the terminator. -/
def HasShortRecord (file : Str) : Prop :=
  ∃ (records : List Str) (buf rest : Str), (∀ b ∈ records, b.length < 2 ^ 32 ∧ HasRoom b) ∧
    buf.length + 1 < kFixedSize ∧ file = records.flatMap framed ++ (framed buf ++ rest)

variable {file rest : Str}

/-- One more record at the front makes no difference. -/
theorem readSafely_cons (r : WalRecord) :
    ((∃ records, (readAll file >>= fun records => pure (r :: records)) = pure records) ∨
      ∃ message, (readAll file >>= fun records => pure (r :: records))
        = throw ⟨.corruption, message⟩) ↔ ReadSafely file := by
  constructor
  · rintro (⟨records, h⟩ | ⟨message, h⟩)
    · obtain ⟨records, hread, -⟩ := Checked.bind_eq_pure.mp h
      exact .inl ⟨records, hread⟩
    · rcases Checked.bind_eq_ofResult_iff.mp (h.trans (Checked.ofResult_error _).symm) with
        ⟨e, hread, he⟩ | ⟨records, -, h⟩
      · cases he
        exact .inr ⟨message, hread⟩
      · cases h
  · rintro (⟨records, h⟩ | ⟨message, h⟩)
    · exact .inl ⟨r :: records, by rw [h, pure_bind]⟩
    · exact .inr ⟨message, by rw [h, Checked.throw_bind]⟩

/-- What stands behind a length is determined by it. -/
theorem framed_inj {buf' rest' : Str} (h : buf.length < 2 ^ 32) (h' : buf'.length < 2 ^ 32)
    (heq : framed buf ++ rest = framed buf' ++ rest') : buf = buf' ∧ rest = rest' := by
  have hlen : buf.length = buf'.length := by
    rw [← readLength h rest, heq, readLength h' rest']
  refine List.append_inj ?_ hlen
  rw [← drop_framed buf rest, heq, drop_framed]

theorem HasShortRecord.framed (h : HasShortRecord file) :
    ∃ buf rest, buf.length < 2 ^ 32 ∧ file = framed buf ++ rest := by
  obtain ⟨records, buf, rest, hroom, hshort, rfl⟩ := h
  cases records with
  | nil => exact ⟨buf, rest, (Nat.lt_of_succ_lt hshort).trans (by decide), rfl⟩
  | cons b records =>
    refine ⟨b, records.flatMap WalManager.framed ++ (WalManager.framed buf ++ rest),
      (hroom b List.mem_cons_self).1, ?_⟩
    rw [List.flatMap_cons, List.append_assoc]

/-- A short record is the first one or comes behind it. -/
theorem hasShortRecord_framed (h : buf.length < 2 ^ 32) :
    HasShortRecord (framed buf ++ rest) ↔
      buf.length + 1 < kFixedSize ∨ HasRoom buf ∧ HasShortRecord rest := by
  constructor
  · rintro ⟨records, short, behind, hroom, hshort, hfile⟩
    cases records with
    | nil =>
      obtain ⟨rfl, -⟩ := framed_inj h ((Nat.lt_of_succ_lt hshort).trans (by decide)) hfile
      exact .inl hshort
    | cons b records =>
      obtain ⟨hb, hbroom⟩ := hroom b List.mem_cons_self
      rw [List.flatMap_cons, List.append_assoc] at hfile
      obtain ⟨rfl, rfl⟩ := framed_inj h hb hfile
      exact .inr ⟨hbroom, records, short, behind, fun c hc => hroom c (List.mem_cons_of_mem _ hc),
        hshort, rfl⟩
  · rintro (hshort | ⟨hbroom, records, short, behind, hroom, hshort, rfl⟩)
    · exact ⟨[], buf, rest, nofun, hshort, rfl⟩
    · refine ⟨buf :: records, short, behind, ?_, hshort, ?_⟩
      · intro c hc
        rcases List.mem_cons.mp hc with rfl | hc
        · exact ⟨h, hbroom⟩
        · exact hroom c hc
      · rw [List.flatMap_cons, List.append_assoc]

/-- A file ends with less than a length, ends within a record, or starts with a whole one. -/
theorem file_cases (file : Str) :
    readAll file = pure [] ∧ ¬ HasShortRecord file ∨
      (readAll file = throw ⟨.corruption, lit "WAL: truncated record (possible mid-write crash)"⟩ ∧
        ¬ HasShortRecord file) ∨
      ∃ buf rest, buf.length < 2 ^ 32 ∧ file = framed buf ++ rest := by
  by_cases hframed : ∃ buf rest, buf.length < 2 ^ 32 ∧ file = framed buf ++ rest
  · exact .inr (.inr hframed)
  have hnot : ¬ HasShortRecord file := fun h => hframed h.framed
  by_cases hlen : file.length < 4
  · exact .inl ⟨readAll_of_short hlen, hnot⟩
  refine .inr (.inl ⟨?_, hnot⟩)
  have htorn : (file.drop 4).length < (FixedSize.ofBytes (file.take 4) : UInt32).toNat := by
    -- otherwise there would be a whole record behind the length
    by_contra hwhole
    have hlt := (FixedSize.ofBytes (file.take 4) : UInt32).toNat_lt
    generalize hlength : (FixedSize.ofBytes (file.take 4) : UInt32) = len at hwhole hlt
    have htake : ((file.drop 4).take len.toNat).length = len.toNat :=
      List.length_take_of_le (Nat.not_lt.mp hwhole)
    refine hframed ⟨(file.drop 4).take len.toNat, (file.drop 4).drop len.toNat, ?_, ?_⟩
    · rw [htake]
      exact hlt
    · rw [framed, htake, UInt32.ofNat_toNat, ← hlength, List.append_assoc, hlength,
        List.take_append_drop, ← hlength, toBytes_ofBytes_uint32 (by rw [List.length_take]; omega),
        List.take_append_drop]
  rw [readAll, readRecords, if_neg hlen]
  simp only [if_pos htorn]
  rfl

/-- **Reading any bytes.**  `ReadAll` returns, and reads nothing outside of a record, exactly if the
file has no whole record without room for its fixed part behind records with room for what is read
from them. -/
theorem readAll_safe_iff (file : Str) : ReadSafely file ↔ ¬ HasShortRecord file := by
  induction hn : file.length using Nat.strong_induction_on generalizing file with
  | _ n ih =>
    rcases file_cases file with ⟨hread, hnot⟩ | ⟨hread, hnot⟩ | ⟨buf, rest, hbuf, rfl⟩
    · exact iff_of_true (.inl ⟨_, hread⟩) hnot
    · exact iff_of_true (.inr ⟨_, hread⟩) hnot
    rw [ReadSafely, readAll_framed hbuf, hasShortRecord_framed hbuf]
    by_cases hshort : buf.length + 1 < kFixedSize
    · rw [deserialize_of_short hshort]
      refine iff_of_false ?_ (fun h => h (.inl hshort))
      rintro (⟨records, h⟩ | ⟨message, h⟩) <;> cases h
    rcases deserialize_of_fixed (Nat.not_lt.mp hshort) with ⟨hroom, r, hr⟩ | ⟨hroom, message, hr⟩
    · have hrest : ReadSafely rest ↔ ¬ HasShortRecord rest := by
        refine ih rest.length ?_ rest rfl
        rw [← hn, List.length_append, length_framed]
        omega
      rw [hr, pure_bind]
      refine Iff.trans ?_ (hrest.trans (not_congr ?_))
      · exact readSafely_cons r
      · rw [or_iff_right hshort, and_iff_right hroom]
    · rw [hr]
      exact iff_of_true (.inr ⟨message, rfl⟩) (fun h => h.elim hshort fun h => hroom h.1)

example : readAll (framed (List.replicate 20 9)) = pure [
    ⟨0x0909090909090909, .unnamed 9, 0x0909090909090909, 0x00090909, [], []⟩] := rfl

/-- A log of four bytes that are zero: reading starts outside of the empty record. -/
theorem empty_record_unsafe :
    readAll [0, 0, 0, 0] = Checked.die .outOfBounds ∧ ¬ ReadSafely [0, 0, 0, 0] := by
  have hread : readAll [0, 0, 0, 0] = Checked.die .outOfBounds := rfl
  refine ⟨hread, ?_⟩
  rw [ReadSafely, hread]
  rintro (⟨records, h⟩ | ⟨message, h⟩) <;> cases h

end WalManager

end MiniDB
