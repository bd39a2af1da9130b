import Mathlib.Data.Nat.Bitwise
import MiniDB.Storage.Record

/-!
# Correctness of `RecordCodec`

`Encode` accepts exactly the rows that conform to the schema (`encode_ok_iff`), and `Decode` gives
them back (`decode_encode`).  Both go through `Encodes`, which says what the bytes of a record are:
the bits of the NULLs in the bitmap, and the other values one after the other behind it.
-/

namespace MiniDB.RecordCodec

open Bytes Paged Effect
open FixedSize (length_toBytes)
open List (append_assoc append_nil getElem?_eq_none length_append length_cons length_singleton)

/-! ### The bytes of a record -/

/-- The bytes of a non-NULL value. -/
def valueBytes : Value → Str
  | .null => []
  | .int32 v => FixedSize.toBytes v
  | .int64 v => FixedSize.toBytes v
  | .double v => FixedSize.toBytes v
  | .bool v => [if v then 1 else 0]
  | .string s => FixedSize.toBytes (UInt16.ofNat s.length) ++ s

/-- The bytes behind the bitmap. -/
def bodyBytes (vs : Row) : Str := vs.flatMap valueBytes

/-- The bit of column `i` is set. -/
def NullBitSet (bytes : Str) (i : Nat) : Prop := ∃ b, bytes[i / 8]? = some b ∧ b &&& nullBit i ≠ 0

/-- `bytes` is the record of the values `vs`, with a bitmap of `n` bytes. -/
structure Encodes (n : Nat) (vs : Row) (bytes : Str) : Prop where
  length_eq : bytes.length = n + (bodyBytes vs).length
  body_eq : bytes.drop n = bodyBytes vs
  bits : ∀ i, i / 8 < n → (NullBitSet bytes i ↔ vs[i]? = some .null)

/-! ### Bits -/

theorem and_nullBit_ne_zero (b : UInt8) (i : Nat) :
    b &&& nullBit i ≠ 0 ↔ b.toNat.testBit (i % 8) = true := by
  have hlt : 2 ^ (i % 8) < 256 := Nat.pow_lt_pow_right (by decide) (Nat.mod_lt i (by decide))
  have hbit : (nullBit i).toNat = 2 ^ (i % 8) := by
    rw [nullBit, Nat.one_shiftLeft, UInt8.toNat_ofNat', Nat.mod_eq_of_lt hlt]
  rw [← UInt8.toNat_inj.ne, UInt8.toNat_and, hbit, Nat.and_two_pow]
  cases b.toNat.testBit (i % 8) with
  | true => simp
  | false => simp

/-- Setting the bit of column `i` sets no other. -/
theorem or_nullBit_testBit (b : UInt8) (i j : Nat) :
    (b ||| nullBit i).toNat.testBit (j % 8) = (b.toNat.testBit (j % 8) || i % 8 == j % 8) := by
  have hlt : 2 ^ (i % 8) < 256 := Nat.pow_lt_pow_right (by decide) (Nat.mod_lt i (by decide))
  have hbit : (nullBit i).toNat = 2 ^ (i % 8) := by
    rw [nullBit, Nat.one_shiftLeft, UInt8.toNat_ofNat', Nat.mod_eq_of_lt hlt]
  rw [UInt8.toNat_or, hbit, Nat.testBit_or, Nat.testBit_two_pow]
  rfl

variable {bytes out out' bs : Str} {i n : Nat} {vs ws row : Row} {schema : Schema} {v : Value}
  {col : Column} {cols : List Column}

theorem nullBitSet_modify (hi : i / 8 < bytes.length) (j : Nat) :
    NullBitSet (bytes.modify (i / 8) (· ||| nullBit i)) j ↔ j = i ∨ NullBitSet bytes j := by
  unfold NullBitSet
  simp only [and_nullBit_ne_zero, List.getElem?_modify]
  by_cases hbyte : i / 8 = j / 8
  · obtain ⟨b, hb⟩ : ∃ b, bytes[j / 8]? = some b :=
      ⟨_, List.getElem?_eq_getElem (hbyte ▸ hi)⟩
    have hcol : i % 8 = j % 8 ↔ j = i := by omega
    simp only [hb, Option.map_eq_map, Option.map_some, if_pos hbyte, Option.some.injEq,
      exists_eq_left', or_nullBit_testBit, Bool.or_eq_true, beq_iff_eq, hcol]
    exact Or.comm
  · have hne : j ≠ i := by rintro rfl; exact hbyte rfl
    simp [hbyte, hne]

/-! ### Encoding -/

/-- The record so far, extended by the bytes of a non-NULL value. -/
theorem Encodes.append (h : Encodes n vs out) (hv : v ≠ .null) :
    Encodes n (vs ++ [v]) (out ++ valueBytes v) := by
  have hlen := h.length_eq
  have hbody : bodyBytes (vs ++ [v]) = bodyBytes vs ++ valueBytes v := by simp [bodyBytes]
  refine ⟨by rw [length_append, hbody, length_append, hlen]; omega, ?_, fun i hi => ?_⟩
  · rw [List.drop_append_of_le_length (by omega), h.body_eq, hbody]
  · have hbits := h.bits i hi
    rw [NullBitSet, List.getElem?_append_left (by omega), List.getElem?_append]
    rw [NullBitSet] at hbits
    rw [hbits]
    split_ifs with hmem
    · rfl
    · rw [getElem?_eq_none (Nat.le_of_not_lt hmem)]
      by_cases hlast : i - vs.length = 0
      · simp [hlast, hv]
      · rw [getElem?_eq_none (by rw [length_singleton]; omega)]

/-- The record so far, extended by a NULL. -/
theorem Encodes.appendNull (h : Encodes n vs out) (hlt : vs.length / 8 < n) :
    Encodes n (vs ++ [.null]) (out.modify (vs.length / 8) (· ||| nullBit vs.length)) := by
  have hlen := h.length_eq
  have hbody : bodyBytes (vs ++ [.null]) = bodyBytes vs := by simp [bodyBytes, valueBytes]
  refine ⟨by rw [List.length_modify, hbody, hlen], ?_, fun i hi => ?_⟩
  · rw [List.drop_modify_of_lt _ _ _ _ hlt, h.body_eq, hbody]
  · rw [nullBitSet_modify (by omega), h.bits i hi, List.getElem?_append]
    split_ifs with hmem
    · exact or_iff_right (Nat.ne_of_lt hmem)
    · rw [getElem?_eq_none (Nat.le_of_not_lt hmem)]
      by_cases hlast : i = vs.length
      · simp [hlast]
      · have hpos : 1 ≤ i - vs.length := by omega
        rw [getElem?_eq_none (by simpa using hpos)]
        simp [hlast]

/-- The loop body adds a conforming value to the record. -/
theorem encodeColumn_spec (h : Encodes n vs out) (hlt : vs.length / 8 < n) (hv : Conforms col v) :
    ∃ out', encodeColumn vs.length col v out = .ok out' ∧ Encodes n (vs ++ [v]) out' := by
  obtain ⟨htype, hnull, hlong⟩ := hv
  unfold encodeColumn
  rw [htype]
  cases v with
  | null => exact ⟨_, by rw [hnull rfl]; rfl, h.appendNull hlt⟩
  | string s =>
    have hle := hlong s rfl
    have hmax := col.maxLength.toNat_lt
    refine ⟨_, ?_, h.append (v := .string s) (by simp)⟩
    simp only [Bool.true_eq_false, if_false, if_neg (Nat.not_lt.mpr hle),
      if_neg (show ¬ s.length > 0xFFFF by omega), valueBytes, append_assoc]
    rfl
  | int32 x => exact ⟨_, rfl, h.append (v := .int32 x) (by simp)⟩
  | int64 x => exact ⟨_, rfl, h.append (v := .int64 x) (by simp)⟩
  | double x => exact ⟨_, rfl, h.append (v := .double x) (by simp)⟩
  | bool x => exact ⟨_, rfl, h.append (v := .bool x) (by simp)⟩

/-- The loop body accepts conforming values only. -/
theorem conforms_of_encodeColumn (h : encodeColumn i col v out = .ok out') : Conforms col v := by
  unfold encodeColumn at h
  cases htype : valueMatchesType v col.type with
  | false => simp [htype, throw, throwThe, MonadExceptOf.throw, bind, Except.bind] at h
  | true =>
    refine ⟨htype, ?_, ?_⟩
    · rintro rfl
      by_contra hnull
      simp [htype, Bool.not_eq_true _ ▸ hnull, throw, throwThe, MonadExceptOf.throw, bind,
        Except.bind] at h
    · rintro s rfl
      by_contra hlong
      simp [htype, Nat.not_le.mp hlong, throw, throwThe, MonadExceptOf.throw, bind,
        Except.bind] at h

/-- The loop of `Encode` over conforming values. -/
theorem encodeColumns_spec (hws : List.Forall₂ Conforms cols ws) (h : Encodes n vs out)
    (hlt : vs.length + cols.length ≤ 8 * n) :
    ∃ out', encodeColumns vs.length cols ws out = .ok out' ∧ Encodes n (vs ++ ws) out' := by
  induction hws generalizing vs out with
  | nil => exact ⟨out, rfl, by rwa [append_nil]⟩
  | @cons col v cols ws hv _ ih =>
    rw [length_cons] at hlt
    obtain ⟨out₁, henc, h₁⟩ := encodeColumn_spec h (by omega) hv
    obtain ⟨out₂, hrest, h₂⟩ := ih h₁ (by rw [length_append, length_singleton]; omega)
    rw [length_append, length_singleton] at hrest
    refine ⟨out₂, ?_, by rwa [append_assoc] at h₂⟩
    rw [encodeColumns, henc]
    exact hrest

theorem conforms_of_encodeColumns (hlen : ws.length = cols.length)
    (h : encodeColumns i cols ws out = .ok out') : List.Forall₂ Conforms cols ws := by
  induction cols generalizing ws i out with
  | nil =>
    obtain rfl := List.length_eq_zero_iff.mp hlen
    exact .nil
  | cons col cols ih =>
    cases ws with
    | nil => simp at hlen
    | cons v ws =>
      rw [encodeColumns] at h
      cases henc : encodeColumn i col v out with
      | error e => simp [henc, bind, Except.bind] at h
      | ok out₁ =>
        rw [henc] at h
        exact .cons (conforms_of_encodeColumn henc) (ih (by simpa using hlen) h)

/-- The bitmap has a bit for every column. -/
theorem le_nullBitmapBytes (columnCount : Nat) : columnCount ≤ 8 * nullBitmapBytes columnCount := by
  rw [nullBitmapBytes]
  omega

theorem encodes_nil (n : Nat) : Encodes n [] (List.replicate n 0) := by
  refine ⟨by simp [bodyBytes], by simp [bodyBytes], fun i hi => ?_⟩
  rw [NullBitSet, List.getElem?_replicate, if_pos hi]
  simp

/-- A conforming row is encoded. -/
theorem encode_spec (h : RowConforms schema row) :
    ∃ bs, encode schema row = .ok bs ∧ Encodes (nullBitmapBytes schema.columnCount) row bs := by
  obtain ⟨bs, henc, hbs⟩ := encodeColumns_spec h (encodes_nil (nullBitmapBytes schema.columnCount))
    ((Nat.zero_add _).trans_le (le_nullBitmapBytes schema.columnCount))
  refine ⟨bs, ?_, hbs⟩
  rw [encode, h.length_eq, if_neg (not_not.mpr rfl)]
  exact henc

/-- `Encode` accepts the rows that conform to the schema, and no others. -/
theorem encode_ok_iff :
    (∃ bs, encode schema row = .ok bs) ↔ RowConforms schema row := by
  constructor
  · rintro ⟨bs, h⟩
    rw [encode] at h
    by_cases hlen : row.length = schema.columnCount
    · rw [if_neg (not_not.mpr hlen)] at h
      exact conforms_of_encodeColumns hlen h
    · simp [hlen, throw, throwThe, MonadExceptOf.throw, bind, Except.bind] at h
  · intro h
    obtain ⟨bs, henc, -⟩ := encode_spec h
    exact ⟨bs, henc⟩

theorem length_of_encode (h : encode schema row = .ok bs) :
    bs.length = nullBitmapBytes schema.columnCount + (bodyBytes row).length := by
  obtain ⟨bs', henc, hbs'⟩ := encode_spec (encode_ok_iff.mp ⟨bs, h⟩)
  rw [h] at henc
  obtain rfl := Except.ok.inj henc
  exact hbs'.length_eq

/-! ### Decoding -/

/-- A conforming value is read back where its bytes stand. -/
theorem decodeValue_eq (hv : Conforms col v) (hnull : v ≠ .null) {rest : Str} {cursor : Nat}
    (hcur : cursor ≤ bytes.length) (h : bytes.drop cursor = valueBytes v ++ rest) :
    decodeValue col.type bytes cursor = pure (v, cursor + (valueBytes v).length) := by
  obtain ⟨htype, -, hlong⟩ := hv
  cases v with
  | null => exact absurd rfl hnull
  | int32 x =>
    obtain hc : col.type = .int := by revert htype; cases col.type <;> simp [valueMatchesType]
    rw [hc, decodeValue, Reader.fixed_eq hcur h, valueBytes, length_toBytes]
    rfl
  | int64 x =>
    obtain hc : col.type = .bigInt := by revert htype; cases col.type <;> simp [valueMatchesType]
    rw [hc, decodeValue, Reader.fixed_eq hcur h, valueBytes, length_toBytes]
    rfl
  | double x =>
    obtain hc : col.type = .double := by revert htype; cases col.type <;> simp [valueMatchesType]
    rw [hc, decodeValue, Reader.fixed_eq hcur h, valueBytes, length_toBytes]
    rfl
  | bool x =>
    obtain hc : col.type = .bool := by revert htype; cases col.type <;> simp [valueMatchesType]
    rw [hc, decodeValue, Reader.fixed_eq (v := (if x then 1 else 0 : UInt8)) hcur h]
    cases x <;> rfl
  | string s =>
    obtain hc : col.type = .varchar := by revert htype; cases col.type <;> simp [valueMatchesType]
    have hle := hlong s rfl
    have hmax := col.maxLength.toNat_lt
    have hnat : (UInt16.ofNat s.length).toNat = s.length := by
      rw [UInt16.toNat_ofNat', Nat.mod_eq_of_lt]
      omega
    rw [valueBytes, append_assoc] at h
    have hsize : FixedSize.size UInt16 = 2 := rfl
    have hrest : bytes.drop (cursor + FixedSize.size UInt16) = s ++ rest := by
      rw [← List.drop_drop, h, List.drop_left' (length_toBytes _)]
    have hfit : cursor + FixedSize.size UInt16 ≤ bytes.length := by
      have hlen := congrArg List.length h
      rw [List.length_drop, length_append, length_toBytes, length_append] at hlen
      omega
    rw [hc, decodeValue, Reader.fixed_eq hcur h]
    simp only [pure_bind]
    rw [Reader.bytes_eq hfit hrest hnat.symm, pure_bind, hnat, valueBytes, length_append,
      length_toBytes, Nat.add_assoc]

/-- The loop of `Decode` reads the values that are left. -/
theorem decodeColumns_eq (hws : List.Forall₂ Conforms cols ws) :
    ∀ done : Row, Encodes n (done ++ ws) bytes → done.length + cols.length ≤ 8 * n →
      decodeColumns bytes done.length cols (n + (bodyBytes done).length) = pure ws := by
  induction hws with
  | nil => intro done _ _; rfl
  | @cons col v cols ws hv _ ih =>
    intro done h hlt
    rw [length_cons] at hlt
    have hlen := h.length_eq
    have hi : done.length / 8 < n := by omega
    obtain ⟨b, hb⟩ : ∃ b, bytes[done.length / 8]? = some b :=
      ⟨_, List.getElem?_eq_getElem (by omega)⟩
    have hbit : b &&& nullBit done.length ≠ 0 ↔ v = .null := by
      have := h.bits done.length hi
      rw [NullBitSet, hb, List.getElem?_append_right le_rfl, Nat.sub_self] at this
      simpa using this
    have hnext := ih (done ++ [v]) (by rwa [append_assoc])
      (by rw [length_append, length_singleton]; omega)
    rw [length_append, length_singleton] at hnext
    have hbody : bodyBytes (done ++ [v]) = bodyBytes done ++ valueBytes v := by simp [bodyBytes]
    rw [hbody, length_append, ← Nat.add_assoc] at hnext
    rw [decodeColumns, hb, Checked.access_some, pure_bind]
    by_cases hnull : v = .null
    · subst hnull
      rw [if_pos (hbit.mpr rfl)]
      exact congrArg (· >>= _) hnext
    · have hall : bodyBytes (done ++ v :: ws) = bodyBytes done ++ (valueBytes v ++ bodyBytes ws) := by
        simp [bodyBytes]
      have hdrop : bytes.drop (n + (bodyBytes done).length) = valueBytes v ++ bodyBytes ws := by
        rw [← List.drop_drop, h.body_eq, hall, List.drop_left' rfl]
      have hcur : n + (bodyBytes done).length ≤ bytes.length := by
        rw [hlen, hall, length_append]
        omega
      rw [if_neg (fun h => hnull (hbit.mp h)), decodeValue_eq hv hnull hcur hdrop, pure_bind]
      exact congrArg (· >>= _) hnext

/-- `Decode` gives back the row that was encoded. -/
theorem decode_encode (h : encode schema row = .ok bs) :
    decode schema bs = pure row := by
  have hrow := encode_ok_iff.mp ⟨bs, h⟩
  obtain ⟨bs', h', hbs⟩ := encode_spec hrow
  rw [h] at h'
  obtain rfl := Except.ok.inj h'
  have hlen := hbs.length_eq
  rw [decode, if_neg (by omega)]
  exact decodeColumns_eq hrow [] hbs
    ((Nat.zero_add _).trans_le (le_nullBitmapBytes schema.columnCount))

/-! ### Decoding any bytes -/

/-- The type of a value that is not NULL. -/
def typeOf : Value → Option ColumnType
  | .null => none
  | .int32 _ => some .int
  | .int64 _ => some .bigInt
  | .double _ => some .double
  | .bool _ => some .bool
  | .string _ => some .varchar

/-- A value as it may be read for a column. -/
def ReadFor (col : Column) (v : Value) : Prop := v = .null ∨ typeOf v = some col.type

/-- A value of fixed size is missing, or it is read and nothing behind it. -/
theorem decodeFixed_cases {α : Type} [FixedSize α] {type : ColumnType} {part : String}
    (ctor : α → Value)
    (hdec : ∀ bytes cursor, decodeValue type bytes cursor
      = Reader.fixed α (truncated part) bytes cursor >>= fun p => pure (ctor p.1, p.2))
    (htype : ∀ x, typeOf (ctor x) = some type)
    (hsize : ∀ x, (valueBytes (ctor x)).length = FixedSize.size α) (bytes : Str) (cursor : Nat) :
    (∃ part, decodeValue type bytes cursor = throw (truncated part)) ∨
      ∃ v, typeOf v = some type ∧ cursor + (valueBytes v).length ≤ bytes.length ∧
        ∀ rest, decodeValue type (bytes ++ rest) cursor
          = pure (v, cursor + (valueBytes v).length) := by
  rcases Reader.fixed_cases α (truncated part) bytes cursor with hmissing | ⟨x, hle, hread⟩
  · left
    refine ⟨part, ?_⟩
    rw [hdec, hmissing, Checked.throw_bind]
  · right
    refine ⟨ctor x, htype x, by rw [hsize]; exact hle, fun rest => ?_⟩
    rw [hdec, hread rest, pure_bind, hsize]

/-- A value is missing, or it is read and nothing behind it. -/
theorem decodeValue_cases (type : ColumnType) (bytes : Str) (cursor : Nat) :
    (∃ part, decodeValue type bytes cursor = throw (truncated part)) ∨
      ∃ v, typeOf v = some type ∧ cursor + (valueBytes v).length ≤ bytes.length ∧
        ∀ rest, decodeValue type (bytes ++ rest) cursor
          = pure (v, cursor + (valueBytes v).length) := by
  cases type with
  | int =>
    exact decodeFixed_cases .int32 (fun _ _ => rfl) (fun _ => rfl)
      (fun x => length_toBytes x) bytes cursor
  | bigInt =>
    exact decodeFixed_cases .int64 (fun _ _ => rfl) (fun _ => rfl)
      (fun x => length_toBytes x) bytes cursor
  | double =>
    exact decodeFixed_cases .double (fun _ _ => rfl) (fun _ => rfl)
      (fun x => length_toBytes x) bytes cursor
  | bool =>
    exact decodeFixed_cases (fun x : UInt8 => .bool (x != 0)) (fun _ _ => rfl)
      (fun _ => rfl) (fun _ => rfl) bytes cursor
  | varchar =>
    rcases Reader.fixed_cases UInt16 (truncated "VARCHAR length") bytes cursor with
      hmissing | ⟨len, hlen, hread⟩
    · exact .inl ⟨_, by rw [decodeValue, hmissing, Checked.throw_bind]⟩
    · have hfirst : ∀ rest, decodeValue .varchar (bytes ++ rest) cursor
          = Reader.bytes len.toNat (truncated "VARCHAR payload") (bytes ++ rest)
              (cursor + FixedSize.size UInt16) >>= fun p => pure (.string p.1, p.2) := by
        intro rest
        rw [decodeValue, hread rest, pure_bind]
      rcases Reader.bytes_cases len.toNat (truncated "VARCHAR payload") bytes
        (cursor + FixedSize.size UInt16) with hmissing | ⟨s, hs, hle, hbytes⟩
      · refine .inl ⟨"VARCHAR payload", ?_⟩
        have := hfirst []
        rwa [append_nil, hmissing, Checked.throw_bind] at this
      · -- the length and then as many bytes
        have hend : cursor + (valueBytes (.string s)).length
            = cursor + FixedSize.size UInt16 + len.toNat := by
          rw [valueBytes, length_append, length_toBytes, hs]
          omega
        refine .inr ⟨.string s, rfl, by rw [hend]; exact hle, fun rest => ?_⟩
        rw [hfirst, hbytes rest, pure_bind, hend]

/-- The loop of `Decode` misses a value, or reads one for each column and nothing behind them. -/
theorem decodeColumns_cases (bytes : Str) (cols : List Column) :
    ∀ i cursor, i + cols.length ≤ 8 * bytes.length → cursor ≤ bytes.length →
      (∃ part, decodeColumns bytes i cols cursor = throw (truncated part)) ∨
        ∃ row, List.Forall₂ ReadFor cols row ∧ cursor + (bodyBytes row).length ≤ bytes.length ∧
          ∀ rest, decodeColumns (bytes ++ rest) i cols cursor = pure row := by
  induction cols with
  | nil => exact fun i cursor _ hcur => .inr ⟨[], .nil, hcur, fun _ => rfl⟩
  | cons col cols ih =>
    intro i cursor hlen hcur
    rw [length_cons] at hlen
    have hi : i / 8 < bytes.length := by omega
    -- the bit of the column is read inside the bitmap
    have hbit : ∀ rest : Str, (bytes ++ rest)[i / 8]? = some bytes[i / 8] := fun rest => by
      rw [List.getElem?_append_left hi, List.getElem?_eq_getElem hi]
    have hbit' : bytes[i / 8]? = some bytes[i / 8] := List.getElem?_eq_getElem hi
    have hunfold : ∀ rest, decodeColumns (bytes ++ rest) i (col :: cols) cursor
        = if bytes[i / 8] &&& nullBit i ≠ 0 then
            decodeColumns (bytes ++ rest) (i + 1) cols cursor >>= fun row => pure (.null :: row)
          else decodeValue col.type (bytes ++ rest) cursor >>= fun p =>
            decodeColumns (bytes ++ rest) (i + 1) cols p.2 >>= fun row => pure (p.1 :: row) := by
      intro rest
      rw [decodeColumns, hbit, Checked.access_some, pure_bind]
    have hunfold' := hunfold []
    rw [append_nil] at hunfold'
    by_cases hnull : bytes[i / 8] &&& nullBit i ≠ 0
    · rw [if_pos hnull] at hunfold'
      rcases ih (i + 1) cursor (by omega) hcur with ⟨part, hmissing⟩ | ⟨row, htyped, hle, hread⟩
      · exact .inl ⟨part, by rw [hunfold', hmissing, Checked.throw_bind]⟩
      · refine .inr ⟨.null :: row, .cons (.inl rfl) htyped, hle, fun rest => ?_⟩
        rw [hunfold, if_pos hnull, hread rest, pure_bind]
    · rw [if_neg hnull] at hunfold'
      rcases decodeValue_cases col.type bytes cursor with
        ⟨part, hmissing⟩ | ⟨v, htype, hfit, hvalue⟩
      · exact .inl ⟨part, by rw [hunfold', hmissing, Checked.throw_bind]⟩
      · have hhere := hvalue []
        rw [append_nil] at hhere
        rw [hhere, pure_bind] at hunfold'
        rcases ih (i + 1) _ (by omega) hfit with ⟨part, hmissing⟩ | ⟨row, htyped, hle, hread⟩
        · exact .inl ⟨part, by rw [hunfold', hmissing, Checked.throw_bind]⟩
        · have hbody : bodyBytes (v :: row) = valueBytes v ++ bodyBytes row := List.flatMap_cons ..
          refine .inr ⟨v :: row, .cons (.inr htype) htyped, ?_, fun rest => ?_⟩
          · rw [hbody, length_append]
            omega
          · rw [hunfold, if_neg hnull, hvalue rest, pure_bind, hread rest, pure_bind]

/-- `Decode` reports corruption, or reads a value for each column and nothing behind them. -/
theorem decode_cases (schema : Schema) (bytes : Str) :
    (∃ message, decode schema bytes = throw ⟨.corruption, message⟩) ∨
      ∃ row, List.Forall₂ ReadFor schema.columns row ∧
        nullBitmapBytes schema.columnCount + (bodyBytes row).length ≤ bytes.length ∧
        ∀ rest, decode schema (bytes ++ rest) = pure row := by
  by_cases hshort : bytes.length < nullBitmapBytes schema.columnCount
  · left
    rw [decode, if_pos hshort]
    exact ⟨_, rfl⟩
  · have hle := le_nullBitmapBytes schema.columnCount
    rcases decodeColumns_cases bytes schema.columns 0 (nullBitmapBytes schema.columnCount)
      (by rw [Schema.columnCount] at hle hshort; omega) (by omega) with
      ⟨part, hmissing⟩ | ⟨row, htyped, hlen, hread⟩
    · left
      rw [decode, if_neg hshort, hmissing]
      exact ⟨_, rfl⟩
    · refine .inr ⟨row, htyped, hlen, fun rest => ?_⟩
      rw [decode, if_neg (by rw [length_append]; omega)]
      exact hread rest

/-- `Decode` reads inside its buffer, whatever the bytes are, and gives a value for each column. -/
theorem decode_checked (schema : Schema) (bytes : Str) :
    ∃ r, decode schema bytes = Checked.ofResult r ∧
      ∀ row, r = .ok row → row.length = schema.columnCount := by
  rcases decode_cases schema bytes with ⟨message, hcorrupt⟩ | ⟨row, htyped, -, hread⟩
  · exact ⟨.error _, hcorrupt, fun row h => by cases h⟩
  · have hhere := hread []
    rw [append_nil] at hhere
    refine ⟨.ok row, hhere, fun row' h => ?_⟩
    obtain rfl := Except.ok.inj h
    exact htyped.length_eq.symm

/-- **Decoding is safe.**  Whatever the bytes are, `Decode` reads inside of them and reports
corruption or gives a value of its type, or NULL, for each column; and an encoded record that lost its
end is reported as corrupt. -/
theorem decode_safe (schema : Schema) :
    (∀ bytes, (∃ message, decode schema bytes = throw ⟨.corruption, message⟩) ∨
      ∃ row, decode schema bytes = pure row ∧ row.length = schema.columnCount ∧
        ∀ col v, (col, v) ∈ schema.columns.zip row → v = .null ∨ typeOf v = some col.type) ∧
    ∀ values b, encode schema values = .ok b → ∀ k < b.length,
      ∃ message, decode schema (b.take k) = throw ⟨.corruption, message⟩ := by
  constructor
  · intro bytes
    rcases decode_cases schema bytes with hcorrupt | ⟨row, htyped, -, hread⟩
    · exact .inl hcorrupt
    · refine .inr ⟨row, by simpa using hread [], htyped.length_eq.symm, ?_⟩
      exact fun col v hmem => List.forall₂_zip htyped hmem
  · intro values b henc k hk
    rcases decode_cases schema (b.take k) with hcorrupt | ⟨row, -, hlen, hread⟩
    · exact hcorrupt
    · -- a decoder that is content with the front part has read the whole record
      exfalso
      have hwhole := hread (b.drop k)
      rw [List.take_append_drop, decode_encode henc] at hwhole
      obtain rfl := Checked.pure_inj.mp hwhole
      have hb := length_of_encode henc
      rw [List.length_take] at hlen
      omega

/-- A row with columns is not encoded as nothing. -/
theorem encode_ne_nil (hne : schema.columns ≠ []) (h : encode schema row = .ok bs) : bs ≠ [] := by
  obtain ⟨bs', h', hbs⟩ := encode_spec (encode_ok_iff.mp ⟨bs, h⟩)
  rw [h] at h'
  obtain rfl := Except.ok.inj h'
  rintro rfl
  have hlen := hbs.length_eq
  have hpos := List.length_pos_iff.mpr hne
  rw [List.length_nil, nullBitmapBytes, Schema.columnCount] at hlen
  omega

theorem valueMatchesType_iff (v : Value) (type : ColumnType) :
    valueMatchesType v type = true ↔ ∀ type', typeOf v = some type' → type' = type := by
  cases v <;> cases type <;> simp [valueMatchesType, typeOf]

/-- **The codec is a round trip.**  What `Encode` accepts is read back as it was, and it accepts
exactly the lists with a value for each column, of the type of the column or NULL where this is
allowed, with strings that are not too long. -/
theorem codec_round_trip (schema : Schema) (values : Row) :
    (∀ b, encode schema values = .ok b → decode schema b = pure values) ∧
    ((∃ b, encode schema values = .ok b) ↔ values.length = schema.columnCount ∧
      ∀ col v, (col, v) ∈ schema.columns.zip values →
        (∀ type, typeOf v = some type → type = col.type) ∧ (v = .null → col.nullable = true) ∧
          ∀ s, v = .string s → s.length ≤ col.maxLength.toNat) := by
  refine ⟨fun b hb => decode_encode hb, ?_⟩
  rw [encode_ok_iff, RowConforms, List.forall₂_iff_zip, Schema.columnCount, eq_comm]
  refine and_congr_right fun _ => forall_congr' fun col => forall_congr' fun v => ?_
  rw [Conforms, valueMatchesType_iff]

end MiniDB.RecordCodec
