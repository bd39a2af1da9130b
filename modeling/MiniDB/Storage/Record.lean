import MiniDB.Common.Value
import MiniDB.Lib.Reader

/-!
# Record codec

`RecordCodec` turns a row into the bytes of a record and back: a bitmap with one bit for each NULL,
then the other values in column order, strings with a two-byte length.  `Decode` checks every length
before it reads; the reads themselves are accesses to the buffer, so that one outside of it would be
a fault of the model.
-/

namespace MiniDB.RecordCodec

open Bytes Paged Effect

/-- `NullBitmapBytes`. -/
def nullBitmapBytes (columnCount : Nat) : Nat := (columnCount + 7) / 8

/-- The bit of column `i` in its byte of the bitmap, `1 << (i % 8)`. -/
def nullBit (i : Nat) : UInt8 := UInt8.ofNat (1 <<< (i % 8))

/-- `InvalidArgument` from `Encode`, about a column. -/
def columnError (what : String) (col : Column) : Status :=
  ⟨.invalidArgument, lit "RecordCodec::Encode: " ++ lit what ++ lit " '" ++ col.name ++ lit "'"⟩

/-- The loop body of `Encode`: the value of column `i` added to the record. -/
def encodeColumn (i : Nat) (col : Column) (v : Value) (out : Str) : Result Str := do
  if valueMatchesType v col.type = false then
    throw (columnError "type mismatch for column" col)
  -- the type of a non-NULL value is the type of its column from here on
  match v with
  | .null =>
    if col.nullable = false then
      throw (columnError "NULL given for NOT NULL column" col)
    return out.modify (i / 8) (· ||| nullBit i)
  | .int32 iv => return out ++ FixedSize.toBytes iv
  | .int64 iv => return out ++ FixedSize.toBytes iv
  | .double dv => return out ++ FixedSize.toBytes dv
  | .bool bv => return out ++ [if bv then 1 else 0]
  | .string sv =>
    if sv.length > col.maxLength.toNat then
      throw (columnError "value too long for column" col)
    if sv.length > 0xFFFF then
      throw ⟨.invalidArgument, lit "RecordCodec::Encode: value exceeds 65535-byte codec limit"⟩
    return out ++ FixedSize.toBytes (UInt16.ofNat sv.length) ++ sv

/-- The loop of `Encode` from column `i` on. -/
def encodeColumns : Nat → List Column → Row → Str → Result Str
  | i, col :: cols, v :: vs, out => do
    let out ← encodeColumn i col v out
    encodeColumns (i + 1) cols vs out
  | _, _, _, out => return out

/-- `Encode`. -/
def encode (schema : Schema) (values : Row) : Result Str := do
  if values.length ≠ schema.columnCount then
    throw ⟨.invalidArgument, lit "RecordCodec::Encode: value count does not match schema"⟩
  let bitmap := List.replicate (nullBitmapBytes schema.columnCount) 0
  encodeColumns 0 schema.columns values bitmap

/-- `Corruption` from `Decode`, about a missing part. -/
def truncated (part : String) : Status :=
  ⟨.corruption, lit "RecordCodec::Decode: truncated " ++ lit part⟩

/-- The `switch` of `Decode`: a non-NULL value of the given type at the cursor, and the cursor behind
it. -/
def decodeValue (type : ColumnType) (bytes : Str) (cursor : Nat) : Fallible (Value × Nat) := do
  match type with
  | .int =>
    let (v, cursor) ← Reader.fixed Int32 (truncated "INT") bytes cursor
    return (.int32 v, cursor)
  | .bigInt =>
    let (v, cursor) ← Reader.fixed Int64 (truncated "BIGINT") bytes cursor
    return (.int64 v, cursor)
  | .double =>
    let (v, cursor) ← Reader.fixed Double (truncated "DOUBLE") bytes cursor
    return (.double v, cursor)
  | .bool =>
    let (v, cursor) ← Reader.fixed UInt8 (truncated "BOOLEAN") bytes cursor
    return (.bool (v != 0), cursor)
  | .varchar =>
    let (len, cursor) ← Reader.fixed UInt16 (truncated "VARCHAR length") bytes cursor
    let (v, cursor) ← Reader.bytes len.toNat (truncated "VARCHAR payload") bytes cursor
    return (.string v, cursor)

/-- The loop of `Decode` from column `i` on. -/
def decodeColumns (bytes : Str) : Nat → List Column → Nat → Fallible Row
  | _, [], _ => return []
  | i, col :: cols, cursor => do
    let byte ← Checked.access .outOfBounds bytes[i / 8]?
    if byte &&& nullBit i ≠ 0 then
      let rest ← decodeColumns bytes (i + 1) cols cursor
      return .null :: rest
    else
      let (v, cursor) ← decodeValue col.type bytes cursor
      let rest ← decodeColumns bytes (i + 1) cols cursor
      return v :: rest

/-- `Decode`. -/
def decode (schema : Schema) (bytes : Str) : Fallible Row := do
  if bytes.length < nullBitmapBytes schema.columnCount then
    throw ⟨.corruption, lit "RecordCodec::Decode: record shorter than null bitmap"⟩
  decodeColumns bytes 0 schema.columns (nullBitmapBytes schema.columnCount)

end MiniDB.RecordCodec
