import MiniDB.Catalog.Metadata

/-!
# Catalog metadata is read back as it was written

Lengths and the column count are cut to 16 bits when they are written.  That is harmless for the
entries that `CreateTable` and `CreateIndex` store: what does not fit 16 bits makes the encoding
longer than they allow.
-/

namespace MiniDB.Catalog

open Bytes Effect Reader

theorem toNat_ofNat_length {n : Nat} (h : n ≤ 0xFFFF) : (UInt16.ofNat n).toNat = n := by
  rw [UInt16.toNat_ofNat', Nat.mod_eq_of_lt]
  omega

theorem columnTypeOfCode?_columnTypeCode (type : ColumnType) :
    columnTypeOfCode? (columnTypeCode type) = some type := by
  cases type <;> rfl

theorem length_encodeString (s : Str) : (encodeString s).length = 2 + s.length := by
  rw [encodeString, List.length_append, FixedSize.length_toBytes]
  rfl

theorem readsBack_string (noLength noString : Status) {s : Str} (hs : s.length ≤ 0xFFFF) :
    ReadsBack (readString noLength noString) s (encodeString s) := by
  intro pre rest
  have hdata : pre ++ (encodeString s ++ rest)
      = pre ++ (FixedSize.toBytes (UInt16.ofNat s.length) ++ (s ++ rest)) := by
    rw [encodeString, List.append_assoc]
  generalize pre ++ (encodeString s ++ rest) = data at hdata ⊢
  refine (readsBack_fixed noLength (UInt16.ofNat s.length)).seq hdata fun hdata => ?_
  rw [List.append_assoc, ← List.append_assoc] at hdata
  rw [hdata]
  refine (readsBack_bytes noString (toNat_ofNat_length hs).symm _ rest).trans ?_
  rw [encodeString, List.append_assoc]

theorem length_encodeColumn (col : Column) : (encodeColumn col).length = col.name.length + 6 := by
  simp only [encodeColumn, List.length_append, length_encodeString, List.length_singleton,
    FixedSize.length_toBytes]
  show 2 + col.name.length + 1 + 1 + 2 = _
  omega

theorem encodeColumn_eq (col : Column) :
    encodeColumn col = encodeString col.name ++ (FixedSize.toBytes (columnTypeCode col.type)
      ++ (FixedSize.toBytes (if col.nullable then 1 else 0 : UInt8)
        ++ FixedSize.toBytes col.maxLength)) := by
  rw [encodeColumn, List.append_assoc, List.append_assoc]
  rfl

theorem readsBack_column {col : Column} (hname : col.name.length ≤ 0xFFFF) :
    ReadsBack readColumn col (encodeColumn col) := by
  intro pre rest
  have hdata : pre ++ (encodeColumn col ++ rest) = pre ++ (encodeString col.name
      ++ (FixedSize.toBytes (columnTypeCode col.type)
        ++ (FixedSize.toBytes (if col.nullable then 1 else 0 : UInt8)
          ++ (FixedSize.toBytes col.maxLength ++ rest)))) := by
    rw [encodeColumn_eq]
    simp only [List.append_assoc]
  generalize pre ++ (encodeColumn col ++ rest) = data at hdata ⊢
  refine (readsBack_string _ _ hname).seq hdata fun hdata => ?_
  refine (readsBack_fixed _ _).seq hdata fun hdata => ?_
  show Checked.access _ (columnTypeOfCode? (columnTypeCode col.type)) >>= _ = _
  rw [columnTypeOfCode?_columnTypeCode, Checked.access_some, pure_bind]
  refine (readsBack_fixed _ _).seq hdata fun hdata => ?_
  refine (readsBack_fixed _ _).seq hdata fun _ => ?_
  have hnullable : ((if col.nullable then 1 else 0 : UInt8) != 0) = col.nullable := by
    cases col.nullable <;> rfl
  show pure (Column.mk _ _ _ _, _) = pure (col, _)
  rw [hnullable, encodeColumn_eq]
  simp only [List.append_assoc]

/-- The columns are read back: none of their names is cut. -/
theorem readsBack_columns {cols : List Column}
    (hlen : (cols.flatMap encodeColumn).length ≤ 0xFFFF) :
    ReadsBack (readColumns cols.length) cols (cols.flatMap encodeColumn) := by
  induction cols with
  | nil =>
    intro pre rest
    rw [List.flatMap_nil, List.append_nil]
    rfl
  | cons col cols ih =>
    rw [List.flatMap_cons, List.length_append, length_encodeColumn] at hlen
    intro pre rest
    have hdata : pre ++ ((col :: cols).flatMap encodeColumn ++ rest)
        = pre ++ (encodeColumn col ++ (cols.flatMap encodeColumn ++ rest)) := by
      rw [List.flatMap_cons, List.append_assoc]
    generalize pre ++ ((col :: cols).flatMap encodeColumn ++ rest) = data at hdata ⊢
    refine (readsBack_column (by omega)).seq hdata fun hdata => ?_
    refine (ih (by omega)).seq hdata fun _ => ?_
    rw [List.flatMap_cons, List.append_assoc]

/-- The number of columns is not cut: every column takes some bytes. -/
theorem length_le_flatMap_encodeColumn (cols : List Column) :
    cols.length ≤ (cols.flatMap encodeColumn).length := by
  induction cols with
  | nil => exact Nat.le_refl 0
  | cons col cols ih =>
    rw [List.flatMap_cons, List.length_append, length_encodeColumn, List.length_cons]
    omega

theorem readsBack_tableMetadata {m : TableMetadata}
    (hlen : (encodeTableMetadata m).length ≤ 0xFFFF) :
    ReadsBack readTableMetadata { m with catalogRecordId := ⟨kInvalidPageId, 0⟩ }
      (encodeTableMetadata m) := by
  have hsizes : (encodeString m.tableName).length
      + (m.schema.columns.flatMap encodeColumn).length ≤ 0xFFFF := by
    simp only [encodeTableMetadata, List.length_append] at hlen
    omega
  rw [length_encodeString] at hsizes
  have hcount : (UInt16.ofNat m.schema.columnCount).toNat = m.schema.columns.length := by
    have := length_le_flatMap_encodeColumn m.schema.columns
    exact toNat_ofNat_length (by rw [Schema.columnCount]; omega)
  intro pre rest
  have hdata : pre ++ (encodeTableMetadata m ++ rest) = pre ++ (FixedSize.toBytes m.tableId
      ++ (encodeString m.tableName ++ (FixedSize.toBytes m.firstPageId
        ++ (FixedSize.toBytes (UInt16.ofNat m.schema.columnCount)
          ++ (m.schema.columns.flatMap encodeColumn ++ rest))))) := by
    simp only [encodeTableMetadata, List.append_assoc]
  generalize pre ++ (encodeTableMetadata m ++ rest) = data at hdata ⊢
  refine (readsBack_fixed _ _).seq hdata fun hdata => ?_
  refine (readsBack_string _ _ (by omega)).seq hdata fun hdata => ?_
  refine (readsBack_fixed _ _).seq hdata fun hdata => ?_
  refine (readsBack_fixed _ _).seq hdata fun hdata => ?_
  show readColumns (UInt16.ofNat m.schema.columnCount).toNat _ _ >>= _ = _
  rw [hcount]
  refine (readsBack_columns (by omega)).seq hdata fun _ => ?_
  simp only [encodeTableMetadata, List.append_assoc]

theorem readsBack_indexMetadata {m : IndexMetadata}
    (hlen : (encodeIndexMetadata m).length ≤ 0xFFFF) :
    ReadsBack readIndexMetadata { m with catalogRecordId := ⟨kInvalidPageId, 0⟩ }
      (encodeIndexMetadata m) := by
  have hsizes : m.indexName.length + m.tableName.length + m.columnName.length ≤ 0xFFFF := by
    simp only [encodeIndexMetadata, List.length_append, length_encodeString] at hlen
    omega
  intro pre rest
  have hdata : pre ++ (encodeIndexMetadata m ++ rest) = pre ++ (FixedSize.toBytes m.indexId
      ++ (encodeString m.indexName ++ (encodeString m.tableName
        ++ (encodeString m.columnName ++ (FixedSize.toBytes m.metaPageId ++ rest))))) := by
    simp only [encodeIndexMetadata, List.append_assoc]
  generalize pre ++ (encodeIndexMetadata m ++ rest) = data at hdata ⊢
  refine (readsBack_fixed _ _).seq hdata fun hdata => ?_
  refine (readsBack_string _ _ (by omega)).seq hdata fun hdata => ?_
  refine (readsBack_string _ _ (by omega)).seq hdata fun hdata => ?_
  refine (readsBack_string _ _ (by omega)).seq hdata fun hdata => ?_
  refine (readsBack_fixed _ _).seq hdata fun _ => ?_
  simp only [encodeIndexMetadata, List.append_assoc]

/-- **The entries of the catalog are read back**, except for their own place in the heap: neither
`CreateTable` nor `CreateIndex` stores an encoding in which a length or the number of columns was
cut. -/
theorem metadata_round_trip :
    (∀ m : TableMetadata, (encodeTableMetadata m).length ≤ 0xFFFF →
      decodeTableMetadata (encodeTableMetadata m)
        = pure { m with catalogRecordId := ⟨kInvalidPageId, 0⟩ }) ∧
    ∀ m : IndexMetadata, (encodeIndexMetadata m).length ≤ 0xFFFF →
      decodeIndexMetadata (encodeIndexMetadata m)
        = pure { m with catalogRecordId := ⟨kInvalidPageId, 0⟩ } := by
  constructor
  · intro m hlen
    have hread := readsBack_tableMetadata hlen [] []
    rw [List.append_nil, List.nil_append] at hread
    rw [decodeTableMetadata]
    exact congrArg (· >>= _) hread
  · intro m hlen
    have hread := readsBack_indexMetadata hlen [] []
    rw [List.append_nil, List.nil_append] at hread
    rw [decodeIndexMetadata]
    exact congrArg (· >>= _) hread

/-- A table with two columns. -/
def people : TableMetadata :=
  ⟨3, lit "people", ⟨[⟨lit "name", .varchar, false, 20⟩, ⟨lit "age", .int, true, 255⟩]⟩, 7, ⟨1, 2⟩⟩

/-- An index on one of them. -/
def peopleByAge : IndexMetadata := ⟨4, lit "byAge", lit "people", lit "age", 9, ⟨1, 3⟩⟩

theorem metadata_round_trip_people :
    decodeTableMetadata (encodeTableMetadata people)
      = pure { people with catalogRecordId := ⟨kInvalidPageId, 0⟩ } ∧
    decodeIndexMetadata (encodeIndexMetadata peopleByAge)
      = pure { peopleByAge with catalogRecordId := ⟨kInvalidPageId, 0⟩ } :=
  ⟨metadata_round_trip.1 people (by decide), metadata_round_trip.2 peopleByAge (by decide)⟩

end MiniDB.Catalog
