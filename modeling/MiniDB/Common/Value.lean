import Mathlib.Data.List.Forall2
import MiniDB.Lib.Double
import MiniDB.Utilities.Status

/-!
# Values and schemas

The values of columns (`common::Value`, a variant whose first alternative is NULL), the column types
of tables and their schemas.  A row is a plain list of values, as `std::vector<Value>` is; that it
fits a schema is not built in, since the code reads rows with schemas it takes from elsewhere.
-/

namespace MiniDB

/-- `common::ColumnType`. -/
inductive ColumnType
  | int
  | bigInt
  | double
  | bool
  | varchar
  deriving DecidableEq, Repr

/-- `ColumnTypeName`. -/
def columnTypeName : ColumnType → Str
  | .int => lit "INT"
  | .bigInt => lit "BIGINT"
  | .double => lit "DOUBLE"
  | .bool => lit "BOOLEAN"
  | .varchar => lit "VARCHAR"

/-- `common::Value`. -/
inductive Value
  | null
  | int32 (v : Int32)
  | int64 (v : Int64)
  | double (v : Double)
  | bool (v : Bool)
  | string (v : Str)
  deriving DecidableEq

/-- `IsNull`. -/
def isNull : Value → Bool
  | .null => true
  | _ => false

/-- `ValueMatchesType`. -/
def valueMatchesType (v : Value) (type : ColumnType) : Bool :=
  match v, type with
  | .null, _ => true
  | .int32 _, .int => true
  | .int64 _, .bigInt => true
  | .double _, .double => true
  | .bool _, .bool => true
  | .string _, .varchar => true
  | _, _ => false

/-- `common::Column`. -/
structure Column where
  name : Str
  type : ColumnType
  nullable : Bool := true
  maxLength : UInt16 := 255
  deriving DecidableEq

/-- `common::Schema`. -/
structure Schema where
  columns : List Column
  deriving DecidableEq

/-- A row of a table. -/
abbrev Row := List Value

namespace Schema

/-- `ColumnCount`. -/
def columnCount (s : Schema) : Nat := s.columns.length

/-- `IndexOf`: the position of the first column of that name. -/
def indexOf (s : Schema) (columnName : Str) : Option (Fin s.columnCount) :=
  s.columns.findFinIdx? fun c => c.name = columnName

/-- `At`. -/
def columnAt (s : Schema) (index : Fin s.columnCount) : Column := s.columns.get index

theorem name_of_indexOf {s : Schema} {name : Str} {i : Fin s.columnCount}
    (h : s.indexOf name = some i) : (s.columnAt i).name = name := by
  have hname := (List.findFinIdx?_eq_some_iff.mp h).1
  exact of_decide_eq_true hname

end Schema

/-- The value fits the column: it has the column's type, is NULL only if the column is nullable, and
is no longer than the column allows. -/
def Conforms (col : Column) (v : Value) : Prop :=
  valueMatchesType v col.type = true ∧ (v = .null → col.nullable = true) ∧
    ∀ s, v = .string s → s.length ≤ col.maxLength.toNat

/-- The row fits the schema. -/
def RowConforms (schema : Schema) (row : Row) : Prop := List.Forall₂ Conforms schema.columns row

theorem RowConforms.length_eq {schema : Schema} {row : Row} (h : RowConforms schema row) :
    row.length = schema.columnCount := (List.Forall₂.length_eq h).symm

/-- A conforming row has a value for each column. -/
theorem RowConforms.get {schema : Schema} {row : Row} (h : RowConforms schema row)
    (i : Fin schema.columnCount) : ∃ v, row[i.val]? = some v ∧ Conforms (schema.columnAt i) v := by
  have hi : i.val < row.length := by rw [h.length_eq]; exact i.isLt
  exact ⟨row[i.val], List.getElem?_eq_getElem hi, List.Forall₂.get h i.isLt hi⟩

/-- A non-NULL value of an integer column is an integer. -/
theorem Conforms.integer {col : Column} {v : Value} (h : Conforms col v) (hv : isNull v = false) :
    (col.type = .int → ∃ n, v = .int32 n) ∧ (col.type = .bigInt → ∃ n, v = .int64 n) := by
  obtain ⟨htype, -⟩ := h
  constructor
  · intro hc
    rw [hc] at htype
    cases v <;> simp_all [valueMatchesType, isNull]
  · intro hc
    rw [hc] at htype
    cases v <;> simp_all [valueMatchesType, isNull]

end MiniDB
