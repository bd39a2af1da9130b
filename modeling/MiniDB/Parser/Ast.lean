import MiniDB.Common.Value

/-!
# Statements

The statements the parser hands to the executor.  A select list is either `*` or a list of columns
and aggregates, and only `COUNT` takes `*`: the parser builds no other `SelectItem`, and the executor
would read missing fields of others.
-/

namespace MiniDB

/-- `parser::BinaryOp`. -/
inductive BinaryOp
  | eq
  | neq
  | lt
  | lte
  | gt
  | gte
  | and
  | or
  deriving DecidableEq, Repr

/-- `parser::Expr`. -/
inductive Expr
  | column (name : Str)
  | literal (value : Value)
  | binary (left : Expr) (op : BinaryOp) (right : Expr)
  deriving DecidableEq

/-- `parser::AggregateFunc`. -/
inductive AggregateFunc
  | count
  | sum
  | avg
  | min
  | max
  deriving DecidableEq, Repr

/-- A `SelectItem` with an aggregate. -/
inductive AggregateItem
  | countStar (alias? : Option Str)
  | ofColumn (func : AggregateFunc) (column : Str) (alias? : Option Str)
  deriving DecidableEq

/-- A `SelectItem` of a list. -/
inductive SelectItem
  | plain (column : Str) (alias? : Option Str)
  | aggregate (item : AggregateItem)
  deriving DecidableEq

/-- The items of a `SelectStmt`. -/
inductive SelectList
  | star
  | items (items : List SelectItem)
  deriving DecidableEq

/-- `parser::OrderByClause`. -/
structure OrderByClause where
  column : Str
  descending : Bool := false
  deriving DecidableEq

/-- `parser::CreateTableStmt`.  The parser asks for at least one column. -/
structure CreateTableStmt where
  tableName : Str
  columns : List Column
  columns_ne : columns ≠ []
  deriving DecidableEq

/-- `parser::CreateIndexStmt`. -/
structure CreateIndexStmt where
  indexName : Str
  tableName : Str
  columnName : Str
  deriving DecidableEq

/-- `parser::InsertStmt`; without columns the rows have a value for each column of the table. -/
structure InsertStmt where
  tableName : Str
  columns : List Str
  rows : List Row
  deriving DecidableEq

/-- `parser::UpdateStmt`. -/
structure UpdateStmt where
  tableName : Str
  assignments : List (Str × Value)
  where? : Option Expr
  deriving DecidableEq

/-- `parser::DeleteStmt`. -/
structure DeleteStmt where
  tableName : Str
  where? : Option Expr
  deriving DecidableEq

/-- `parser::SelectStmt`. -/
structure SelectStmt where
  items : SelectList
  tableName : Str
  where? : Option Expr
  orderBy : Option OrderByClause
  limit : Option Int64
  deriving DecidableEq

/-- `parser::Statement`. -/
inductive Statement
  | createTable (stmt : CreateTableStmt)
  | dropTable (tableName : Str)
  | createIndex (stmt : CreateIndexStmt)
  | dropIndex (indexName : Str)
  | insert (stmt : InsertStmt)
  | update (stmt : UpdateStmt)
  | delete (stmt : DeleteStmt)
  | select (stmt : SelectStmt)
  deriving DecidableEq

end MiniDB
