import MiniDB.Executor.Operator

/-!
# The executor

`Executor::Execute`: a statement as an action on a database.  Literals are coerced to the types of
their columns, rows are written one by one, and after each row the indexes of its table are brought
up to date; nothing is undone when a later row fails.  A SELECT looks for a conjunct of its WHERE
clause that an index can answer (`chooseIndex`), scans the table or the index, and puts the other
operators on top (`runPlan`).
-/

namespace MiniDB.Executor

open Effect Paged

variable {σ : Type} [IndexPool σ]

/-- `QueryResult`. -/
structure QueryResult where
  columnNames : List Str := []
  rows : List Row := []
  rowsAffected : Nat := 0
  message : Str := []
  scanStrategy : Str := []
  deriving DecidableEq

/-- `std::to_string` of a size. -/
def toString (n : Nat) : Str := (Nat.toDigits 10 n).map fun c => UInt8.ofNat c.toNat

/-- The schema of a table, or `NotFound`. -/
def requireSchema (table : Str) : Db σ Schema := do
  match ← TableManager.getSchema table with
  | some schema => return schema
  | none => throw ⟨.notFound, lit "no such table '" ++ table ++ lit "'"⟩

/-! ### Values -/

/-- The answer to a literal of the wrong type. -/
def expected (what : String) (col : Column) : Status :=
  ⟨.invalidArgument, lit "expected " ++ lit what ++ lit " value for column '" ++ col.name ++ lit "'"⟩

/-- `CoerceLiteralToColumnType`. -/
def coerceLiteralToColumnType (literal : Value) (col : Column) : Result Value :=
  match literal, col.type with
  | .null, _ =>
    if col.nullable then .ok .null
    else .error ⟨.invalidArgument, lit "NULL given for NOT NULL column '" ++ col.name ++ lit "'"⟩
  | .int64 v, .int =>
    if v.toInt < -2 ^ 31 ∨ v.toInt > 2 ^ 31 - 1 then
      .error ⟨.invalidArgument,
        lit "integer value out of range for INT column '" ++ col.name ++ lit "'"⟩
    else .ok (.int32 v.toInt32)
  | _, .int => .error (expected "an integer" col)
  | .int64 v, .bigInt => .ok (.int64 v)
  | _, .bigInt => .error (expected "an integer" col)
  | .double v, .double => .ok (.double v)
  | .int64 v, .double => .ok (.double (.ofInt v.toInt))
  | _, .double => .error (expected "a numeric" col)
  | .bool v, .bool => .ok (.bool v)
  | _, .bool => .error (expected "a boolean" col)
  | .string v, .varchar => .ok (.string v)
  | _, .varchar => .error (expected "a string" col)

/-- `ExtractInt64Key`. -/
def extractInt64Key : Value → Option Key
  | .int32 v => some v.toInt64
  | .int64 v => some v
  | _ => none

/-- The key of a row in an index on the given column, if it has one. -/
def indexKey (schema : Schema) (column : Str) (row : Row) : Fallible (Option Key) := do
  match schema.indexOf column with
  | none => return none
  | some idx =>
    let v ← Checked.access .outOfBounds row[idx.val]?
    return extractInt64Key v

/-! ### Index maintenance -/

/-- The loop of `MaintainIndexesOnInsert` and of `MaintainIndexesOnDelete`: a call on the tree of each
index of the table in which the row has a key.  What the tree answers is ignored. -/
def maintainIndexes (call : PageId → Key → RecordId → σ → Except Fault (Result Unit × σ))
    (table : Str) (schema : Schema) (row : Row) (rid : RecordId) : Db σ Unit := do
  let db ← get
  (db.catalog.getIndexesForTable table).forM fun idx => do
    match ← Action.check (indexKey schema idx.columnName row) with
    | none => return ()
    | some key =>
      let tree ← Database.onIndex (IndexPool.openTree idx.metaPageId)
      let _ ← Database.onIndex (call tree key rid)

/-- `MaintainIndexesOnInsert`. -/
def maintainIndexesOnInsert (table : Str) (schema : Schema) (row : Row) (rid : RecordId) : Db σ Unit :=
  maintainIndexes IndexPool.insert table schema row rid

/-- `MaintainIndexesOnDelete`. -/
def maintainIndexesOnDelete (table : Str) (schema : Schema) (row : Row) (rid : RecordId) : Db σ Unit :=
  maintainIndexes IndexPool.delete table schema row rid

/-! ### Definitions -/

/-- `ExecuteCreateTable`. -/
def executeCreateTable (stmt : CreateTableStmt) : Db σ QueryResult := do
  TableManager.createTable stmt.tableName ⟨stmt.columns⟩
  return { message := lit "CREATE TABLE" }

/-- `ExecuteDropTable`. -/
def executeDropTable (tableName : Str) : Db σ QueryResult := do
  TableManager.dropTable tableName
  return { message := lit "DROP TABLE" }

/-- The position of the column of a new index. -/
def indexedColumn (schema : Schema) (columnName : Str) : Result (Fin schema.columnCount) :=
  match schema.indexOf columnName with
  | none => .error ⟨.invalidArgument, lit "unknown column '" ++ columnName ++ lit "' in CREATE INDEX"⟩
  | some idx =>
    match (schema.columnAt idx).type with
    | .int | .bigInt => .ok idx
    | type => .error ⟨.invalidArgument,
        lit "index only supported on INT/BIGINT columns in this implementation, column '"
          ++ columnName ++ lit "' is " ++ columnTypeName type⟩

/-- The visitor of `ExecuteCreateIndex`: the row is inserted into the new tree if it has a key. -/
def insertScanned (tree : PageId) (idx : Nat) (r : RecordId × Row) : Db σ Unit := do
  let v ← Action.check (Checked.access .outOfBounds r.2[idx]?)
  match extractInt64Key v with
  | none => return ()
  | some key =>
    let _ ← Database.onIndex (IndexPool.insert tree key r.1)

/-- `ExecuteCreateIndex`. -/
def executeCreateIndex (stmt : CreateIndexStmt) : Db σ QueryResult := do
  let schema ← requireSchema stmt.tableName
  let idx ← Action.ofResult (indexedColumn schema stmt.columnName)
  let tree ← Database.onIndex (IndexPool.openTree kInvalidPageId)
  let rows ← TableManager.scan stmt.tableName
  rows.forM (insertScanned tree idx)
  let created ← Database.onCatalog fun c =>
    c.createIndex stmt.indexName stmt.tableName stmt.columnName tree
  let _ ← Action.ofResult created
  return { message := lit "CREATE INDEX" }

/-- `ExecuteDropIndex`. -/
def executeDropIndex (indexName : Str) : Db σ QueryResult := do
  let dropped ← Database.onCatalog fun c _ => c.dropIndex indexName
  Action.ofResult dropped
  return { message := lit "DROP INDEX" }

/-! ### Rows -/

/-- The columns an INSERT gives values for. -/
def targetIndices (schema : Schema) (columns : List Str) : Result (List (Fin schema.columnCount)) :=
  if columns = [] then .ok (List.finRange schema.columnCount)
  else columns.mapM fun name =>
    match schema.indexOf name with
    | none => .error ⟨.invalidArgument, lit "unknown column '" ++ name ++ lit "' in INSERT"⟩
    | some idx => .ok idx

/-- The row that is stored: the given values coerced, NULL elsewhere. -/
def fullRow (schema : Schema) (targets : List (Fin schema.columnCount)) (row : Row) : Result Row :=
  if row.length ≠ targets.length then
    .error ⟨.invalidArgument, lit "INSERT value count does not match column count"⟩
  else
    (row.zip targets).foldlM (fun full p => do
      let coerced ← coerceLiteralToColumnType p.1 (schema.columnAt p.2)
      return full.set p.2 coerced) (List.replicate schema.columnCount .null)

/-- One row of an INSERT. -/
def insertOne (table : Str) (schema : Schema) (targets : List (Fin schema.columnCount)) (row : Row) :
    Db σ Unit := do
  let full ← Action.ofResult (fullRow schema targets row)
  let rid ← TableManager.insertRow table full
  maintainIndexesOnInsert table schema full rid

/-- `ExecuteInsert`. -/
def executeInsert (stmt : InsertStmt) : Db σ QueryResult := do
  let schema ← requireSchema stmt.tableName
  let targets ← Action.ofResult (targetIndices schema stmt.columns)
  let inserted ← stmt.rows.foldlM (fun n row => do
    insertOne stmt.tableName schema targets row
    return n + 1) 0
  return { rowsAffected := inserted, message := lit "INSERT 0 " ++ toString inserted }

/-- The assignments of an UPDATE, with their values coerced. -/
def resolveAssignments (schema : Schema) (assignments : List (Str × Value)) :
    Result (List (Fin schema.columnCount × Value)) :=
  assignments.mapM fun a =>
    match schema.indexOf a.1 with
    | none => .error ⟨.invalidArgument, lit "unknown column '" ++ a.1 ++ lit "' in UPDATE SET"⟩
    | some idx => do
      let coerced ← coerceLiteralToColumnType a.2 (schema.columnAt idx)
      return (idx, coerced)

/-- The visitor of UPDATE and DELETE: rows whose WHERE clause fails to evaluate do not match. -/
def matchingRows (where? : Option Expr) (schema : Schema) :
    List (RecordId × Row) → Fallible (List (RecordId × Row))
  | [] => return []
  | r :: rows => do
    let matched ← Checked.attempt (evaluatePredicate where? schema r.2)
    let rest ← matchingRows where? schema rows
    match matched with
    | .ok true => return r :: rest
    | _ => return rest

/-- The rows an UPDATE or DELETE works on, which are all read before the first one is changed. -/
def collectMatches (table : Str) (where? : Option Expr) (schema : Schema) :
    Db σ (List (RecordId × Row)) := do
  let rows ← TableManager.scan table
  Action.check (matchingRows where? schema rows)

/-- `match.values[idx] = value` for each assignment in turn. -/
def assign {n : Nat} (assignments : List (Fin n × Value)) (row : Row) : Fallible Row :=
  assignments.foldlM (fun row a => Checked.access .outOfBounds
    (if a.1.val < row.length then some (row.set a.1 a.2) else none)) row

/-- One row of an UPDATE. -/
def updateOne (table : Str) (schema : Schema) (assignments : List (Fin schema.columnCount × Value))
    (m : RecordId × Row) : Db σ Unit := do
  let values ← Action.check (assign assignments m.2)
  let rid ← TableManager.updateRow table m.1 values
  maintainIndexesOnDelete table schema m.2 m.1
  maintainIndexesOnInsert table schema values rid

/-- `ExecuteUpdate`. -/
def executeUpdate (stmt : UpdateStmt) : Db σ QueryResult := do
  let schema ← requireSchema stmt.tableName
  let assignments ← Action.ofResult (resolveAssignments schema stmt.assignments)
  let matched ← collectMatches stmt.tableName stmt.where? schema
  let updated ← matched.foldlM (fun n m => do
    updateOne stmt.tableName schema assignments m
    return n + 1) 0
  return { rowsAffected := updated, message := lit "UPDATE " ++ toString updated }

/-- One row of a DELETE. -/
def deleteOne (table : Str) (schema : Schema) (m : RecordId × Row) : Db σ Unit := do
  TableManager.deleteRow table m.1
  maintainIndexesOnDelete table schema m.2 m.1

/-- `ExecuteDelete`. -/
def executeDelete (stmt : DeleteStmt) : Db σ QueryResult := do
  let schema ← requireSchema stmt.tableName
  let matched ← collectMatches stmt.tableName stmt.where? schema
  let deleted ← matched.foldlM (fun n m => do
    deleteOne stmt.tableName schema m
    return n + 1) 0
  return { rowsAffected := deleted, message := lit "DELETE " ++ toString deleted }

/-! ### Choosing an index -/

/-- `FlattenAnd`. -/
def flattenAnd : Expr → List Expr
  | .binary left .and right => flattenAnd left ++ flattenAnd right
  | e => [e]

/-- `FlipComparisonOp`. -/
def flipComparisonOp : BinaryOp → BinaryOp
  | .lt => .gt
  | .gt => .lt
  | .lte => .gte
  | .gte => .lte
  | op => op

/-- `IndexableConjunct`. -/
structure IndexableConjunct where
  column : Str
  op : BinaryOp
  value : Key
  deriving DecidableEq

/-- `ExtractIndexableConjunct`: a column compared with an integer, on either side. -/
def extractIndexableConjunct : Expr → Option IndexableConjunct
  | .binary _ .and _ | .binary _ .or _ => none
  | .binary (.column column) op (.literal (.int64 value)) => some ⟨column, op, value⟩
  | .binary (.literal (.int64 value)) op (.column column) =>
    some ⟨column, flipComparisonOp op, value⟩
  | _ => none

/-- The loop over the conjuncts: the first with `=` that has an index, else the first that has one. -/
def chooseFrom (indexes : List IndexMetadata) :
    List Expr → Option (IndexableConjunct × IndexMetadata) → Option (IndexableConjunct × IndexMetadata)
  | [], chosen => chosen
  | e :: es, chosen =>
    match extractIndexableConjunct e with
    | none => chooseFrom indexes es chosen
    | some candidate =>
      match indexes.find? fun idx => idx.columnName = candidate.column with
      | none => chooseFrom indexes es chosen
      | some idx =>
        if candidate.op = .eq then some (candidate, idx)
        else chooseFrom indexes es (chosen <|> some (candidate, idx))

/-- The conjunct and the index a SELECT uses. -/
def chooseIndex (indexes : List IndexMetadata) : Option Expr →
    Option (IndexableConjunct × IndexMetadata)
  | none => none
  | some (.binary _ .or _) => none
  | some w => chooseFrom indexes (flattenAnd w) none

/-- What the index is asked for.  Any other operator than the five gets an unbounded range. -/
def IndexableConjunct.lookup (c : IndexableConjunct) : IndexLookup :=
  match c.op with
  | .eq => .equal c.value
  | .lt => .range none true (some c.value) false
  | .lte => .range none true (some c.value) true
  | .gt => .range (some c.value) false none true
  | .gte => .range (some c.value) true none true
  | _ => .range none true none true

/-! ### SELECT -/

/-- How a SELECT reads its table. -/
inductive AccessPath
  | seqScan
  | indexScan (indexName : Str) (tree : PageId) (lookup : IndexLookup)
  deriving DecidableEq

/-- The name of the access path in the result. -/
def AccessPath.strategy : AccessPath → Str
  | .seqScan => lit "SeqScan"
  | .indexScan indexName _ _ => lit "IndexScan(" ++ indexName ++ lit ")"

/-- The scan at the bottom of a plan. -/
def AccessPath.scan (path : AccessPath) (table : Str) : Operator σ :=
  match path with
  | .seqScan => Executor.seqScan table
  | .indexScan _ tree lookup => Executor.indexScan table tree lookup

/-- The scan with the filter of the WHERE clause. -/
def sourcePlan (stmt : SelectStmt) (schema : Schema) (path : AccessPath) : Operator σ :=
  match stmt.where? with
  | none => path.scan stmt.tableName
  | some predicate => filter predicate schema (path.scan stmt.tableName)

/-- The aggregates of a select list. -/
def SelectList.aggregates : SelectList → List AggregateItem
  | .star => []
  | .items items => items.filterMap fun
    | .plain _ _ => none
    | .aggregate item => some item

/-- The select list has an item that is not an aggregate. -/
def SelectList.anyPlain : SelectList → Bool
  | .star => true
  | .items items => items.any fun
    | .plain _ _ => true
    | .aggregate _ => false

/-- ORDER BY, if there is one. -/
def orderPlan (stmt : SelectStmt) (schema : Schema) (child : Operator σ) : Operator σ :=
  match stmt.orderBy with
  | none => child
  | some orderBy => sort orderBy schema child

/-- LIMIT, if there is one. -/
def limitPlan (stmt : SelectStmt) (child : Operator σ) : Operator σ :=
  match stmt.limit with
  | none => child
  | some k => limit k child

/-- All operators of a SELECT. -/
def selectPlan (stmt : SelectStmt) (schema : Schema) (path : AccessPath) : Operator σ :=
  if SelectList.aggregates stmt.items ≠ [] then
    aggregate (SelectList.aggregates stmt.items) schema (sourcePlan stmt schema path)
  else
    limitPlan stmt (project (columnPlan schema stmt.items).indices
      (orderPlan stmt schema (sourcePlan stmt schema path)))

/-- The names of the columns of the result. -/
def selectNames (stmt : SelectStmt) (schema : Schema) : List Str :=
  if SelectList.aggregates stmt.items ≠ [] then
    (SelectList.aggregates stmt.items).map aggregateName
  else (columnPlan schema stmt.items).columnNames

/-- Open a plan and ask it for all its tuples. -/
def runOperator (plan : Operator σ) : Db σ (List Row) := do
  let s ← plan.start
  let (tuples, s) ← plan.drain .noFuel s
  match plan.error s with
  | some status => throw status
  | none => return tuples.map Tuple.values

/-- The part of `ExecuteSelect` after the choice of the access path. -/
def runPlan (stmt : SelectStmt) (schema : Schema) (path : AccessPath) : Db σ QueryResult := do
  let rows ← runOperator (selectPlan stmt schema path)
  return {
    columnNames := selectNames stmt schema
    rows := rows
    message := lit "SELECT " ++ toString rows.length
    scanStrategy := path.strategy }

/-- The choice of the access path. -/
def chooseAccessPath (stmt : SelectStmt) : Db σ AccessPath := do
  let db ← get
  match chooseIndex (db.catalog.getIndexesForTable stmt.tableName) stmt.where? with
  | none => return .seqScan
  | some (conjunct, idx) =>
    let tree ← Database.onIndex (IndexPool.openTree idx.metaPageId)
    return .indexScan idx.indexName tree conjunct.lookup

/-- `ExecuteSelect`. -/
def executeSelect (stmt : SelectStmt) : Db σ QueryResult := do
  let schema ← requireSchema stmt.tableName
  if SelectList.aggregates stmt.items ≠ [] ∧ SelectList.anyPlain stmt.items = true then
    throw ⟨.invalidArgument,
      lit "cannot mix aggregate and non-aggregate columns without GROUP BY (not supported)"⟩
  else
    let path ← chooseAccessPath stmt
    runPlan stmt schema path

/-! ### Statements -/

/-- `Execute`. -/
def execute : Statement → Db σ QueryResult
  | .createTable stmt => executeCreateTable stmt
  | .dropTable tableName => executeDropTable tableName
  | .createIndex stmt => executeCreateIndex stmt
  | .dropIndex indexName => executeDropIndex indexName
  | .insert stmt => executeInsert stmt
  | .update stmt => executeUpdate stmt
  | .delete stmt => executeDelete stmt
  | .select stmt => executeSelect stmt

/-- Execute a statement on a database. -/
def execStatement (db : Database σ) (stmt : Statement) :
    Except Fault (Result QueryResult × Database σ) := (execute stmt).exec db

end MiniDB.Executor
