import MiniDB.Executor.ExprEval
import MiniDB.Index.IndexPool
import MiniDB.Lib.Cursor
import MiniDB.Storage.TableManager

/-!
# Operators

The operators of a query plan, as cursors over a database: `Open` is `start`, `Next` is `next` and
`GetError` is `error`.  A plan is built, opened, asked for its tuples until there are none, and asked
for its error; nothing is asked of an operator after it has said that there are no more tuples.
`Close` only frees memory.

`Filter`, `Sort`, `Project`, `Limit` and `Aggregate` take the operator below them as an argument.
-/

namespace MiniDB.Executor

open Effect Paged

/-- `executor::Tuple`. -/
structure Tuple where
  rid : RecordId
  values : Row
  deriving DecidableEq

/-- `Operator`. -/
abbrev Operator (σ : Type) := Cursor Fault Status (Database σ) Tuple

variable {σ : Type}

/-! ### Scans -/

/-- `SeqScanOperator`: the rows are buffered by `Open`, which ignores the status of the scan. -/
def seqScan (table : Str) : Operator σ where
  State := List Tuple
  start := do
    match ← Action.attempt (TableManager.scan table) with
    | .ok rows => return rows.map fun r => ⟨r.1, r.2⟩
    | .error _ => return []
  next
    | [] => return (none, [])
    | t :: buffered => return (some t, buffered)
  error _ := none
  left := List.length

/-- What an `IndexScanOperator` asks its tree for. -/
inductive IndexLookup
  | equal (key : Key)
  | range (low : Option Key) (lowInclusive : Bool) (high : Option Key) (highInclusive : Bool)
  deriving DecidableEq

/-- The candidates of a lookup, in the order of the tree. -/
def IndexLookup.candidates [IndexPool σ] (tree : PageId) :
    IndexLookup → Db σ (Result (List RecordId))
  | .equal key => Database.onIndex (IndexPool.searchEqual tree key)
  | .range low lowInclusive high highInclusive => do
    let r ← Database.onIndex (IndexPool.rangeScan tree low lowInclusive high highInclusive)
    return r.map fun entries => entries.map Prod.snd

/-- The loop of `IndexScanOperator::Next`: candidates that cannot be read are skipped. -/
def nextCandidate (table : Str) : List RecordId → Db σ (Option Tuple × List RecordId)
  | [] => return (none, [])
  | rid :: candidates => do
    match ← Action.attempt (TableManager.getRow table rid) with
    | .ok row => return (some ⟨rid, row⟩, candidates)
    | .error _ => nextCandidate table candidates

/-- `IndexScanOperator`. -/
def indexScan [IndexPool σ] (table : Str) (tree : PageId) (lookup : IndexLookup) : Operator σ where
  State := List RecordId × Option Status
  start := do
    match ← lookup.candidates tree with
    | .ok candidates => return (candidates, none)
    | .error status => return ([], some status)
  next s := do
    let (t, candidates) ← nextCandidate table s.1
    return (t, candidates, s.2)
  error := Prod.snd
  left s := s.1.length

/-! ### Filter, sort, project, limit -/

/-- The loop of `FilterOperator::Next`; the state is that of the child and `error_`. -/
def filterNext (predicate : Expr) (schema : Schema) (child : Operator σ) :
    Nat → child.State × Option Status → Db σ (Option Tuple × child.State × Option Status)
  | 0, _ => Action.die .noFuel
  | fuel + 1, (s, error) => do
    match ← child.next s with
    | (none, s) => return (none, s, error)
    | (some t, s) =>
      match ← Action.check (Checked.attempt (evaluatePredicate (some predicate) schema t.values)) with
      | .error status => return (none, s, some status)
      | .ok true => return (some t, s, error)
      | .ok false => filterNext predicate schema child fuel (s, error)

/-- `FilterOperator`. -/
def filter (predicate : Expr) (schema : Schema) (child : Operator σ) : Operator σ where
  State := child.State × Option Status
  start := do
    let s ← child.start
    return (s, none)
  next s := filterNext predicate schema child (child.left s.1 + 1) s
  error s := s.2 <|> child.error s.1
  left s := child.left s.1

/-- The comparison of `SortOperator`: NULLs come first, or last if the order is descending. -/
def sortsBefore (descending : Bool) (a b : Value) : Bool :=
  if isNull a != isNull b then
    if descending then !isNull a else isNull a
  else if isNull a && isNull b then false
  else if descending then compareForSort a b > 0 else compareForSort a b < 0

/-- `std::stable_sort` of tuples by the values they are keyed with. -/
def stableSort (descending : Bool) (keyed : List (Value × Tuple)) : List Tuple :=
  (keyed.mergeSort fun a b => !sortsBefore descending b.1 a.1).map Prod.snd

/-- The tuples with their values in a column. -/
def keyedBy (col : Nat) (tuples : List Tuple) : Fallible (List (Value × Tuple)) :=
  tuples.mapM fun t => do
    let v ← Checked.access .outOfBounds t.values[col]?
    return (v, t)

/-- A `SortOperator` after `Open`. -/
structure SortState where
  buffered : List Tuple
  error : Option Status
  childError : Option Status

/-- `SortOperator::Open`.  If the column is unknown the child is not opened. -/
def openSort (orderBy : OrderByClause) (schema : Schema) (child : Operator σ) : Db σ SortState := do
  match schema.indexOf orderBy.column with
  | none =>
    return ⟨[], some ⟨.invalidArgument,
      lit "ORDER BY: unknown column '" ++ orderBy.column ++ lit "'"⟩, none⟩
  | some col =>
    let s ← child.start
    let (tuples, s) ← child.drain .noFuel s
    let keyed ← Action.check (keyedBy col tuples)
    return ⟨stableSort orderBy.descending keyed, none, child.error s⟩

/-- `SortOperator`. -/
def sort (orderBy : OrderByClause) (schema : Schema) (child : Operator σ) : Operator σ where
  State := SortState
  start := openSort orderBy schema child
  next s :=
    match s.error, s.buffered with
    | some _, _ | none, [] => return (none, s)
    | none, t :: buffered => return (some t, { s with buffered := buffered })
  error s := s.error <|> s.childError
  left s := s.buffered.length

/-- The columns a `ProjectOperator` reads, and their names. -/
structure ColumnPlan where
  indices : List Nat
  columnNames : List Str

/-- `BuildColumnPlan` for a list of columns.  An unknown column ends the plan; the error that is
recorded then is lost, as `Open` resets it. -/
def buildColumnPlan (schema : Schema) : List (Str × Option Str) → ColumnPlan
  | [] => ⟨[], []⟩
  | (column, alias?) :: items =>
    match schema.indexOf column with
    | none => ⟨[], []⟩
    | some idx =>
      let rest := buildColumnPlan schema items
      ⟨idx :: rest.indices, alias?.getD column :: rest.columnNames⟩

/-- The columns of a select list without aggregates. -/
def plainItems (items : List SelectItem) : List (Str × Option Str) :=
  items.filterMap fun
    | .plain column alias? => some (column, alias?)
    | .aggregate _ => none

/-- `BuildColumnPlan`.  For `*` every column is looked up by its name. -/
def columnPlan (schema : Schema) : SelectList → ColumnPlan
  | .star => buildColumnPlan schema (schema.columns.map fun c => (c.name, none))
  | .items items => buildColumnPlan schema (plainItems items)

/-- The values of the columns, or the error when one is missing. -/
def projectRow (values : Row) (indices : List Nat) : Result Row :=
  indices.mapM fun i =>
    match values[i]? with
    | some v => .ok v
    | none => .error ⟨.corruption, lit "Project: column index out of range"⟩

/-- `ProjectOperator`; the state is that of the child and `error_`. -/
def project (indices : List Nat) (child : Operator σ) : Operator σ where
  State := child.State × Option Status
  start := do
    let s ← child.start
    return (s, none)
  next s := do
    match ← child.next s.1 with
    | (none, t) => return (none, t, s.2)
    | (some tuple, t) =>
      match projectRow tuple.values indices with
      | .ok values => return (some ⟨tuple.rid, values⟩, t, s.2)
      | .error status => return (none, t, some status)
  error s := s.2 <|> child.error s.1
  left s := child.left s.1

/-- `LimitOperator`; the state is that of the child and the number of tuples returned. -/
def limit (k : Int64) (child : Operator σ) : Operator σ where
  State := child.State × Int64
  start := do
    let s ← child.start
    return (s, 0)
  next s := do
    if s.2 ≥ k then
      return (none, s)
    else
      match ← child.next s.1 with
      | (none, t) => return (none, t, s.2)
      | (some tuple, t) => return (some tuple, t, s.2 + 1)
  error s := child.error s.1
  left s := child.left s.1

/-! ### Aggregates -/

/-- `AggregateOperator::Accumulator`. -/
structure Accumulator where
  count : Int64 := 0
  sum : Double := .ofInt 0
  hasValue : Bool := false
  min : Option Value := none
  max : Option Value := none

/-- `FuncName`. -/
def funcName : AggregateFunc → Str
  | .count => lit "COUNT"
  | .sum => lit "SUM"
  | .avg => lit "AVG"
  | .min => lit "MIN"
  | .max => lit "MAX"

/-- The name of an aggregate in the result, of `BuildColumnNames`. -/
def aggregateName : AggregateItem → Str
  | .countStar alias? => alias?.getD (funcName .count ++ lit "(*)")
  | .ofColumn func column alias? =>
    alias?.getD (funcName func ++ lit "(" ++ column ++ lit ")")

/-- The answer to an aggregate of a column that does not exist. -/
def unknownColumn (column : Str) (place : String) : Status :=
  ⟨.invalidArgument, lit "unknown column '" ++ column ++ lit "' in " ++ lit place⟩

/-- The check of `Compute` before it reads any tuple: SUM and AVG need a numeric column. -/
def checkItem (schema : Schema) : AggregateItem → Result Unit
  | .ofColumn .sum column _ | .ofColumn .avg column _ =>
    match schema.indexOf column with
    | none => throw (unknownColumn column "aggregate")
    | some idx =>
      match (schema.columnAt idx).type with
      | .int | .bigInt | .double => return ()
      | _ => throw ⟨.invalidArgument, lit "SUM/AVG requires a numeric column, got " ++ column⟩
  | _ => return ()

/-- A value of the column that is not NULL is added. -/
def Accumulator.add (acc : Accumulator) (func : AggregateFunc) (v : Value) : Result Accumulator :=
  match func with
  | .count => return { acc with count := acc.count + 1 }
  | .sum | .avg =>
    match toDouble v with
    | none => throw ⟨.invalidArgument, lit "non-numeric value encountered in SUM/AVG"⟩
    | some d => return { acc with sum := acc.sum.add d, count := acc.count + 1, hasValue := true }
  | .min =>
    let better := match acc.min with
      | none => true
      | some m => compareForSort v m < 0
    return { acc with min := if better then some v else acc.min, hasValue := true }
  | .max =>
    let better := match acc.max with
      | none => true
      | some m => compareForSort v m > 0
    return { acc with max := if better then some v else acc.max, hasValue := true }

/-- One tuple for one item. -/
def accumulate (schema : Schema) (values : Row) (item : AggregateItem) (acc : Accumulator) :
    Fallible Accumulator := do
  match item with
  | .countStar _ => return { acc with count := acc.count + 1 }
  | .ofColumn func column _ =>
    match schema.indexOf column with
    | none => throw (unknownColumn column (if func = .count then "COUNT" else "aggregate"))
    | some idx =>
      let v ← Checked.access .outOfBounds values[idx.val]?
      if isNull v then
        return acc
      else
        Checked.ofResult (acc.add func v)

/-- One tuple for all items, which are next to their accumulators. -/
def accumulateTuple (schema : Schema) (accs : List (AggregateItem × Accumulator)) (t : Tuple) :
    Fallible (List (AggregateItem × Accumulator)) :=
  accs.mapM fun p => do
    let acc ← accumulate schema t.values p.1 p.2
    return (p.1, acc)

/-- The value of an aggregate. -/
def Accumulator.value (acc : Accumulator) : AggregateItem → Value
  | .countStar _ | .ofColumn .count _ _ => .int64 acc.count
  | .ofColumn .sum _ _ => if acc.hasValue then .double acc.sum else .null
  | .ofColumn .avg _ _ =>
    if acc.hasValue then .double (acc.sum.div (.ofInt acc.count.toInt)) else .null
  | .ofColumn .min _ _ => acc.min.getD .null
  | .ofColumn .max _ _ => acc.max.getD .null

/-- The loop of `Compute` over the tuples of the child: the accumulators, or the error that ended
it. -/
def accumulateFrom (schema : Schema) (child : Operator σ) :
    Nat → List (AggregateItem × Accumulator) → child.State →
      Db σ (Result (List (AggregateItem × Accumulator)) × child.State)
  | 0, _, _ => Action.die .noFuel
  | fuel + 1, accs, s => do
    match ← child.next s with
    | (none, s) => return (.ok accs, s)
    | (some t, s) =>
      match ← Action.check (Checked.attempt (accumulateTuple schema accs t)) with
      | .error status => return (.error status, s)
      | .ok accs => accumulateFrom schema child fuel accs s

/-- `Compute`. -/
def compute (items : List AggregateItem) (schema : Schema) (child : Operator σ) (s : child.State) :
    Db σ (Result Row × child.State) := do
  match items.forM (checkItem schema) with
  | .error status => return (.error status, s)
  | .ok () =>
    let (r, s) ← accumulateFrom schema child (child.left s + 1) (items.map fun i => (i, {})) s
    return (r.map fun accs => accs.map fun p => p.2.value p.1, s)

/-- An `AggregateOperator`; the state is that of the child, `done_` and `error_`. -/
structure AggregateState (S : Type) where
  child : S
  done : Bool := false
  error : Option Status := none

/-- `AggregateOperator`.  Its tuple has no record id of its own. -/
def aggregate (items : List AggregateItem) (schema : Schema) (child : Operator σ) : Operator σ where
  State := AggregateState child.State
  start := do
    let s ← child.start
    return { child := s }
  next s := do
    if s.done then
      return (none, s)
    else
      match ← compute items schema child s.child with
      | (.ok values, t) =>
        return (some ⟨⟨kInvalidPageId, 0⟩, values⟩, { s with child := t, done := true })
      | (.error status, t) =>
        return (none, { child := t, done := true, error := some status })
  error s := s.error <|> child.error s.child
  left s := if s.done then 0 else 1

end MiniDB.Executor
