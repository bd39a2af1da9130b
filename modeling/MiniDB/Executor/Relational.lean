import MiniDB.Executor.Executor
import Mathlib.Data.Multiset.Filter

/-!
# The relational model

What CREATE TABLE, INSERT, UPDATE and DELETE mean: a table is a bag of rows, a statement changes the
bag of its table and says how many rows it is about.  There are no pages, no record ids and no order
in which rows are written.  A statement that is not well formed for the tables there are has no
meaning.
-/

namespace MiniDB.Relational

open Executor

/-- A table: its schema and its rows. -/
structure Relation where
  schema : Schema
  rows : Multiset Row

/-- The tables by name. -/
abbrev Relations := Str → Option Relation

/-- The row with the given values in the given positions; the last one wins. -/
def overlay {n : Nat} (writes : List (Fin n × Value)) (row : Row) : Row :=
  row.mapIdx fun i value => ((writes.reverse.find? fun w => w.1.val = i).map Prod.snd).getD value

/-- A value for a column, coerced to its type. -/
def coerced (schema : Schema) (write : Fin schema.columnCount × Value) :
    Option (Fin schema.columnCount × Value) :=
  (coerceLiteralToColumnType write.2 (schema.columnAt write.1)).toOption.map fun v => (write.1, v)

/-- The columns an INSERT is about: all of them, unless it names some. -/
def targets (schema : Schema) (columns : List Str) : Option (List (Fin schema.columnCount)) :=
  if columns = [] then some (List.finRange schema.columnCount) else columns.mapM schema.indexOf

/-- The row an INSERT adds: its values in the columns it is about, NULL in the others. -/
def inserted (schema : Schema) (columns : List Str) (values : Row) : Option Row := do
  let targets ← targets schema columns
  if values.length = targets.length then
    let writes ← (targets.zip values).mapM (coerced schema)
    return overlay writes (List.replicate schema.columnCount .null)
  else none

/-- The values an UPDATE assigns. -/
def assignments (schema : Schema) (assigns : List (Str × Value)) :
    Option (List (Fin schema.columnCount × Value)) :=
  assigns.mapM fun a => do
    let i ← schema.indexOf a.1
    coerced schema (i, a.2)

/-- The row satisfies the WHERE clause, if there is one. -/
def satisfies (where? : Option Expr) (schema : Schema) (row : Row) : Bool :=
  match (evaluatePredicate where? schema row).run with
  | .ok (.ok true) => true
  | _ => false

/-- The tables after a statement, and the number of rows it inserts, matches or removes. -/
def step (rels : Relations) : Statement → Option (Relations × Nat)
  | .createTable stmt =>
    match rels stmt.tableName with
    | some _ => none
    | none => some (Function.update rels stmt.tableName (some ⟨⟨stmt.columns⟩, 0⟩), 0)
  | .insert stmt => do
    let rel ← rels stmt.tableName
    let rows ← stmt.rows.mapM (inserted rel.schema stmt.columns)
    return (Function.update rels stmt.tableName (some ⟨rel.schema, rel.rows + rows⟩), rows.length)
  | .update stmt => do
    let rel ← rels stmt.tableName
    let writes ← assignments rel.schema stmt.assignments
    let matched := rel.rows.filter fun row => satisfies stmt.where? rel.schema row
    let others := rel.rows.filter fun row => ¬ satisfies stmt.where? rel.schema row
    return (Function.update rels stmt.tableName
      (some ⟨rel.schema, others + matched.map (overlay writes)⟩), matched.card)
  | .delete stmt => do
    let rel ← rels stmt.tableName
    let matched := rel.rows.filter fun row => satisfies stmt.where? rel.schema row
    let others := rel.rows.filter fun row => ¬ satisfies stmt.where? rel.schema row
    return (Function.update rels stmt.tableName (some ⟨rel.schema, others⟩), matched.card)
  | _ => none

/-- The tables after a list of statements, and what they say about the number of rows. -/
def run (stmts : List Statement) : Option (Relations × List Nat) :=
  stmts.foldlM (fun s stmt => (step s.1 stmt).map fun r => (r.1, s.2 ++ [r.2])) (fun _ => none, [])

end MiniDB.Relational
