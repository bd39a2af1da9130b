import MiniDB.Executor.Executor
import MiniDB.Parser.Parser

/-!
# Result tables

`FormatQueryResult` prints the result of a statement: its message if it has no columns, and otherwise a
table whose columns are as wide as the widest text in them, with a ruler under the names and the number
of rows at the end.  `executeSQL` is how the shell and the server come by a result.
-/

namespace MiniDB.Executor

open Effect MiniDB.Parser

/-! ### Values -/

/-- `std::to_string` of an integer. -/
def toStringInt (n : Int) : Str :=
  if n < 0 then lit "-" ++ toString n.natAbs else toString n.natAbs

/-- `std::to_string` of a double: its value rounded to six places, as `%f` prints it. -/
def toStringDouble (x : Double) : Str :=
  let sign := if x.negative then lit "-" else []
  if x.isNaN then sign ++ lit "nan"
  else if x.isInfinite then sign ++ lit "inf"
  else
    let millionths := Double.roundShift (Double.unitsOf x.magnitude * 10 ^ 6) 1074
    let places := toString (millionths % 10 ^ 6)
    sign ++ toString (millionths / 10 ^ 6) ++ lit "."
      ++ List.replicate (6 - places.length) (byte '0') ++ places

/-- `FormatValue`. -/
def formatValue : Value → Str
  | .null => lit "NULL"
  | .int32 v => toStringInt v.toInt
  | .int64 v => toStringInt v.toInt
  | .double v => toStringDouble v
  | .bool v => if v then lit "true" else lit "false"
  | .string v => v

/-! ### Tables -/

/-- The widths after a row of texts, which may be shorter than the list of columns. -/
def widen : List Nat → List Str → List Nat
  | width :: widths, text :: texts => max width text.length :: widen widths texts
  | widths, _ => widths

/-- `cells`: the texts of each row, no more than there are columns. -/
def cells (result : QueryResult) : List (List Str) :=
  result.rows.map fun row => (row.take result.columnNames.length).map formatValue

/-- `widths`. -/
def widths (result : QueryResult) : List Nat :=
  (cells result).foldl widen (result.columnNames.map List.length)

/-- `pad`.  The source would make a huge string if the text were longer than the width; it never is
(`fits_widths`). -/
def pad (text : Str) (width : Nat) : Str := text ++ List.replicate (width - text.length) (byte ' ')

/-- The texts of a row padded to the widths; a text that is missing is empty. -/
def padRow : List Nat → List Str → List Str
  | [], _ => []
  | width :: widths, texts => pad (texts.headD []) width :: padRow widths texts.tail

/-- A line of a table: its columns with a separator between them. -/
def formatLine (separator : String) (columns : List Str) : Str :=
  (lit separator).intercalate columns ++ [newline]

/-- The last line of a table. -/
def formatFooter (result : QueryResult) : Str :=
  lit "(" ++ toString result.rows.length ++ (if result.rows.length = 1 then lit " row)" else lit " rows)")
    ++ if result.scanStrategy.isEmpty then [] else lit "  [" ++ result.scanStrategy ++ lit "]"

/-- `FormatQueryResult`. -/
def formatQueryResult (result : QueryResult) : Str :=
  if result.columnNames.isEmpty then
    result.message
  else
    formatLine " | " (padRow (widths result) result.columnNames)
      ++ formatLine "-+-" ((widths result).map fun width => List.replicate width (byte '-'))
      ++ (cells result).flatMap (fun row => formatLine " | " (padRow (widths result) row))
      ++ formatFooter result

/-! ### Requests -/

/-- What `ParseSQL` and then `Execute` return. -/
def executeSQL {σ : Type} [IndexPool σ] [FloatConversion] (sql : Str) : Db σ QueryResult := do
  let stmt ← Action.check (parseSQL sql)
  execute stmt

end MiniDB.Executor
