import MiniDB.Lib.Grammar
import MiniDB.Parser.Ast
import MiniDB.Parser.Tokenizer

/-!
# Parser

`parser::Parser` reads a vector of tokens from left to right.  `tokens_` and `pos_` are modelled by the
tokens that are left, so a `Peek` or an `Advance` behind the last one is an access outside of the vector.
Each loop runs for as many rounds as there are tokens, and so does the recursion through parentheses; one
that needed more would be a fault.

The numeric conversions are those of the standard library: `stoll` and `stoul` are modelled as they read
their text, `stod` is a parameter.
-/

namespace MiniDB

open Paged Effect Grammar
open Grammar.Parser (peek advance check matchToken require sepLoop chainLoop rounds)

instance : Tokens Token TokenType where
  kind := Token.type
  stop := .endOfInput

/-- The functions of `parser::Parser`. -/
abbrev Parse (α : Type) : Type := Grammar.Parser Status Token α

/-! ### Conversions -/

/-- `std::isspace` in the C locale. -/
def isSpace (c : UInt8) : Bool := c == byte ' ' || (9 ≤ c && c ≤ 13)

/-- The digits of a decimal number. -/
def digitsValue (digits : Str) : Nat :=
  digits.foldl (fun n d => 10 * n + (d.toNat - (byte '0').toNat)) 0

/-- How `strtoll` and `strtoull` read a text: blanks, a sign and digits; what follows is ignored. -/
def readInteger (s : Str) : Option (Bool × Nat) :=
  let s := s.dropWhile isSpace
  let negative := s.head? == some (byte '-')
  let s := if negative || s.head? == some (byte '+') then s.tail else s
  let digits := s.takeWhile Lexer.isDigit
  if digits.isEmpty then none else some (negative, digitsValue digits)

/-- `std::stoll`; `none` where it throws. -/
def stoll (s : Str) : Option Int64 :=
  (readInteger s).bind fun (negative, n) =>
    let v : Int := if negative then -n else n
    if Int64.minValue.toInt ≤ v ∧ v ≤ Int64.maxValue.toInt then some (Int64.ofInt v) else none

/-- `std::stoul`, which negates without a sign; `none` where it throws. -/
def stoul (s : Str) : Option UInt64 :=
  (readInteger s).bind fun (negative, n) =>
    if n < 2 ^ 64 then some (if negative then -UInt64.ofNat n else UInt64.ofNat n) else none

/-- `std::stod`; `none` where it throws. -/
class FloatConversion where
  stod : Str → Option Double

export FloatConversion (stod)

/-! ### Errors -/

/-- `Status::InvalidArgument`. -/
def invalidSyntax (message : Str) : Status := ⟨.invalidArgument, message⟩

/-- An error that ends with the kind of the next token. -/
def got (message : String) (tok : Token) : Status := invalidSyntax (lit message ++ tokenTypeName tok.type)

namespace Parser

/-- `Expect`. -/
def expect (t : TokenType) (context : String) : Parse Unit := do
  let _ ← require t fun tok => invalidSyntax <|
    lit "expected " ++ tokenTypeName t ++ lit " in " ++ lit context ++ lit ", got " ++
      tokenTypeName tok.type ++
      if tok.lexeme.isEmpty then [] else lit " ('" ++ tok.lexeme ++ lit "')"

/-- The lexeme of a token that has to be an identifier. -/
def identifierOr (err : Token → Status) : Parse Str := do
  let tok ← require .identifier err
  return tok.lexeme

/-- A conversion that throws is an error. -/
def converted {α : Type} (r : Option α) (err : Status) : Result α :=
  match r with
  | some a => .ok a
  | none => .error err

/-! ### Definitions -/

/-- `max_length` without a length. -/
def defaultLength : UInt16 := 255

/-- The length of `VARCHAR(n)`. -/
def parseLength : Parse UInt16 := do
  if ← check .intLiteral then
    let tok ← advance
    Action.ofResult (converted ((stoul tok.lexeme).map UInt64.toUInt16)
      (invalidSyntax (lit "invalid VARCHAR length")))
  else
    throw (invalidSyntax (lit "expected integer length in VARCHAR(n)"))

/-- The type of `ParseColumnDef`, with `max_length`. -/
def parseColumnType : Parse (ColumnType × UInt16) := do
  let tok ← peek
  match tok.type with
  | .int => do
    let _ ← advance
    return (.int, defaultLength)
  | .bigInt => do
    let _ ← advance
    return (.bigInt, defaultLength)
  | .double => do
    let _ ← advance
    return (.double, defaultLength)
  | .boolean => do
    let _ ← advance
    return (.bool, defaultLength)
  | .varchar => do
    let _ ← advance
    if ← matchToken .lParen then
      let maxLength ← parseLength
      expect .rParen "VARCHAR length"
      return (.varchar, maxLength)
    else
      return (.varchar, defaultLength)
  | _ => throw (got "expected a column type (INT/BIGINT/DOUBLE/BOOLEAN/VARCHAR), got " tok)

/-- `ParseColumnDef`. -/
def parseColumnDef : Parse Column := do
  let name ← identifierOr (got "expected column name, got ")
  let (type, maxLength) ← parseColumnType
  if ← matchToken .not then
    expect .null "NOT"
    return ⟨name, type, false, maxLength⟩
  else
    return ⟨name, type, true, maxLength⟩

/-- `ParseCreateTable`. -/
def parseCreateTable : Parse Statement := do
  expect .table "CREATE TABLE"
  let tableName ← identifierOr fun _ => invalidSyntax (lit "expected table name after CREATE TABLE")
  expect .lParen "CREATE TABLE"
  let columns ← rounds >>= sepLoop .comma parseColumnDef
  expect .rParen "CREATE TABLE column list"
  if h : columns = [] then
    throw (invalidSyntax (lit "CREATE TABLE requires at least one column"))
  else
    return .createTable ⟨tableName, columns, h⟩

/-- `ParseDropTable`. -/
def parseDropTable : Parse Statement := do
  expect .table "DROP TABLE"
  let tableName ← identifierOr fun _ => invalidSyntax (lit "expected table name after DROP TABLE")
  return .dropTable tableName

/-- `ParseCreateIndex`. -/
def parseCreateIndex : Parse Statement := do
  expect .index "CREATE INDEX"
  let indexName ← identifierOr fun _ => invalidSyntax (lit "expected index name after CREATE INDEX")
  expect .on "CREATE INDEX"
  let tableName ← identifierOr fun _ => invalidSyntax (lit "expected table name after ON")
  expect .lParen "CREATE INDEX"
  let columnName ← identifierOr fun _ => invalidSyntax (lit "expected column name in CREATE INDEX")
  expect .rParen "CREATE INDEX"
  return .createIndex ⟨indexName, tableName, columnName⟩

/-- `ParseDropIndex`. -/
def parseDropIndex : Parse Statement := do
  expect .index "DROP INDEX"
  let indexName ← identifierOr fun _ => invalidSyntax (lit "expected index name after DROP INDEX")
  return .dropIndex indexName

/-! ### Literals and INSERT -/

variable [FloatConversion]

/-- `ParseLiteral`. -/
def parseLiteral : Parse Value := do
  if ← matchToken .null then
    return .null
  else if ← matchToken .true then
    return .bool true
  else if ← matchToken .false then
    return .bool false
  else if ← check .intLiteral then
    let tok ← advance
    Action.ofResult (converted ((stoll tok.lexeme).map .int64)
      (invalidSyntax (lit "invalid integer literal '" ++ tok.lexeme ++ lit "'")))
  else if ← check .floatLiteral then
    let tok ← advance
    Action.ofResult (converted ((stod tok.lexeme).map .double)
      (invalidSyntax (lit "invalid float literal '" ++ tok.lexeme ++ lit "'")))
  else if ← check .stringLiteral then
    let tok ← advance
    return .string tok.lexeme
  else
    let tok ← peek
    throw (got "expected a literal value, got " tok)

/-- The column list of `ParseInsert`. -/
def parseInsertColumns : Parse (List Str) := do
  if ← matchToken .lParen then
    let columns ← rounds >>= sepLoop .comma
      (identifierOr fun _ => invalidSyntax (lit "expected column name in INSERT column list"))
    expect .rParen "INSERT column list"
    return columns
  else
    return []

/-- A row of `ParseInsert`. -/
def parseTuple : Parse Row := do
  expect .lParen "INSERT VALUES"
  let row ← rounds >>= sepLoop .comma parseLiteral
  expect .rParen "INSERT VALUES tuple"
  return row

/-- `ParseInsert`. -/
def parseInsert : Parse Statement := do
  expect .into "INSERT"
  let tableName ← identifierOr fun _ => invalidSyntax (lit "expected table name after INSERT INTO")
  let columns ← parseInsertColumns
  expect .values "INSERT"
  let rows ← rounds >>= sepLoop .comma parseTuple
  return .insert ⟨tableName, columns, rows⟩

/-! ### Expressions -/

/-- `ParsePrimary`. -/
def parsePrimary (parseOrExpr : Parse Expr) : Parse Expr := do
  if ← matchToken .lParen then
    let inner ← parseOrExpr
    expect .rParen "parenthesized expression"
    return inner
  else if ← check .identifier then
    let tok ← advance
    return .column tok.lexeme
  else
    let v ← parseLiteral
    return .literal v

/-- The operator of a comparison. -/
def comparisonOp : TokenType → Option BinaryOp
  | .eq => some .eq
  | .neq => some .neq
  | .lt => some .lt
  | .lte => some .lte
  | .gt => some .gt
  | .gte => some .gte
  | _ => none

/-- `ParseComparison`. -/
def parseComparison (parseOrExpr : Parse Expr) : Parse Expr := do
  let left ← parsePrimary parseOrExpr
  let tok ← peek
  match comparisonOp tok.type with
  | some op => do
    let _ ← advance
    let right ← parsePrimary parseOrExpr
    return .binary left op right
  | none => return left

/-- `ParseAndExpr`. -/
def parseAndExpr (parseOrExpr : Parse Expr) : Parse Expr := do
  let left ← parseComparison parseOrExpr
  let n ← rounds
  chainLoop .and (fun l r => .binary l .and r) (parseComparison parseOrExpr) n left

/-- `ParseOrExpr`. -/
def parseOrExpr : Nat → Parse Expr
  | 0 => Action.die .noFuel
  | fuel + 1 => do
    let left ← parseAndExpr (parseOrExpr fuel)
    let n ← rounds
    chainLoop .or (fun l r => .binary l .or r) (parseAndExpr (parseOrExpr fuel)) n left

/-- `ParseWhereClause`, where the statement has one. -/
def parseWhereClause : Parse (Option Expr) := do
  if ← check .where then
    expect .where "WHERE"
    let w ← rounds >>= parseOrExpr
    return some w
  else
    return none

/-! ### UPDATE and DELETE -/

/-- An assignment of `ParseUpdate`. -/
def parseAssignment : Parse (Str × Value) := do
  let col ← identifierOr fun _ => invalidSyntax (lit "expected column name in UPDATE SET clause")
  expect .eq "UPDATE SET"
  let v ← parseLiteral
  return (col, v)

/-- `ParseUpdate`. -/
def parseUpdate : Parse Statement := do
  let tableName ← identifierOr fun _ => invalidSyntax (lit "expected table name after UPDATE")
  expect .set "UPDATE"
  let assignments ← rounds >>= sepLoop .comma parseAssignment
  let where? ← parseWhereClause
  return .update ⟨tableName, assignments, where?⟩

/-- `ParseDelete`. -/
def parseDelete : Parse Statement := do
  expect .from "DELETE"
  let tableName ← identifierOr fun _ => invalidSyntax (lit "expected table name after DELETE FROM")
  let where? ← parseWhereClause
  return .delete ⟨tableName, where?⟩

/-! ### SELECT -/

/-- `AggregateForToken`. -/
def aggregateForToken : TokenType → Option AggregateFunc
  | .count => some .count
  | .sum => some .sum
  | .avg => some .avg
  | .min => some .min
  | .max => some .max
  | _ => none

/-- The alias of a select item. -/
def parseAlias : Parse (Option Str) := do
  if ← matchToken .as then
    let name ← identifierOr fun _ => invalidSyntax (lit "expected alias name after AS")
    return some name
  else
    return none

/-- What stands inside of an aggregate: nothing for `*`. -/
def parseAggregateColumn (agg : AggregateFunc) : Parse (Option Str) := do
  if ← matchToken .star then
    if agg ≠ .count then
      throw (invalidSyntax (lit "'*' is only valid inside COUNT(...)"))
    else
      return none
  else
    let column ← identifierOr fun _ =>
      invalidSyntax (lit "expected column name or '*' inside aggregate function")
    return some column

/-- The aggregate item of a column, or of `*`. -/
def aggregateItem (agg : AggregateFunc) (column? alias? : Option Str) : AggregateItem :=
  match column? with
  | some column => .ofColumn agg column alias?
  | none => .countStar alias?

/-- The part of `ParseSelectItem` behind the name of an aggregate. -/
def parseAggregate (agg : AggregateFunc) : Parse SelectItem := do
  expect .lParen "aggregate function"
  let column? ← parseAggregateColumn agg
  expect .rParen "aggregate function"
  let alias? ← parseAlias
  return .aggregate (aggregateItem agg column? alias?)

/-- The part of `ParseSelectItem` for a column. -/
def parsePlainItem : Parse SelectItem := do
  let column ← identifierOr (got "expected a column name or aggregate function in SELECT list, got ")
  let alias? ← parseAlias
  return .plain column alias?

/-- `ParseSelectItem`. -/
def parseSelectItem : Parse SelectItem := do
  let tok ← peek
  match aggregateForToken tok.type with
  | some agg => do
    let _ ← advance
    parseAggregate agg
  | none => parsePlainItem

/-- The items of `ParseSelect`. -/
def parseSelectList : Parse SelectList := do
  if ← matchToken .star then
    return .star
  else
    let items ← rounds >>= sepLoop .comma parseSelectItem
    return .items items

/-- The direction of ORDER BY: is it descending? -/
def parseDirection : Parse Bool := do
  if ← matchToken .desc then
    return true
  else if ← matchToken .asc then
    return false
  else
    return false

/-- The ORDER BY clause of `ParseSelect`. -/
def parseOrderBy : Parse (Option OrderByClause) := do
  if ← matchToken .order then
    expect .by "ORDER"
    let col ← identifierOr fun _ => invalidSyntax (lit "expected column name after ORDER BY")
    let desc ← parseDirection
    return some ⟨col, desc⟩
  else
    return none

/-- The LIMIT clause of `ParseSelect`. -/
def parseLimit : Parse (Option Int64) := do
  if ← matchToken .limit then
    if ← check .intLiteral then
      let tok ← advance
      Action.ofResult (converted ((stoll tok.lexeme).map some)
        (invalidSyntax (lit "invalid LIMIT value")))
    else
      throw (invalidSyntax (lit "expected integer after LIMIT"))
  else
    return none

/-- `ParseSelect`. -/
def parseSelect : Parse Statement := do
  let items ← parseSelectList
  expect .from "SELECT"
  let tableName ← identifierOr fun _ => invalidSyntax (lit "expected table name after FROM")
  let where? ← parseWhereClause
  let orderBy ← parseOrderBy
  let limit ← parseLimit
  return .select ⟨items, tableName, where?, orderBy, limit⟩

/-! ### Statements -/

/-- What `CREATE` and `DROP` are followed by. -/
def parseTableOrIndex (message : String) (ofTable ofIndex : Parse Statement) : Parse Statement := do
  if ← check .table then
    ofTable
  else if ← check .index then
    ofIndex
  else
    let tok ← peek
    throw (got message tok)

/-- The `switch` of `ParseStatement`. -/
def parseStatementBody : Parse Statement := do
  let tok ← peek
  match tok.type with
  | .select => do
    let _ ← advance
    parseSelect
  | .insert => do
    let _ ← advance
    parseInsert
  | .update => do
    let _ ← advance
    parseUpdate
  | .delete => do
    let _ ← advance
    parseDelete
  | .create => do
    let _ ← advance
    parseTableOrIndex "expected TABLE or INDEX after CREATE, got " parseCreateTable parseCreateIndex
  | .drop => do
    let _ ← advance
    parseTableOrIndex "expected TABLE or INDEX after DROP, got " parseDropTable parseDropIndex
  | _ =>
    throw (got "expected a statement (SELECT/INSERT/UPDATE/DELETE/CREATE/DROP), got " tok)

/-- The end of `ParseStatement`: nothing stands behind the statement but a semicolon. -/
def parseEnd (result : Statement) : Parse Statement := do
  let _ ← matchToken .semicolon
  if ← check .endOfInput then
    return result
  else
    let tok ← peek
    throw (invalidSyntax (lit "unexpected trailing tokens starting at '" ++ tok.lexeme ++ lit "'"))

/-- `ParseStatement`. -/
def parseStatement : Parse Statement := do
  if ← check .endOfInput then
    throw (invalidSyntax (lit "empty statement"))
  else
    let result ← parseStatementBody
    parseEnd result

/-- `ParseSQL`. -/
def parseSQL (sql : Str) : Fallible Statement := do
  let tokens ← Tokenizer.tokenizeAll sql
  match parseStatement.exec tokens with
  | .ok (r, _) => Checked.ofResult r
  | .error fault => Checked.die fault

end Parser

end MiniDB
