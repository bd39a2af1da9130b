import MiniDB.Parser.Parser

/-!
# The grammar of statements

The grammar that the parser's documentation gives in EBNF, with CREATE INDEX, DROP INDEX and the
semicolon at the end, as languages of tokens with values.  A rule is written as a `do` block, its
alternatives with `either` and its optional parts with `opt`; `*` in parentheses is a list with
separators.  Statements are defined without their first word, which `statement` puts before them.
Numbers have the value of their library conversion, and there is no text where that fails.

Expressions are an inductive relation over the four levels of the grammar.  Its constructors are the
rules, so the relation says how operators bind: AND and OR are left-associative, the operands of AND are
comparisons, and those of a comparison are primaries.
-/

namespace MiniDB.Sql

open Grammar Lang MiniDB.Parser

/-- A part of a statement. -/
abbrev Text (α : Type) : Type := Lang Token α

def ident : Text Str := tokenOf .identifier fun t => some t.lexeme

/-- A word that stands for a value. -/
def word {α : Type} (k : TokenType) (a : α) : Text α := do token k; pure a

/-- An integer token, with what it is converted to. -/
def int {α : Type} (conversion : Str → Option α) : Text α :=
  tokenOf .intLiteral fun t => conversion t.lexeme

/-! ### Definitions -/

/-- The length is 255 unless it is given. -/
def columnType : Text (ColumnType × UInt16) :=
  either (word .int (.int, 255)) <|
  either (word .bigInt (.bigInt, 255)) <|
  either (word .double (.double, 255)) <|
  either (word .boolean (.bool, 255)) do
    token .varchar
    let length ← opt do
      token .lParen
      let n ← int fun s => (stoul s).map UInt64.toUInt16
      token .rParen
      pure n
    pure (.varchar, length.getD 255)

def columnDef : Text Column := do
  let name ← ident
  let (type, maxLength) ← columnType
  let notNull ← opt do
    token .not
    token .null
  pure ⟨name, type, notNull.isNone, maxLength⟩

/-- A table with these columns, of which there is one at least. -/
def tableWith (tableName : Str) (columns : List Column) : Text Statement := fun ts stmt =>
  ts = [] ∧ ∃ h, stmt = .createTable ⟨tableName, columns, h⟩

def createTable : Text Statement := do
  token .table
  let tableName ← ident
  token .lParen
  let columns ← sepBy1 columnDef .comma
  token .rParen
  tableWith tableName columns

def dropTable : Text Statement := do
  token .table
  let tableName ← ident
  pure (.dropTable tableName)

def createIndex : Text Statement := do
  token .index
  let indexName ← ident
  token .on
  let tableName ← ident
  token .lParen
  let columnName ← ident
  token .rParen
  pure (.createIndex ⟨indexName, tableName, columnName⟩)

def dropIndex : Text Statement := do
  token .index
  let indexName ← ident
  pure (.dropIndex indexName)

/-! ### Literals and expressions -/

variable [FloatConversion]

def literal : Text Value :=
  either (word .null .null) <| either (word .true (.bool true)) <| either (word .false (.bool false)) <|
  either (int fun s => (stoll s).map .int64) <|
  either (tokenOf .floatLiteral fun t => (stod t.lexeme).map .double)
    (tokenOf .stringLiteral fun t => some (.string t.lexeme))

def comparisonOperator : Text BinaryOp :=
  either (word .eq .eq) <| either (word .neq .neq) <| either (word .lt .lt) <| either (word .lte .lte) <|
  either (word .gt .gt) (word .gte .gte)

/-- The levels of expressions. -/
inductive Level
  | primary
  | comparison
  | andExpr
  | orExpr

/-- These tokens are an expression of that level. -/
inductive Derives : Level → List Token → Expr → Prop
  | paren {l r : Token} {ts : List Token} {e : Expr} : l.type = .lParen → Derives .orExpr ts e →
      r.type = .rParen → Derives .primary (l :: (ts ++ [r])) e
  | column {ts : List Token} {name : Str} : ident ts name → Derives .primary ts (.column name)
  | literal {ts : List Token} {v : Value} : literal ts v → Derives .primary ts (.literal v)
  | ofPrimary {ts : List Token} {e : Expr} : Derives .primary ts e → Derives .comparison ts e
  | compare {ts ts' : List Token} {t : Token} {l r : Expr} {op : BinaryOp} : Derives .primary ts l →
      comparisonOperator [t] op → Derives .primary ts' r →
      Derives .comparison (ts ++ t :: ts') (.binary l op r)
  | ofComparison {ts : List Token} {e : Expr} : Derives .comparison ts e → Derives .andExpr ts e
  | and {ts ts' : List Token} {t : Token} {l r : Expr} : Derives .andExpr ts l → t.type = .and →
      Derives .comparison ts' r → Derives .andExpr (ts ++ t :: ts') (.binary l .and r)
  | ofAnd {ts : List Token} {e : Expr} : Derives .andExpr ts e → Derives .orExpr ts e
  | or {ts ts' : List Token} {t : Token} {l r : Expr} : Derives .orExpr ts l → t.type = .or →
      Derives .andExpr ts' r → Derives .orExpr (ts ++ t :: ts') (.binary l .or r)

/-- The expressions of a level. -/
def expr (level : Level) : Text Expr := Derives level

def whereClause : Text (Option Expr) := opt do
  token .where
  expr .orExpr

/-! ### Rows -/

def tuple : Text Row := do
  token .lParen
  let row ← sepBy1 literal .comma
  token .rParen
  pure row

def insertColumns : Text (List Str) := do
  let columns ← opt do
    token .lParen
    let columns ← sepBy1 ident .comma
    token .rParen
    pure columns
  pure (columns.getD [])

def insert : Text Statement := do
  token .into
  let tableName ← ident
  let columns ← insertColumns
  token .values
  let rows ← sepBy1 tuple .comma
  pure (.insert ⟨tableName, columns, rows⟩)

def assignment : Text (Str × Value) := do
  let col ← ident
  token .eq
  let v ← literal
  pure (col, v)

def update : Text Statement := do
  let tableName ← ident
  token .set
  let assignments ← sepBy1 assignment .comma
  let where? ← whereClause
  pure (.update ⟨tableName, assignments, where?⟩)

def delete : Text Statement := do
  token .from
  let tableName ← ident
  let where? ← whereClause
  pure (.delete ⟨tableName, where?⟩)

/-! ### Queries -/

def aggregateFunc : Text AggregateFunc :=
  either (word .count .count) <| either (word .sum .sum) <| either (word .avg .avg) <|
  either (word .min .min) (word .max .max)

/-- `*` stands only inside of COUNT. -/
def aggregateColumn (agg : AggregateFunc) : Text (Option Str) :=
  either (do token .star; if agg = .count then pure none else never) (some <$> ident)

def itemAlias : Text (Option Str) := opt do
  token .as
  ident

def aggregate : Text SelectItem := do
  let agg ← aggregateFunc
  token .lParen
  let column? ← aggregateColumn agg
  token .rParen
  let alias? ← itemAlias
  pure (.aggregate (column?.elim (.countStar alias?) fun column => .ofColumn agg column alias?))

def plainItem : Text SelectItem := do
  let column ← ident
  let alias? ← itemAlias
  pure (.plain column alias?)

def selectItem : Text SelectItem := either aggregate plainItem

def selectList : Text SelectList :=
  either (word .star .star) (.items <$> sepBy1 selectItem .comma)

/-- Is the order descending? -/
def direction : Text Bool :=
  either (word .desc true) (either (word .asc false) (pure false))

def orderBy : Text (Option OrderByClause) := opt do
  token .order
  token .by
  let col ← ident
  let desc ← direction
  pure ⟨col, desc⟩

def limit : Text (Option Int64) := opt do
  token .limit
  int stoll

def select : Text Statement := do
  let items ← selectList
  token .from
  let tableName ← ident
  let where? ← whereClause
  let order ← orderBy
  let n ← limit
  pure (.select ⟨items, tableName, where?, order, n⟩)

/-! ### Statements -/

def statement : Text Statement :=
  either (do token .select; select) <|
  either (do token .insert; insert) <|
  either (do token .update; update) <|
  either (do token .delete; delete) <|
  either (do token .create; either createTable createIndex)
    (do token .drop; either dropTable dropIndex)

/-- What stands before the end of the input. -/
def input : Text Statement := do
  let stmt ← statement
  let _ ← opt (token .semicolon)
  pure stmt

end MiniDB.Sql
