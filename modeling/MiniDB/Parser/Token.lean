import MiniDB.Utilities.Status

/-!
# Tokens

The kinds of tokens, with the names that error messages call them by.
-/

namespace MiniDB

/-- `parser::TokenType`. -/
inductive TokenType
  | identifier
  | intLiteral
  | floatLiteral
  | stringLiteral
  | select
  | «from»
  | where
  | insert
  | into
  | values
  | update
  | set
  | delete
  | create
  | table
  | drop
  | order
  | «by»
  | asc
  | desc
  | limit
  | and
  | or
  | not
  | null
  | true
  | false
  | as
  | index
  | on
  | int
  | bigInt
  | double
  | boolean
  | varchar
  | count
  | sum
  | avg
  | min
  | max
  | star
  | comma
  | lParen
  | rParen
  | semicolon
  | dot
  | eq
  | neq
  | lt
  | lte
  | gt
  | gte
  | endOfInput
  | invalid
  deriving DecidableEq, Repr

/-- `TokenTypeName`. -/
def tokenTypeName : TokenType → Str
  | .identifier => lit "identifier"
  | .intLiteral => lit "integer literal"
  | .floatLiteral => lit "float literal"
  | .stringLiteral => lit "string literal"
  | .select => lit "SELECT"
  | .«from» => lit "FROM"
  | .where => lit "WHERE"
  | .insert => lit "INSERT"
  | .into => lit "INTO"
  | .values => lit "VALUES"
  | .update => lit "UPDATE"
  | .set => lit "SET"
  | .delete => lit "DELETE"
  | .create => lit "CREATE"
  | .table => lit "TABLE"
  | .drop => lit "DROP"
  | .order => lit "ORDER"
  | .«by» => lit "BY"
  | .asc => lit "ASC"
  | .desc => lit "DESC"
  | .limit => lit "LIMIT"
  | .and => lit "AND"
  | .or => lit "OR"
  | .not => lit "NOT"
  | .null => lit "NULL"
  | .true => lit "TRUE"
  | .false => lit "FALSE"
  | .as => lit "AS"
  | .index => lit "INDEX"
  | .on => lit "ON"
  | .int => lit "INT"
  | .bigInt => lit "BIGINT"
  | .double => lit "DOUBLE"
  | .boolean => lit "BOOLEAN"
  | .varchar => lit "VARCHAR"
  | .count => lit "COUNT"
  | .sum => lit "SUM"
  | .avg => lit "AVG"
  | .min => lit "MIN"
  | .max => lit "MAX"
  | .star => lit "*"
  | .comma => lit ","
  | .lParen => lit "("
  | .rParen => lit ")"
  | .semicolon => lit ";"
  | .dot => lit "."
  | .eq => lit "="
  | .neq => lit "!="
  | .lt => lit "<"
  | .lte => lit "<="
  | .gt => lit ">"
  | .gte => lit ">="
  | .endOfInput => lit "<end of input>"
  | .invalid => lit "<invalid>"

/-- `parser::Token`. -/
structure Token where
  type : TokenType
  lexeme : Str
  position : Nat
  deriving DecidableEq, Repr

end MiniDB
