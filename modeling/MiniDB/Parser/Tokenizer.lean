import MiniDB.Parser.Token

/-!
# Tokenizer

`Tokenizer` reads its source from left to right, one byte ahead.  A `Lexer` is modelled by what is left
of the source and the position where that starts, so that the scan loops recurse on what is left.  An
`Advance` at the end of the source would be an access outside of it, and the two loops that are not
bounded by a scan (over gaps, and over tokens) have a number of rounds; both would be faults.
-/

namespace MiniDB

open Paged Effect

/-- The byte of an ASCII character. -/
def byte (c : Char) : UInt8 := UInt8.ofNat c.toNat

/-- The byte of the line feed. -/
def newline : UInt8 := 10

/-- The byte of the single quote. -/
def quote : UInt8 := 39

/-- `parser::Lexer`: the unread part of the source, and its position. -/
structure Lexer where
  rest : Str
  pos : Nat
  deriving DecidableEq, Repr

namespace Lexer

/-- `AtEnd`. -/
def atEnd (l : Lexer) : Bool := l.rest.isEmpty

/-- `Peek`, which is 0 at the end. -/
def peek (l : Lexer) : UInt8 := l.rest.headD 0

/-- `PeekNext`. -/
def peekNext (l : Lexer) : UInt8 := l.rest.tail.headD 0

/-- `Advance`. -/
def advance (l : Lexer) : Fallible (UInt8 × Lexer) :=
  match l.rest with
  | [] => Checked.die .outOfBounds
  | c :: rest => return (c, ⟨rest, l.pos + 1⟩)

/-- `IsDigit`. -/
def isDigit (c : UInt8) : Bool := byte '0' ≤ c && c ≤ byte '9'

/-- `IsAlpha`. -/
def isAlpha (c : UInt8) : Bool :=
  (byte 'a' ≤ c && c ≤ byte 'z') || (byte 'A' ≤ c && c ≤ byte 'Z') || c == byte '_'

/-- `IsAlphaNumeric`. -/
def isAlphaNumeric (c : UInt8) : Bool := isAlpha c || isDigit c

/-- `IsWhitespace`: blank, tab, carriage return or line feed. -/
def isWhitespace (c : UInt8) : Bool := c == byte ' ' || c == 9 || c == 13 || c == newline

/-- The loop `while (!AtEnd() && p(Peek())) Advance()`: the bytes it reads, and the lexer behind them. -/
def advanceWhile (p : UInt8 → Bool) : Str → Nat → Str × Lexer
  | [], pos => ([], ⟨[], pos⟩)
  | c :: rest, pos =>
    if p c then
      let (read, l) := advanceWhile p rest (pos + 1)
      (c :: read, l)
    else ([], ⟨c :: rest, pos⟩)

end Lexer

namespace Tokenizer

open Lexer

/-- `KeywordTable`. -/
def keywordTable : List (Str × TokenType) := [
  (lit "SELECT", .select), (lit "FROM", .«from»), (lit "WHERE", .where),
  (lit "INSERT", .insert), (lit "INTO", .into), (lit "VALUES", .values),
  (lit "UPDATE", .update), (lit "SET", .set), (lit "DELETE", .delete),
  (lit "CREATE", .create), (lit "TABLE", .table), (lit "DROP", .drop),
  (lit "ORDER", .order), (lit "BY", .«by»), (lit "ASC", .asc),
  (lit "DESC", .desc), (lit "LIMIT", .limit), (lit "AND", .and),
  (lit "OR", .or), (lit "NOT", .not), (lit "NULL", .null),
  (lit "TRUE", .true), (lit "FALSE", .false), (lit "AS", .as),
  (lit "INDEX", .index), (lit "ON", .on), (lit "INT", .int),
  (lit "INTEGER", .int), (lit "BIGINT", .bigInt), (lit "DOUBLE", .double),
  (lit "BOOLEAN", .boolean), (lit "BOOL", .boolean), (lit "VARCHAR", .varchar),
  (lit "TEXT", .varchar), (lit "COUNT", .count), (lit "SUM", .sum),
  (lit "AVG", .avg), (lit "MIN", .min), (lit "MAX", .max)]

/-- `std::toupper` in the C locale. -/
def toUpperByte (c : UInt8) : UInt8 := if byte 'a' ≤ c && c ≤ byte 'z' then c - 32 else c

/-- `ToUpper`. -/
def toUpper (s : Str) : Str := s.map toUpperByte

/-- `SkipWhitespaceAndComments`. -/
def skipWhitespaceAndComments : Nat → Lexer → Fallible Lexer
  | 0, _ => Checked.die .noFuel
  | fuel + 1, l => do
    if l.atEnd then
      return l
    else if isWhitespace l.peek then
      let (_, l') ← l.advance
      skipWhitespaceAndComments fuel l'
    else if l.peek = byte '-' ∧ l.peekNext = byte '-' then
      -- the newline is left to the next round
      skipWhitespaceAndComments fuel (advanceWhile (· != newline) l.rest l.pos).2
    else
      return l

/-- `ScanNumber`. -/
def scanNumber (l : Lexer) : Fallible (Token × Lexer) := do
  let (whole, l₁) := advanceWhile isDigit l.rest l.pos
  if l₁.atEnd = false ∧ l₁.peek = byte '.' ∧ isDigit l₁.peekNext = true then
    let (dot, l₂) ← l₁.advance
    let (fraction, l₃) := advanceWhile isDigit l₂.rest l₂.pos
    return (⟨.floatLiteral, whole ++ dot :: fraction, l.pos⟩, l₃)
  else
    return (⟨.intLiteral, whole, l.pos⟩, l₁)

/-- The answer to a string literal that does not end. -/
def unterminated (start : Nat) : Status :=
  ⟨.invalidArgument, lit "unterminated string literal starting at position " ++ lit (toString start)⟩

/-- The loop of `ScanString` behind the opening quote: the value, and the lexer behind the literal. -/
def scanStringLoop (start : Nat) : Str → Nat → Result (Str × Lexer)
  | [], _ => .error (unterminated start)
  | [c], pos => if c = quote then .ok ([], ⟨[], pos + 1⟩) else .error (unterminated start)
  | c :: d :: rest, pos =>
    if c = quote then
      -- a doubled quote stands for one
      if d = quote then do
        let (value, l) ← scanStringLoop start rest (pos + 2)
        return (quote :: value, l)
      else .ok ([], ⟨d :: rest, pos + 1⟩)
    else do
      let (value, l) ← scanStringLoop start (d :: rest) (pos + 1)
      return (c :: value, l)

/-- `ScanString`. -/
def scanString (l : Lexer) : Fallible (Token × Lexer) := do
  let (_, l₁) ← l.advance
  let (value, l₂) ← Checked.ofResult (scanStringLoop l.pos l₁.rest l₁.pos)
  return (⟨.stringLiteral, value, l.pos⟩, l₂)

/-- The type of a word. -/
def wordType (lexeme : Str) : TokenType := (keywordTable.lookup (toUpper lexeme)).getD .identifier

/-- `ScanIdentifierOrKeyword`. -/
def scanIdentifierOrKeyword (l : Lexer) : Token × Lexer :=
  let (lexeme, l₁) := advanceWhile isAlphaNumeric l.rest l.pos
  (⟨wordType lexeme, lexeme, l.pos⟩, l₁)

/-- The `switch` of `ScanOperatorOrPunctuation`: the type of a token that starts with `c`, and whether the
byte `next` behind it is part of the token.  There is no such byte if `next` is `none`. -/
def operatorType (c : UInt8) (next : Option UInt8) : TokenType × Bool :=
  if c = byte '*' then (.star, false)
  else if c = byte ',' then (.comma, false)
  else if c = byte '(' then (.lParen, false)
  else if c = byte ')' then (.rParen, false)
  else if c = byte ';' then (.semicolon, false)
  else if c = byte '.' then (.dot, false)
  else if c = byte '=' then (.eq, false)
  else if c = byte '!' then
    if next = some (byte '=') then (.neq, true) else (.invalid, false)
  else if c = byte '<' then
    if next = some (byte '=') then (.lte, true)
    else if next = some (byte '>') then (.neq, true) else (.lt, false)
  else if c = byte '>' then
    if next = some (byte '=') then (.gte, true) else (.gt, false)
  else (.invalid, false)

/-- `ScanOperatorOrPunctuation`. -/
def scanOperatorOrPunctuation (l : Lexer) : Fallible (Token × Lexer) := do
  let (c, l₁) ← l.advance
  let (type, two) := operatorType c l₁.rest.head?
  if two then
    let (d, l₂) ← l₁.advance
    return (⟨type, [c, d], l.pos⟩, l₂)
  else
    return (⟨type, [c], l.pos⟩, l₁)

/-- The answer to a byte no token starts with. -/
def unexpected (tok : Token) : Status :=
  ⟨.invalidArgument, lit "unexpected character '" ++ tok.lexeme ++ lit "' at position "
    ++ lit (toString tok.position)⟩

/-- `NextToken` behind the gap. -/
def scanToken (l : Lexer) : Fallible (Token × Lexer) := do
  if l.atEnd then
    return (⟨.endOfInput, [], l.pos⟩, l)
  else if isDigit l.peek then
    scanNumber l
  else if isAlpha l.peek then
    return scanIdentifierOrKeyword l
  else if l.peek = quote then
    scanString l
  else
    let (tok, l₁) ← scanOperatorOrPunctuation l
    if tok.type = .invalid then
      throw (unexpected tok)
    else
      return (tok, l₁)

/-- `NextToken`. -/
def nextToken (l : Lexer) : Fallible (Token × Lexer) := do
  let l₁ ← skipWhitespaceAndComments (l.rest.length + 1) l
  scanToken l₁

/-- The loop of `TokenizeAll`. -/
def tokenizeLoop : Nat → Lexer → Fallible (List Token)
  | 0, _ => Checked.die .noFuel
  | fuel + 1, l => do
    let (tok, l₁) ← nextToken l
    if tok.type = .endOfInput then
      return [tok]
    else
      let rest ← tokenizeLoop fuel l₁
      return tok :: rest

/-- `TokenizeAll`. -/
def tokenizeAll (source : Str) : Fallible (List Token) :=
  tokenizeLoop (source.length + 1) ⟨source, 0⟩

end Tokenizer

end MiniDB
