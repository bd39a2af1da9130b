import MiniDB.Parser.SqlGrammar

/-!
# The parser accepts exactly its grammar

For every token list that ends with its only end token, `ParseStatement` returns without an access
outside of the list, and returns a statement just when the tokens before the end are a text of the
grammar that has that statement as its value (`parseStatement_accepts`).

Each function of the parser recognises the language of the same name.  The lemmas follow the order of the
functions; the last argument of `Recognises` but two is the set of kinds that must not follow.  The
expression functions call each other through parentheses, which take two tokens off the input: given
what the inner `ParseOrExpr` does on inputs of `n` tokens, `ParsePrimary` is right on `n + 1`.
-/

namespace MiniDB.Parser

open Effect Grammar Lang Sql
open Effect.Action (exec_bind post post_ok wp wp_bind wp_mono_post wp_of_exec)

variable {C : TokenType → Prop} {n : Nat} {K : List TokenType} {t k : TokenType} {α : Type}
  {ts : List Token} {e : Token}

/-! ### Tokens -/

theorem expect_recognises (ht : t ≠ .endOfInput) (context : String) :
    Recognises C n K (token t) (expect t context) := by
  have h := (Recognises.require (C := C) (n := n) (K := K) ht fun tok : Token => invalidSyntax <|
    lit "expected " ++ tokenTypeName t ++ lit " in " ++ lit context ++ lit ", got " ++
      tokenTypeName tok.type ++
      if tok.lexeme.isEmpty then [] else lit " ('" ++ tok.lexeme ++ lit "')").map fun _ => ()
  rwa [tokenOf_bind_pure] at h

theorem expect_then {context : String} {f : Unit → Lang Token α} {g : Unit → Parse α}
    (ht : t ≠ .endOfInput) (h : Recognises (fun _ => True) n K (f ()) (g ())) :
    Recognises C n K (token t >>= f) (expect t context >>= g) :=
  (expect_recognises ht context).andThen fun _ => h

theorem identifierOr_recognises (err : Token → Status) :
    Recognises C n K ident (identifierOr err) := by
  have h := (Recognises.require (C := C) (n := n) (K := K) (k := TokenType.identifier) (by decide)
    err).map Token.lexeme
  rwa [tokenOf_bind_pure] at h

theorem word_kind {a : α} (t : Token) : word (Tokens.kind t) a [t] a :=
  ⟨[t], (), [], rfl, ⟨t, rfl, rfl, rfl⟩, rfl, rfl⟩

theorem kindAs_of_word {f : TokenType → Option α} {a b : α} (hf : f k = some a) (h : word k a ts b) :
    kindAs f ts b := by
  obtain ⟨_, _, _, rfl, ⟨t, rfl, ht, -⟩, rfl, rfl⟩ := h
  exact ⟨t, rfl, ht ▸ hf⟩

theorem converted_eq_ok {r : Option α} {err : Status} {a : α} :
    converted r err = .ok a ↔ r = some a := by
  cases r <;> simp [converted]

/-! ### Definitions -/

theorem parseLength_recognises :
    Recognises C n K (int fun s => (stoul s).map UInt64.toUInt16) parseLength := by
  rw [int, ← either_never (tokenOf _ _)]
  exact .checkOr (.advanceAs (by decide) fun _ _ => converted_eq_ok) (.throw _) (starts_tokenOf _ _)
    (starts_never []) List.not_mem_nil

theorem columnType_starts :
    columnType.Starts [.int, .bigInt, .double, .boolean, .varchar] :=
  ((starts_token _).bind _).either <| ((starts_token _).bind _).either <|
    ((starts_token _).bind _).either <| ((starts_token _).bind _).either ((starts_token _).bind _)

theorem parseColumnType_recognises : Recognises C n [.lParen] columnType parseColumnType := by
  refine .switch columnType_starts fun t => ?_
  show Recognises (fun k => k = t.type) n [.lParen] (headed t.type columnType) _
  split
  case h_1 h | h_2 h | h_3 h | h_4 h =>
    simp only [columnType, word, headed_either, headed_token_bind, h, reduceCtorEq, if_true, if_false,
      never_either, either_never]
    exact .advance (by decide) (.pure _)
  case h_5 h =>
    simp only [columnType, word, headed_either, headed_token_bind, h, reduceCtorEq, if_true, if_false,
      never_either, opt_bind, bind_assoc, pure_bind]
    refine .advance (by decide) (.matchOpt (by decide) ?_ _ (List.mem_singleton.mpr rfl))
    exact parseLength_recognises.andThen fun _ => expect_then (by decide) <| .pure _
  case h_6 hint hbig hdouble hbool hvarchar =>
    simp only [columnType, word, headed_either, headed_token_bind, if_neg hint, if_neg hbig,
      if_neg hdouble, if_neg hbool, if_neg hvarchar, either_never]
    exact .throw _

theorem parseColumnDef_recognises : Recognises C n [.lParen, .not] columnDef parseColumnDef := by
  refine (identifierOr_recognises _).andThen fun name =>
    parseColumnType_recognises.beforeOpt (S := [.not]) (fun typed => ?_) (fun typed => ?_) (by decide)
      (by decide)
  · simp only [opt_bind, bind_assoc]
    exact .matchOpt (by decide) ((expect_recognises (by decide) _).andThen fun _ => .pure _) _ (by decide)
  · simp only [opt_bind]
    exact (((starts_token _).bind _).bind _).opens.either (opens_pure _)

theorem parseCreateTable_recognises : Recognises C n [] createTable parseCreateTable := by
  refine expect_then (by decide) <| (identifierOr_recognises _).andThen
    fun tableName => expect_then (by decide) <|
    (Recognises.list (by decide) parseColumnDef_recognises (by decide)).before (S := [.rParen])
      (fun columns => expect_then (by decide) <| ?_)
      (fun _ => (starts_token _).bind _) (by decide)
  split
  case isTrue h => exact (Recognises.throw _).widen (fun _ _ h => h.elim) fun _ _ _ _ _ ⟨_, h', _⟩ => h' h
  case isFalse h =>
    refine (Recognises.pure _).widen (fun _ _ ⟨hnil, heq⟩ => ⟨hnil, h, heq⟩) ?_
    rintro _ _ _ _ _ ⟨hnil, _, heq⟩
    exact ⟨hnil, heq⟩

theorem parseDropTable_recognises : Recognises C n [] dropTable parseDropTable :=
  expect_then (by decide) <| (identifierOr_recognises _).andThen fun _ => .pure _

theorem parseCreateIndex_recognises : Recognises C n [] createIndex parseCreateIndex :=
  expect_then (by decide) <| (identifierOr_recognises _).andThen fun _ =>
  expect_then (by decide) <| (identifierOr_recognises _).andThen fun _ =>
  expect_then (by decide) <| (identifierOr_recognises _).andThen fun _ =>
  expect_then (by decide) <| .pure _

theorem parseDropIndex_recognises : Recognises C n [] dropIndex parseDropIndex :=
  expect_then (by decide) <| (identifierOr_recognises _).andThen fun _ => .pure _

/-- The operators of comparisons. -/
def comparisons : List TokenType := [.eq, .neq, .lt, .lte, .gt, .gte]

/-- The operators that may follow an expression and are then part of it. -/
def operators : List TokenType := .or :: .and :: comparisons

/-- The parser's operators are those of the grammar. -/
theorem comparisonOperator_eq : comparisonOperator = kindAs comparisonOp := by
  refine ext fun ts op => ⟨?_, ?_⟩
  · rintro (h | h | h | h | h | h) <;> exact kindAs_of_word rfl h
  · rintro ⟨t, rfl, h⟩
    have hword := word_kind (a := op) t
    unfold comparisonOp at h
    split at h <;> cases h <;> simp_all [comparisonOperator, either]

theorem mem_comparisons {op : BinaryOp} (h : comparisonOp k = some op) : k ∈ comparisons := by
  cases k
  all_goals first | decide | cases h

theorem parseTableOrIndex_recognises {message : String} {L L' : Text Statement}
    {ofTable ofIndex : Parse Statement} (htable : ∀ C, Recognises C n K L ofTable)
    (hindex : ∀ C, Recognises C n K L' ofIndex) (hL : L.Starts [.table]) (hL' : L'.Starts [.index]) :
    Recognises C n K (either L L') (parseTableOrIndex message ofTable ofIndex) := by
  refine .checkOr (htable _) ?_ hL hL' (by decide)
  rw [← either_never L']
  exact .checkOr (hindex _) (.peek fun _ _ => .throw _) hL' (starts_never []) List.not_mem_nil

/-! ### The end of the input -/

/-- The end of the input, or an error. -/
theorem checkEnd_wp (stmt : Statement) (toks : List Token) (hend : Ended toks) (err : Token → Status) :
    wp (fun _ => False) (do
      if ← Grammar.Parser.check .endOfInput then
        return stmt
      else
        let tok ← Grammar.Parser.peek
        throw (err tok) : Parse Statement)
      (post (fun s rest => s = stmt ∧ rest = toks ∧ ∃ e, toks = [e]) fun _ _ => True) toks := by
  obtain ⟨t, rest, rfl⟩ := hend.exists_cons
  rw [wp_bind]
  refine wp_of_exec (Grammar.Parser.exec_check _ t rest) ?_
  by_cases ht : Tokens.kind t = TokenType.endOfInput
  · obtain rfl := hend.eq_nil ht
    rw [post_ok, if_pos (decide_eq_true ht)]
    exact ⟨rfl, rfl, t, rfl⟩
  · rw [post_ok, if_neg fun h => ht (of_decide_eq_true h), wp_bind]
    exact wp_of_exec (Grammar.Parser.exec_peek t rest) trivial

theorem parseEnd_wp (stmt : Statement) {toks : List Token} (hend : Ended toks) :
    wp (fun _ => False) (parseEnd stmt)
      (post (fun s _ => s = stmt ∧ ∃ ts o e, toks = ts ++ [e] ∧ opt (token .semicolon) ts o)
        fun _ _ => True) toks := by
  obtain ⟨t, rest, rfl⟩ := hend.exists_cons
  rw [parseEnd, wp_bind]
  by_cases ht : t.type = .semicolon
  · refine wp_of_exec (Grammar.Parser.exec_matchToken_pos ht rest) ?_
    refine wp_mono_post ?_ (fun _ _ _ => trivial)
      (checkEnd_wp stmt rest (hend.tail fun h => by cases ht.symm.trans h) _)
    rintro s _ ⟨rfl, rfl, e, rfl⟩
    exact ⟨rfl, [t], some (), e, rfl, .inl ⟨[t], (), [], rfl, ⟨t, rfl, ht, rfl⟩, rfl, rfl⟩⟩
  · refine wp_of_exec (Grammar.Parser.exec_matchToken_neg ht rest) ?_
    refine wp_mono_post ?_ (fun _ _ _ => trivial) (checkEnd_wp stmt (t :: rest) hend _)
    rintro s _ ⟨rfl, -, e, he⟩
    exact ⟨rfl, [], none, e, he, .inr ⟨rfl, rfl⟩⟩

theorem parseEnd_exec (stmt : Statement) {o : Option Unit} (hts : opt (token .semicolon) ts o)
    (he : e.type = .endOfInput) : (parseEnd stmt).exec (ts ++ [e]) = .ok (.ok stmt, [e]) := by
  have hkind : Tokens.kind e = TokenType.endOfInput := he
  have hmatch : (Grammar.Parser.matchToken TokenType.semicolon : Parse Bool).exec (ts ++ [e]) =
      .ok (.ok ts.isEmpty.not, [e]) := by
    rcases hts with ⟨_, _, _, rfl, ⟨t, rfl, ht, -⟩, rfl, -⟩ | ⟨rfl, -⟩
    · exact Grammar.Parser.exec_matchToken_pos ht [e]
    · exact Grammar.Parser.exec_matchToken_neg (by rw [hkind]; decide) []
  rw [parseEnd, exec_bind, hmatch]
  show Action.exec (_ >>= _) [e] = _
  rw [exec_bind, Grammar.Parser.exec_check, hkind]
  rfl

/-! ### The parts of SELECT -/

theorem parseAlias_recognises : Recognises C n [.as] itemAlias parseAlias := by
  rw [itemAlias, opt, map_eq_pure_bind, bind_assoc]
  exact .matchOpt (by decide) ((identifierOr_recognises _).map some) none (by decide)

theorem parseAggregateColumn_recognises (agg : AggregateFunc) :
    Recognises C n K (aggregateColumn agg) (parseAggregateColumn agg) := by
  rw [aggregateColumn, map_eq_pure_bind]
  refine .matchOr (by decide) ?_ ((identifierOr_recognises _).map some) ((starts_tokenOf _ _).bind _)
    (by decide)
  by_cases hcount : agg = .count
  · rw [if_pos hcount, if_neg (not_not.mpr hcount)]
    exact .pure none
  · rw [if_neg hcount, if_pos hcount]
    exact .throw _

/-- The parser's aggregate functions are those of the grammar. -/
theorem aggregateFunc_eq : aggregateFunc = kindAs aggregateForToken := by
  refine ext fun ts agg => ⟨?_, ?_⟩
  · rintro (h | h | h | h | h) <;> exact kindAs_of_word rfl h
  · rintro ⟨t, rfl, h⟩
    have hword := word_kind (a := agg) t
    unfold aggregateForToken at h
    split at h <;> cases h <;> simp_all [aggregateFunc, either]

theorem parseAggregate_recognises (agg : AggregateFunc) :
    Recognises C n [.as] (do
      token .lParen
      let column? ← aggregateColumn agg
      token .rParen
      let alias? ← itemAlias
      pure (.aggregate (column?.elim (.countStar alias?) fun column => .ofColumn agg column alias?)))
      (parseAggregate agg) := by
  refine expect_then (by decide) <|
    (parseAggregateColumn_recognises agg).andThen fun column? =>
    expect_then (by decide) <| ?_
  cases column? with
  | none => exact parseAlias_recognises.map fun alias? => SelectItem.aggregate (.countStar alias?)
  | some column =>
    exact parseAlias_recognises.map fun alias? => SelectItem.aggregate (.ofColumn agg column alias?)

theorem parsePlainItem_recognises : Recognises C n [.as] plainItem parsePlainItem :=
  (identifierOr_recognises _).andThen fun _ => parseAlias_recognises.map _

theorem aggregateFunc_starts : aggregateFunc.Starts [.count, .sum, .avg, .min, .max] :=
  ((starts_token _).bind _).either <| ((starts_token _).bind _).either <|
    ((starts_token _).bind _).either <| ((starts_token _).bind _).either ((starts_token _).bind _)

theorem selectItem_starts :
    selectItem.Starts [.count, .sum, .avg, .min, .max, .identifier] :=
  (aggregateFunc_starts.bind _).either ((starts_tokenOf _ _).bind _)

theorem parseSelectItem_recognises : Recognises C n [.as] selectItem parseSelectItem := by
  rw [selectItem, aggregate, aggregateFunc_eq]
  refine .peekAs (h := aggregateForToken) (g := parseAggregate) (q := parsePlainItem) (fun t agg hagg => ?_)
    (fun t hagg => ?_) rfl parseAggregate_recognises parsePlainItem_recognises
    ((starts_tokenOf _ _).bind _).opens (by decide) ?_
  · simp only [show aggregateForToken t.type = some agg from hagg]
  · simp only [show aggregateForToken t.type = none from hagg]
  · rintro ⟨a, _, _, _, hnil, ⟨t, rfl, -⟩, -⟩
    cases hnil

theorem parseSelectList_recognises : Recognises C n [.comma, .as] selectList parseSelectList := by
  rw [selectList, map_eq_pure_bind]
  exact .matchOr (by decide) (.pure _)
    ((Recognises.list (by decide) parseSelectItem_recognises (by decide)).map SelectList.items)
    ((selectItem_starts.sepBy1 _).bind _) (by decide)

theorem parseDirection_recognises : Recognises C n [.desc, .asc] direction parseDirection := by
  cases n with
  | zero => exact .zero
  | succ n =>
    exact .matchToken (by decide) (.pure _) (.matchOpt (by decide) (.pure _) _ (by decide))
      (((starts_token _).bind _).opens.either (opens_pure _)) (by decide) fun _ => by decide

theorem orderBy_eq : orderBy = either (do
    token .order
    token .by
    let col ← ident
    let desc ← direction
    pure (some ⟨col, desc⟩)) (pure none) := by
  simp only [orderBy, opt, map_eq_pure_bind, bind_assoc, pure_bind]

theorem parseOrderBy_recognises : Recognises C n [.order, .desc, .asc] orderBy parseOrderBy := by
  rw [orderBy_eq]
  refine .matchOpt (by decide) ?_ none (by decide)
  refine expect_then (by decide) <| (identifierOr_recognises _).andThen fun _ => ?_
  exact (parseDirection_recognises.follow (by decide)).map _

theorem orderBy_opens : orderBy.Opens [.order] := by
  rw [orderBy_eq]
  exact ((starts_token _).bind _).opens.either (opens_pure none)

theorem limit_eq : limit =
    either (do token .limit; int fun s => (stoll s).map some) (pure none) := by
  simp only [limit, opt, map_eq_pure_bind, bind_assoc, int, tokenOf_bind_pure]

theorem parseLimit_recognises : Recognises C n [.limit] limit parseLimit := by
  rw [limit_eq]
  refine .matchOpt (by decide) ?_ none (by decide)
  rw [int, ← either_never (tokenOf _ _)]
  exact .checkOr (.advanceAs (by decide) fun _ _ => converted_eq_ok) (.throw _) (starts_tokenOf _ _)
    (starts_never []) List.not_mem_nil

theorem limit_opens : limit.Opens [.limit] := by
  rw [limit_eq]
  exact ((starts_token _).bind _).opens.either (opens_pure none)

/-! ### Literals and INSERT -/

theorem parseInsertColumns_recognises : Recognises C n [.lParen] insertColumns parseInsertColumns := by
  simp only [insertColumns, opt_bind, bind_assoc, pure_bind, Option.getD]
  refine .matchOpt (by decide) ?_ _ (by decide)
  exact (Recognises.list (by decide) (identifierOr_recognises (K := []) _) (by decide)).before
    (S := [.rParen]) (fun _ => expect_then (by decide) <| .pure _)
    (fun _ => (starts_token _).bind _) (by decide)

section Literals

variable [FloatConversion] {body : List Token}

theorem literal_starts :
    literal.Starts [.null, .true, .false, .intLiteral, .floatLiteral, .stringLiteral] :=
  ((starts_token _).bind _).either <| ((starts_token _).bind _).either <|
    ((starts_token _).bind _).either <| (starts_tokenOf _ _).either <|
    (starts_tokenOf _ _).either (starts_tokenOf _ _)

theorem parseLiteral_recognises : Recognises C n K literal parseLiteral := by
  have hnumbers := (starts_tokenOf (τ := Token) TokenType.intLiteral fun t =>
      (stoll t.lexeme).map Value.int64).either
    ((starts_tokenOf TokenType.floatLiteral fun t => (stod t.lexeme).map Value.double).either
      (starts_tokenOf TokenType.stringLiteral fun t => some (Value.string t.lexeme)))
  have hfalse := ((starts_token TokenType.false).bind fun _ => pure (Value.bool false)).either hnumbers
  have htrue := ((starts_token TokenType.true).bind fun _ => pure (Value.bool true)).either hfalse
  refine .matchOr (by decide) (.pure _) (.matchOr (by decide) (.pure _) (.matchOr (by decide) (.pure _)
    ?_ hnumbers (by decide)) hfalse (by decide)) htrue (by decide)
  refine .checkOr (.advanceAs (by decide) fun _ _ => converted_eq_ok) (.checkOr
    (.advanceAs (by decide) fun _ _ => converted_eq_ok) ?_ (starts_tokenOf _ _) (starts_tokenOf _ _)
    (by decide)) (starts_tokenOf _ _) ((starts_tokenOf _ _).either (starts_tokenOf _ _)) (by decide)
  rw [← either_never (tokenOf _ _)]
  exact .checkOr (.advanceAs (g := fun t : Token => .ok (Value.string t.lexeme)) (by decide)
      (by simp))
    (.peek fun _ _ => .throw _) (starts_tokenOf _ _) (starts_never []) (by decide)

theorem parseTuple_recognises : Recognises C n K tuple parseTuple :=
  expect_then (by decide) <|
  (Recognises.list (by decide) (parseLiteral_recognises (K := [])) (by decide)).before (S := [.rParen])
    (fun _ => expect_then (by decide) <| .pure _)
    (fun _ => (starts_token _).bind _) (by decide)

theorem parseInsert_recognises : Recognises C n [.comma] insert parseInsert :=
  expect_then (by decide) <| (identifierOr_recognises _).andThen fun _ =>
  parseInsertColumns_recognises.before (S := [.values])
    (fun _ => expect_then (by decide) <|
      (Recognises.list (by decide) (parseTuple_recognises (K := [])) (by decide)).map _)
    (fun _ => (starts_token _).bind _) (by decide)

/-! ### Expressions -/

theorem expr_primary : expr .primary =
    either (do token .lParen; let e ← expr .orExpr; token .rParen; pure e)
      (either (do let name ← ident; pure (.column name)) (do let v ← literal; pure (.literal v))) := by
  refine ext fun ts e => ⟨fun h => ?_, ?_⟩
  · cases h with
    | @paren l r ts e hl h hr =>
      exact .inl ⟨[l], (), ts ++ [r], rfl, ⟨l, rfl, hl, rfl⟩, ts, e, [r], rfl, h, [r], (), [], rfl,
        ⟨r, rfl, hr, rfl⟩, rfl, rfl⟩
    | column h => exact .inr (.inl ⟨ts, _, [], (List.append_nil ts).symm, h, rfl, rfl⟩)
    | literal h => exact .inr (.inr ⟨ts, _, [], (List.append_nil ts).symm, h, rfl, rfl⟩)
  · rintro (⟨_, _, _, rfl, ⟨l, rfl, hl, -⟩, ts, e, _, rfl, h, _, _, _, rfl, ⟨r, rfl, hr, -⟩, rfl, rfl⟩ |
      ⟨_, _, _, rfl, h, rfl, rfl⟩ | ⟨_, _, _, rfl, h, rfl, rfl⟩)
    · exact .paren hl h hr
    · rw [List.append_nil]
      exact .column h
    · rw [List.append_nil]
      exact .literal h

theorem expr_comparison : expr .comparison = (do
    let l ← expr .primary
    either (do let op ← kindAs comparisonOp; let r ← expr .primary; pure (.binary l op r))
      (pure l)) := by
  rw [← comparisonOperator_eq]
  refine ext fun ts e => ⟨fun h => ?_, ?_⟩
  · cases h with
    | ofPrimary h => exact ⟨ts, e, [], (List.append_nil ts).symm, h, .inr ⟨rfl, rfl⟩⟩
    | @compare ts ts' t l r op hl hop hr =>
      exact ⟨ts, l, t :: ts', rfl, hl, .inl ⟨[t], op, ts', rfl, hop, ts', r, [],
        (List.append_nil ts').symm, hr, rfl, rfl⟩⟩
  · rintro ⟨ts, l, _, rfl, hl, ⟨_, op, _, rfl, hop, ts', r, _, rfl, hr, rfl, rfl⟩ | ⟨rfl, rfl⟩⟩
    · obtain ⟨t, rfl, -⟩ := comparisonOperator_eq ▸ hop
      rw [List.append_nil]
      exact .compare hl hop hr
    · rw [List.append_nil]
      exact .ofPrimary hl

/-- An expression of left-associative operators is its first operand and the others from the left. -/
theorem expr_and : expr .andExpr = (do
    let l ← expr .comparison
    chain (expr .comparison) .and (fun l r => .binary l .and r) l) := by
  refine ext fun ts e => ⟨fun h => ?_, ?_⟩
  · generalize hlevel : Level.andExpr = level at h
    induction h with
    | ofComparison h => exact ⟨_, _, [], (List.append_nil _).symm, h, .nil⟩
    | @and ts ts' t l r _ ht hr ih =>
      obtain ⟨ts₁, e, ts₂, rfl, he, hchain⟩ := ih hlevel
      exact ⟨ts₁, e, ts₂ ++ t :: ts', List.append_assoc .., he, hchain.snoc ht hr⟩
    | _ => cases hlevel
  · rintro ⟨ts, l, ts', rfl, hl, hchain⟩
    refine Chain.induct (P := Derives .andExpr) ?_ hchain (.ofComparison hl)
    intro _ _ _ _ _ hl ht hr
    exact .and hl ht hr

theorem expr_or : expr .orExpr = (do
    let l ← expr .andExpr
    chain (expr .andExpr) .or (fun l r => .binary l .or r) l) := by
  refine ext fun ts e => ⟨fun h => ?_, ?_⟩
  · generalize hlevel : Level.orExpr = level at h
    induction h with
    | ofAnd h => exact ⟨_, _, [], (List.append_nil _).symm, h, .nil⟩
    | @or ts ts' t l r _ ht hr ih =>
      obtain ⟨ts₁, e, ts₂, rfl, he, hchain⟩ := ih hlevel
      exact ⟨ts₁, e, ts₂ ++ t :: ts', List.append_assoc .., he, hchain.snoc ht hr⟩
    | _ => cases hlevel
  · rintro ⟨ts, l, ts', rfl, hl, hchain⟩
    refine Chain.induct (P := Derives .orExpr) ?_ hchain (.ofAnd hl)
    intro _ _ _ _ _ hl ht hr
    exact .or hl ht hr

section Expressions

variable {orExpr : Parse Expr}

/-- One more token is enough for what stands in parentheses. -/
theorem parsePrimary_recognises
    (hor : Recognises (fun _ => True) n operators (expr .orExpr) orExpr) :
    Recognises C (n + 1) K (expr .primary) (parsePrimary orExpr) := by
  rw [expr_primary]
  have hstarts : (either (do let name ← ident; pure (Expr.column name))
      (do let v ← literal; pure (.literal v))).Starts _ :=
    ((starts_tokenOf _ _).bind _).either (literal_starts.bind _)
  refine .matchToken (by decide) ?_ ?_ hstarts.opens (by decide) ?_
  · exact hor.before (S := [.rParen]) (fun _ => expect_then (by decide) <| .pure _)
      (fun _ => (starts_token _).bind _) (by decide)
  · refine .checkOr ?_ (parseLiteral_recognises.map _) ((starts_tokenOf _ _).bind _)
      (literal_starts.bind _) (by decide)
    rw [ident, tokenOf_bind_pure]
    exact .advanceAs (g := fun t : Token => .ok (Expr.column t.lexeme)) (by decide) (by simp)
  · rintro ⟨e, he⟩
    obtain ⟨_, _, hnil, -⟩ := hstarts _ _ he
    cases hnil

theorem parseComparison_recognises
    (hor : Recognises (fun _ => True) n operators (expr .orExpr) orExpr) :
    Recognises C (n + 1) comparisons (expr .comparison) (parseComparison orExpr) := by
  have hprimary {C K} : Recognises C (n + 1) K (expr .primary) (parsePrimary orExpr) :=
    parsePrimary_recognises hor
  rw [expr_comparison]
  refine hprimary.andThen fun l => .peekAs (h := comparisonOp) (fun t op hop => ?_) (fun t hop => ?_) rfl
    (fun op => hprimary.map fun r => Expr.binary l op r) (.pure l) (opens_pure l) (by decide)
    fun _ _ _ => mem_comparisons
  · simp only [show comparisonOp t.type = some op from hop]
  · simp only [show comparisonOp t.type = none from hop]

theorem parseAndExpr_recognises
    (hor : Recognises (fun _ => True) n operators (expr .orExpr) orExpr) :
    Recognises C (n + 1) (.and :: comparisons) (expr .andExpr) (parseAndExpr orExpr) := by
  rw [expr_and]
  exact .leftAssoc (by decide) (fun _ => parseComparison_recognises hor) (by decide)

end Expressions

/-- Parentheses nest no deeper than there are tokens. -/
theorem parseOrExpr_recognises {fuel : Nat} (hfuel : n < fuel) :
    Recognises (fun _ => True) n operators (expr .orExpr) (parseOrExpr fuel) := by
  induction fuel generalizing n with
  | zero => omega
  | succ fuel ih =>
    cases n with
    | zero => exact .zero
    | succ n =>
      have hinner := ih (n := n) (by omega)
      rw [expr_or]
      exact .leftAssoc (by decide) (fun _ => parseAndExpr_recognises hinner) (by decide)

theorem whereClause_eq : whereClause =
    either (do token .where; let w ← expr .orExpr; pure (some w)) (pure none) := by
  rw [whereClause, opt, map_eq_pure_bind, bind_assoc]

theorem parseWhereClause_recognises :
    Recognises C n (.where :: operators) whereClause parseWhereClause := by
  rw [whereClause_eq]
  refine .checkOpt (expect_then (by decide) <| Recognises.map ?_ some)
    ((starts_token _).bind _) none (by decide)
  exact .rounds fun m _ => (parseOrExpr_recognises (Nat.lt_succ_self m)).follow
    (List.subset_cons_self _ _)

theorem whereClause_opens : whereClause.Opens [.where] := by
  rw [whereClause_eq]
  exact ((starts_token _).bind _).opens.either (opens_pure none)

/-! ### UPDATE and DELETE -/

theorem parseAssignment_recognises : Recognises C n K assignment parseAssignment :=
  (identifierOr_recognises _).andThen fun _ => expect_then (by decide) <|
    parseLiteral_recognises.map _

theorem parseUpdate_recognises : Recognises C n (.comma :: .where :: operators) update parseUpdate := by
  refine (identifierOr_recognises _).andThen fun _ => expect_then (by decide) <|
    (Recognises.list (by decide) (parseAssignment_recognises (K := [])) (by decide)).beforeOpt
      (S := [.where]) (fun _ => ?_) (fun _ => ?_) (by decide) (by decide)
  · exact (parseWhereClause_recognises.follow (by decide)).map _
  · exact whereClause_opens.bind fun _ => opens_pure _

theorem parseDelete_recognises : Recognises C n (.where :: operators) delete parseDelete :=
  expect_then (by decide) <| (identifierOr_recognises _).andThen fun _ =>
    parseWhereClause_recognises.map _

/-! ### Statements -/

/-- What must not follow a query. -/
def selectFollow : List TokenType := .where :: .order :: .desc :: .asc :: .limit :: operators

theorem parseSelect_recognises : Recognises C n selectFollow select parseSelect := by
  refine parseSelectList_recognises.before (S := [.from]) (fun _ =>
    expect_then (by decide) <| (identifierOr_recognises _).andThen fun _ => ?_)
    (fun _ => (starts_token _).bind _) (by decide)
  refine parseWhereClause_recognises.beforeOpt (S := [.order, .limit]) (fun _ => ?_) (fun _ => ?_)
    (by decide) (by decide)
  · refine parseOrderBy_recognises.beforeOpt (S := [.limit])
      (fun _ => (parseLimit_recognises.follow (by decide)).map _)
      (fun _ => limit_opens.bind fun _ => opens_pure _) (by decide) (by decide)
  · exact orderBy_opens.bind fun _ => limit_opens.bind fun _ => opens_pure _

/-- What must not follow a statement. -/
def statementFollow : List TokenType := .comma :: selectFollow

theorem statement_starts :
    statement.Starts [.select, .insert, .update, .delete, .create, .drop] :=
  ((starts_token _).bind _).either <| ((starts_token _).bind _).either <|
    ((starts_token _).bind _).either <| ((starts_token _).bind _).either <|
    ((starts_token _).bind _).either ((starts_token _).bind _)

theorem parseStatementBody_recognises :
    Recognises C n statementFollow statement parseStatementBody := by
  refine .switch statement_starts fun t => ?_
  show Recognises (fun k => k = t.type) n statementFollow (headed t.type statement) _
  split
  case h_1 h =>
    simp only [statement, headed_either, headed_token_bind, h, reduceCtorEq, if_true, if_false,
      either_never]
    exact .advance (by decide) (parseSelect_recognises.follow (by decide))
  case h_2 h =>
    simp only [statement, headed_either, headed_token_bind, h, reduceCtorEq, if_true, if_false,
      never_either, either_never]
    exact .advance (by decide) (parseInsert_recognises.follow (by decide))
  case h_3 h =>
    simp only [statement, headed_either, headed_token_bind, h, reduceCtorEq, if_true, if_false,
      never_either, either_never]
    exact .advance (by decide) (parseUpdate_recognises.follow (by decide))
  case h_4 h =>
    simp only [statement, headed_either, headed_token_bind, h, reduceCtorEq, if_true, if_false,
      never_either, either_never]
    exact .advance (by decide) (parseDelete_recognises.follow (by decide))
  case h_5 h =>
    simp only [statement, headed_either, headed_token_bind, h, reduceCtorEq, if_true, if_false,
      never_either, either_never]
    exact .advance (by decide) (parseTableOrIndex_recognises
      (fun _ => parseCreateTable_recognises.follow (by decide))
      (fun _ => parseCreateIndex_recognises.follow (by decide)) ((starts_token _).bind _)
      ((starts_token _).bind _))
  case h_6 h =>
    simp only [statement, headed_either, headed_token_bind, h, reduceCtorEq, if_true, if_false,
      never_either]
    exact .advance (by decide) (parseTableOrIndex_recognises
      (fun _ => parseDropTable_recognises.follow (by decide))
      (fun _ => parseDropIndex_recognises.follow (by decide)) ((starts_token _).bind _)
      ((starts_token _).bind _))
  case h_7 hselect hinsert hupdate hdelete hcreate hdrop =>
    simp only [statement, headed_either, headed_token_bind, if_neg hselect, if_neg hinsert,
      if_neg hupdate, if_neg hdelete, if_neg hcreate, if_neg hdrop, either_never]
    exact .throw _

/-- A statement is a text of the grammar. -/
theorem parseStatement_sound (he : e.type = .endOfInput) (hbody : ∀ t ∈ body, t.type ≠ .endOfInput) :
    wp (fun _ => False) parseStatement
      (post (fun stmt _ => input body stmt) fun _ _ => True) (body ++ [e]) := by
  have hend : Ended (body ++ [e]) := ⟨body, e, rfl, he, hbody⟩
  obtain ⟨t, rest, htoks⟩ := hend.exists_cons
  rw [parseStatement, wp_bind]
  refine wp_of_exec (htoks ▸ Grammar.Parser.exec_check _ t rest) ?_
  by_cases ht : Tokens.kind t = TokenType.endOfInput
  · rw [post_ok, if_pos (decide_eq_true ht)]
    trivial
  · rw [post_ok, if_neg fun h => ht (of_decide_eq_true h), wp_bind]
    refine wp_mono_post ?_ (fun _ _ _ => trivial)
      ((parseStatementBody_recognises (C := fun _ => True)).sound _ hend (Nat.le_refl _)
        fun _ _ => trivial)
    rintro stmt rest' ⟨hrest', ts, hts, hstmt⟩
    refine wp_mono_post ?_ (fun _ _ _ => trivial) (parseEnd_wp stmt hrest')
    rintro _ _ ⟨rfl, ts', o, e', rfl, ho⟩
    rw [← List.append_assoc] at hts
    obtain ⟨rfl, -⟩ := List.append_inj' hts rfl
    exact ⟨ts, _, ts', rfl, hstmt, ts', o, [], (List.append_nil ts').symm, ho, rfl, rfl⟩

/-- A text of the grammar is accepted. -/
theorem parseStatement_complete {stmt : Statement} (he : e.type = .endOfInput) (h : input body stmt) :
    parseStatement.exec (body ++ [e]) = .ok (.ok stmt, [e]) := by
  obtain ⟨ts, stmt, _, rfl, hstmt, ts', o, _, rfl, ho, rfl, rfl⟩ := h
  rw [List.append_nil, List.append_assoc]
  -- the statement's first token is not the end, and a semicolon or the end follows it
  obtain ⟨t, rest, rfl, ht⟩ := statement_starts _ _ hstmt
  have hfirst : Tokens.kind t ≠ TokenType.endOfInput := fun h => by
    rw [h] at ht
    revert ht
    decide
  have hfollow : Follow statementFollow (ts' ++ [e]) := by
    rcases ho with ⟨_, _, _, rfl, ⟨t, rfl, ht, -⟩, rfl, -⟩ | ⟨rfl, -⟩
    · exact ⟨t, [e], rfl, by rw [ht]; decide⟩
    · exact ⟨e, [], rfl, by rw [show Tokens.kind e = TokenType.endOfInput from he]; decide⟩
  have hbody := (parseStatementBody_recognises (C := fun _ => True)).complete (t :: rest) (ts' ++ [e])
    stmt (Nat.le_refl _) (fun _ _ => trivial) hstmt hfollow
  rw [parseStatement, exec_bind, List.cons_append, Grammar.Parser.exec_check]
  dsimp only
  rw [if_neg fun h => hfirst (of_decide_eq_true h), exec_bind, ← List.cons_append, hbody]
  exact parseEnd_exec stmt ho he

/-- **The parser accepts exactly its grammar**: on any tokens before the end token, `ParseStatement`
returns without an access outside of them, and returns a statement just when they are a text of the
grammar for it. -/
theorem parseStatement_accepts (body : List Token) (e : Token) (he : e.type = .endOfInput)
    (hbody : ∀ t ∈ body, t.type ≠ .endOfInput) :
    ∃ r rest, parseStatement.exec (body ++ [e]) = .ok (r, rest) ∧
      ∀ stmt, r = .ok stmt ↔ input body stmt := by
  obtain ⟨r, rest, hexec, hpost⟩ := Action.exec_of_wp (parseStatement_sound he hbody)
  refine ⟨r, rest, hexec, fun stmt => ⟨?_, fun h => ?_⟩⟩
  · rintro rfl
    exact hpost
  · rw [parseStatement_complete he h] at hexec
    cases hexec
    rfl

end Literals

/-- The tokens of `SELECT v, MAX(w) AS m FROM t WHERE a OR b AND w <= 7;`. -/
def selectTokens : List Token :=
  [⟨.select, lit "SELECT", 0⟩, ⟨.identifier, lit "v", 7⟩, ⟨.comma, lit ",", 8⟩, ⟨.max, lit "MAX", 10⟩,
    ⟨.lParen, lit "(", 13⟩, ⟨.identifier, lit "w", 14⟩, ⟨.rParen, lit ")", 15⟩, ⟨.as, lit "AS", 17⟩,
    ⟨.identifier, lit "m", 20⟩, ⟨.from, lit "FROM", 22⟩, ⟨.identifier, lit "t", 27⟩,
    ⟨.where, lit "WHERE", 29⟩, ⟨.identifier, lit "a", 35⟩, ⟨.or, lit "OR", 37⟩, ⟨.identifier, lit "b", 40⟩,
    ⟨.and, lit "AND", 42⟩, ⟨.identifier, lit "w", 46⟩, ⟨.lte, lit "<=", 48⟩, ⟨.intLiteral, lit "7", 51⟩,
    ⟨.semicolon, lit ";", 52⟩]

/-- Its statement. -/
def selectStatement : Statement :=
  .select ⟨.items [.plain (lit "v") none, .aggregate (.ofColumn .max (lit "w") (some (lit "m")))], lit "t",
    some (.binary (.column (lit "a")) .or (.binary (.column (lit "b")) .and
      (.binary (.column (lit "w")) .lte (.literal (.int64 7))))), none, none⟩

/-- The text has this statement and no other; with a second comparison it would have none. -/
theorem parseStatement_accepts_select :
    (∀ stmt, @input ⟨fun _ => none⟩ selectTokens stmt ↔ stmt = selectStatement) ∧
    ∀ stmt, ¬ @input ⟨fun _ => none⟩
      (selectTokens.dropLast ++ [⟨.lte, lit "<=", 52⟩, ⟨.intLiteral, lit "9", 55⟩]) stmt := by
  let stod : FloatConversion := ⟨fun _ => none⟩
  constructor
  · intro stmt
    obtain ⟨r, rest, hexec, hiff⟩ :=
      @parseStatement_accepts stod selectTokens ⟨.endOfInput, [], 53⟩ rfl (by decide)
    have hresult : r = .ok selectStatement := congrArg Prod.fst (Except.ok.inj hexec).symm
    rw [← hiff, hresult]
    exact ⟨fun h => (Except.ok.inj h).symm, fun h => congrArg _ h.symm⟩
  · intro stmt hstmt
    obtain ⟨r, rest, hexec, hiff⟩ := @parseStatement_accepts stod _ ⟨.endOfInput, [], 56⟩ rfl
      (show ∀ t ∈ selectTokens.dropLast ++ [⟨.lte, lit "<=", 52⟩, ⟨.intLiteral, lit "9", 55⟩],
        t.type ≠ .endOfInput by decide)
    rw [(hiff stmt).mpr hstmt] at hexec
    cases hexec

end MiniDB.Parser
