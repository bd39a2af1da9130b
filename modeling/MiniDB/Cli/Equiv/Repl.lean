import Mathlib.Algebra.Group.Even
import MiniDB.Cli.Repl

/-!
# What the shell passes on

The shell decides line by line where a statement ends.  In each line it counts the quotes from the
start of that line, whatever the lines before it were.  `calls_iff` says when this gives the statements
that were typed: a semicolon with an even number of quotes in front of it in its line stands in the last
line of each statement and in no other.  A string literal over two lines breaks this, and so does a quote
or a semicolon in a comment.
-/

namespace MiniDB.Cli

open Effect

/-! ### Lines -/

/-- The text of some lines. -/
def textOf (lines : List Str) : Str := lines.flatMap (· ++ [newline])

theorem textOf_cons (line : Str) (lines : List Str) :
    textOf (line :: lines) = line ++ [newline] ++ textOf lines := List.flatMap_cons

theorem textOf_append (lines more : List Str) :
    textOf (lines ++ more) = textOf lines ++ textOf more := List.flatMap_append

variable {lines rest more : List Str}

theorem textOf_eq_nil : textOf lines = [] ↔ lines = [] := by
  cases lines with
  | nil => exact iff_of_true rfl rfl
  | cons line lines => simp [textOf_cons]

/-- Of two beginnings of the same lines, the text tells which one it is. -/
theorem eq_of_textOf_eq {lines' rest' : List Str} (h : lines ++ rest = lines' ++ rest')
    (htext : textOf lines = textOf lines') : lines = lines' := by
  rcases List.append_eq_append_iff.mp h with ⟨more, rfl, -⟩ | ⟨more, rfl, -⟩
  · rw [textOf_append, List.self_eq_append_right, textOf_eq_nil] at htext
    rw [htext, List.append_nil]
  · rw [textOf_append, List.append_right_eq_self, textOf_eq_nil] at htext
    rw [htext, List.append_nil]

theorem inputLines_line {line : Str} (h : newline ∉ line) (input : Str) :
    inputLines (line ++ newline :: input) = line :: inputLines input := by
  induction line with
  | nil => rw [List.nil_append, inputLines, if_pos rfl]
  | cons c line ih =>
    rw [List.mem_cons, not_or] at h
    rw [List.cons_append, inputLines, if_neg (Ne.symm h.1), ih h.2]

theorem inputLines_textOf (h : ∀ line ∈ lines, newline ∉ line) :
    inputLines (textOf lines) = lines := by
  induction lines with
  | nil => rfl
  | cons line lines ih =>
    obtain ⟨hline, hlines⟩ := List.forall_mem_cons.mp h
    rw [textOf_cons, List.append_assoc, List.singleton_append, inputLines_line hline, ih hlines]

/-! ### Terminators -/

/-- The line has a semicolon with an even number of quotes in front of it. -/
def HasTerminator (line : Str) : Prop :=
  ∃ before after, line = before ++ byte ';' :: after ∧ Even (before.count quote)

/-- The search counts quotes; in a string it starts with one. -/
theorem findTerminator_iff (inString : Bool) (line : Str) : findTerminator inString line = true ↔
    ∃ before after, line = before ++ byte ';' :: after ∧
      (Even (before.count quote) ↔ inString = false) := by
  induction line generalizing inString with
  | nil => simp [findTerminator]
  | cons c line ih =>
    rw [findTerminator]
    split_ifs with hquote hsemicolon
    · -- the quote stands in front of every semicolon behind it
      rw [ih]
      constructor
      · rintro ⟨before, after, rfl, heven⟩
        refine ⟨c :: before, after, rfl, ?_⟩
        rw [hquote, List.count_cons_self, Nat.even_add_one, heven]
        cases inString <;> simp
      · rintro ⟨_ | ⟨d, before⟩, after, heq, heven⟩
        · cases heq
          exact absurd hquote (by decide)
        · cases heq
          refine ⟨before, after, rfl, ?_⟩
          rw [hquote, List.count_cons_self, Nat.even_add_one] at heven
          cases inString <;> simp_all
    · refine iff_of_true rfl ⟨[], line, by rw [hsemicolon.1, List.nil_append], ?_⟩
      simpa using hsemicolon.2
    · rw [ih]
      constructor
      · rintro ⟨before, after, rfl, heven⟩
        refine ⟨c :: before, after, rfl, ?_⟩
        rwa [List.count_cons_of_ne hquote]
      · rintro ⟨_ | ⟨d, before⟩, after, heq, heven⟩
        · cases heq
          simp only [List.count_nil, Even.zero, true_iff] at heven
          exact absurd ⟨rfl, by rw [heven]; rfl⟩ hsemicolon
        · cases heq
          refine ⟨before, after, rfl, ?_⟩
          rwa [List.count_cons_of_ne hquote] at heven

theorem findTerminator_eq (line : Str) : findTerminator false line = true ↔ HasTerminator line := by
  rw [findTerminator_iff]
  simp [HasTerminator]

/-! ### The calls -/

/-- A processor that logs what it is called with. -/
def logCall (reply : Str → Str) (text : Str) : StateM (List Str) Str := do
  modify (· ++ [text])
  return reply text

/-- The texts that `Run` passes to `ProcessStatement`, if that returns the given replies. -/
def calls (reply : Str → Str) (input : Str) : List Str :=
  ((run (logCall reply) (pure ()) input).run []).2

/-- The texts that the loop passes on. -/
def pieces : (lines : List Str) → (buffer : Str) → (firstLineOfStatement : Bool) → List Str
  | [], _, _ => []
  | line :: lines, buffer, first =>
    if first && isExit line then []
    else if findTerminator false line then (buffer ++ line ++ [newline]) :: pieces lines [] true
    else pieces lines (buffer ++ line ++ [newline]) false

/-- What the statements return does not matter. -/
theorem runLoop_logCall (reply : Str → Str) (lines : List Str) (buffer : Str) (first : Bool) (out : Str)
    (log : List Str) : ((runLoop (logCall reply) lines buffer first out).run log).2
      = log ++ pieces lines buffer first := by
  induction lines generalizing buffer first out log with
  | nil => exact (List.append_nil log).symm
  | cons line lines ih =>
    rw [runLoop, pieces]
    dsimp only
    split_ifs with hexit hfound
    · exact (List.append_nil log).symm
    · refine (ih [] true _ (log ++ [buffer ++ line ++ [newline]])).trans ?_
      rw [List.append_assoc, List.singleton_append]
    · exact ih _ _ _ _

theorem calls_eq (reply : Str → Str) (input : Str) :
    calls reply input = pieces (inputLines input) [] true :=
  (runLoop_logCall reply (inputLines input) [] true _ []).trans (List.nil_append _)

/-! ### Statements -/

/-- The shell finds the end of the statement in its last line, and does not take its first one for a
command. -/
structure Assembles (lines : List Str) : Prop where
  not_exit : ∀ line ∈ lines.head?, isExit line = false
  terminator : ∃ earlier last, lines = earlier ++ [last] ∧ HasTerminator last ∧
    ∀ line ∈ earlier, ¬ HasTerminator line

/-- Lines without a terminator are collected. -/
theorem pieces_collect (h : ∀ line ∈ lines, ¬ HasTerminator line) (rest : List Str) (buffer : Str) :
    pieces (lines ++ rest) buffer false = pieces rest (buffer ++ textOf lines) false := by
  induction lines generalizing buffer with
  | nil => rw [List.nil_append, textOf, List.flatMap_nil, List.append_nil]
  | cons line lines ih =>
    obtain ⟨hline, hlines⟩ := List.forall_mem_cons.mp h
    rw [List.cons_append, pieces, Bool.false_and, if_neg Bool.false_ne_true,
      if_neg (mt (findTerminator_eq line).mp hline), ih hlines, textOf_cons]
    simp only [List.append_assoc]

theorem pieces_assembled (h : Assembles lines) (rest : List Str) :
    pieces (lines ++ rest) [] true = textOf lines :: pieces rest [] true := by
  obtain ⟨hexit, earlier, last, rfl, hlast, hearlier⟩ := h
  have hfound := (findTerminator_eq last).mpr hlast
  cases earlier with
  | nil =>
    have hnot := hexit last rfl
    simp [pieces, hnot, hfound, textOf]
  | cons line earlier =>
    obtain ⟨hline, hearlier⟩ := List.forall_mem_cons.mp hearlier
    have hnot := hexit line rfl
    have hnone := mt (findTerminator_eq line).mp hline
    rw [List.cons_append, List.cons_append, pieces, hnot, Bool.and_false, if_neg Bool.false_ne_true,
      if_neg hnone, List.append_assoc earlier, pieces_collect hearlier, List.singleton_append, pieces,
      Bool.false_and, if_neg Bool.false_ne_true, if_pos hfound, textOf_cons, textOf_append, textOf_cons]
    simp [textOf]

/-- The first text consists of the lines up to the first terminator. -/
theorem pieces_eq_cons {buffer : Str} {first : Bool} {piece : Str}
    (h : pieces lines buffer first = piece :: more) : ∃ earlier last rest,
      lines = earlier ++ [last] ++ rest ∧ piece = buffer ++ textOf (earlier ++ [last]) ∧
        HasTerminator last ∧ (∀ line ∈ earlier, ¬ HasTerminator line) ∧
        (first = true → ∀ line ∈ lines.head?, isExit line = false) ∧ more = pieces rest [] true := by
  induction lines generalizing buffer first with
  | nil => cases h
  | cons line lines ih =>
    rw [pieces] at h
    split_ifs at h with hexit hfound
    · have hnot : first = true → ∀ l ∈ (line :: lines).head?, isExit l = false := by
        rintro rfl l ⟨⟩
        simpa using hexit
      cases h
      exact ⟨[], line, lines, rfl, by simp [textOf], (findTerminator_eq line).mp hfound, nofun, hnot, rfl⟩
    · have hnot : first = true → ∀ l ∈ (line :: lines).head?, isExit l = false := by
        rintro rfl l ⟨⟩
        simpa using hexit
      obtain ⟨earlier, last, rest, rfl, hpiece, hlast, hearlier, -, hmore⟩ := ih h
      refine ⟨line :: earlier, last, rest, rfl, ?_, hlast, ?_, hnot, hmore⟩
      · rw [hpiece, List.cons_append, textOf_cons]
        simp only [List.append_assoc]
      · rintro l (_ | ⟨_, hl⟩)
        · exact mt (findTerminator_eq line).mpr hfound
        · exact hearlier l hl

/-- Where the first text is that of some first lines, those lines were assembled. -/
theorem assembles_of_pieces (h : pieces (lines ++ rest) [] true = textOf lines :: more) :
    Assembles lines ∧ more = pieces rest [] true := by
  obtain ⟨earlier, last, rest', heq, hpiece, hlast, hearlier, hexit, hmore⟩ := pieces_eq_cons h
  rw [List.nil_append] at hpiece
  obtain rfl := eq_of_textOf_eq heq hpiece
  obtain rfl := List.append_cancel_left heq
  refine ⟨⟨?_, earlier, last, rfl, hlast, hearlier⟩, hmore⟩
  intro line hline
  refine hexit rfl line ?_
  rwa [List.head?_append_of_ne_nil _ (by simp)]

theorem pieces_flatten (statements : List (List Str)) :
    pieces statements.flatten [] true = statements.map textOf ↔ ∀ lines ∈ statements, Assembles lines := by
  induction statements with
  | nil => exact iff_of_true rfl nofun
  | cons lines statements ih =>
    rw [List.flatten_cons, List.map_cons, List.forall_mem_cons, ← ih]
    constructor
    · intro h
      obtain ⟨hlines, hmore⟩ := assembles_of_pieces h
      exact ⟨hlines, hmore.symm⟩
    · rintro ⟨hlines, hmore⟩
      rw [pieces_assembled hlines, hmore]

/-- The lines of a single statement: its only semicolon token is its last character. -/
structure IsStatement (lines : List Str) : Prop where
  newline_notMem : ∀ line ∈ lines, newline ∉ line
  tokens : ∃ body semicolon eof, Tokenizer.tokenizeAll (textOf lines) = pure (body ++ [semicolon, eof]) ∧
    body ≠ [] ∧ (∀ tok ∈ body, tok.type ≠ .semicolon) ∧ semicolon.type = .semicolon ∧
    semicolon.position + 2 = (textOf lines).length

/-- **The shell passes on the statements that are typed, each once and in order, if and only if a
semicolon with an even number of quotes in front of it in its line stands in the last line of each and in
no earlier one, and none begins with a command to leave.** -/
theorem calls_iff (reply : Str → Str) (statements : List (List Str))
    (h : ∀ lines ∈ statements, IsStatement lines) :
    calls reply (textOf statements.flatten) = statements.map textOf ↔
      ∀ lines ∈ statements, Assembles lines := by
  have hlines : ∀ line ∈ statements.flatten, newline ∉ line := by
    intro line hline
    obtain ⟨lines, hmem, hline⟩ := List.mem_flatten.mp hline
    exact (h lines hmem).newline_notMem line hline
  rw [calls_eq, inputLines_textOf hlines, pieces_flatten]

/-- A statement on one line, and one on two lines with a comment. -/
def plainStatements : List (List Str) :=
  [[lit "DROP TABLE t;"], [lit "DELETE -- rows", lit "FROM t WHERE a = 'x;';"]]

theorem plainStatements_isStatement : ∀ lines ∈ plainStatements, IsStatement lines := by
  have hdrop : (Tokenizer.tokenizeAll (textOf [lit "DROP TABLE t;"])).run = .ok (.ok
      ([⟨.drop, lit "DROP", 0⟩, ⟨.table, lit "TABLE", 5⟩, ⟨.identifier, lit "t", 11⟩]
        ++ [⟨.semicolon, lit ";", 12⟩, ⟨.endOfInput, [], 14⟩])) := by decide +kernel
  have hdelete : (Tokenizer.tokenizeAll (textOf [lit "DELETE -- rows", lit "FROM t WHERE a = 'x;';"])).run
      = .ok (.ok ([⟨.delete, lit "DELETE", 0⟩, ⟨.«from», lit "FROM", 15⟩, ⟨.identifier, lit "t", 20⟩,
        ⟨.where, lit "WHERE", 22⟩, ⟨.identifier, lit "a", 28⟩, ⟨.eq, lit "=", 30⟩,
        ⟨.stringLiteral, lit "x;", 32⟩] ++ [⟨.semicolon, lit ";", 36⟩, ⟨.endOfInput, [], 38⟩])) := by
    decide +kernel
  rintro _ (_ | ⟨_, _ | ⟨_, ⟨⟩⟩⟩)
  · exact ⟨by decide, _, _, _, hdrop, by decide, by decide, rfl, by decide⟩
  · exact ⟨by decide, _, _, _, hdelete, by decide, by decide, rfl, by decide⟩

theorem plainStatements_called : calls id (textOf plainStatements.flatten) = plainStatements.map textOf := by
  refine (calls_iff id plainStatements plainStatements_isStatement).mpr ?_
  have hsearch : ∀ line, HasTerminator line ↔ findTerminator false line = true := fun line =>
    (findTerminator_eq line).symm
  rintro _ (_ | ⟨_, _ | ⟨_, ⟨⟩⟩⟩)
  · exact ⟨by decide, [], _, rfl, (hsearch _).mpr (by decide), nofun⟩
  · refine ⟨by decide, [lit "DELETE -- rows"], lit "FROM t WHERE a = 'x;';", rfl,
      (hsearch _).mpr (by decide), ?_⟩
    rintro _ (_ | ⟨_, ⟨⟩⟩)
    exact mt (hsearch _).mp (by decide)

/-- A statement whose string literal goes over two lines. -/
def tornLiteral : List Str := [lit "INSERT INTO t VALUES ('a", lit "b');"]

/-- Its tokens. -/
def tornTokens : List Token :=
  [⟨.insert, lit "INSERT", 0⟩, ⟨.into, lit "INTO", 7⟩, ⟨.identifier, lit "t", 12⟩,
    ⟨.values, lit "VALUES", 14⟩, ⟨.lParen, lit "(", 21⟩, ⟨.stringLiteral, lit "a\nb", 22⟩,
    ⟨.rParen, lit ")", 27⟩, ⟨.semicolon, lit ";", 28⟩, ⟨.endOfInput, [], 30⟩]

/-- It is a statement that the parser accepts, and the shell passes nothing on: in the second line the
semicolon stands behind one quote. -/
theorem tornLiteral_not_called : IsStatement tornLiteral ∧
    @Parser.parseSQL ⟨fun _ => none⟩ (textOf tornLiteral)
      = pure (.insert ⟨lit "t", [], [[.string (lit "a\nb")]]⟩) ∧
    calls id (textOf tornLiteral) = [] := by
  have htokens : Tokenizer.tokenizeAll (textOf tornLiteral) = pure tornTokens := by
    have hrun : (Tokenizer.tokenizeAll (textOf tornLiteral)).run = .ok (.ok tornTokens) := by
      decide +kernel
    exact hrun
  have hexec : (@Parser.parseStatement ⟨fun _ => none⟩).exec tornTokens
      = .ok (.ok (.insert ⟨lit "t", [], [[.string (lit "a\nb")]]⟩), [⟨.endOfInput, [], 30⟩]) := by
    decide +kernel
  refine ⟨⟨by decide, tornTokens.take 7, _, _, htokens, by decide, by decide, rfl, by decide⟩, ?_,
    by decide⟩
  unfold Parser.parseSQL
  rw [htokens, pure_bind, hexec]
  rfl

end MiniDB.Cli
