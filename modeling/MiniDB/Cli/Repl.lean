import MiniDB.Executor.ResultFormatter

/-!
# The shell

`Repl` reads lines, collects them until one has a semicolon outside quotes, and hands what it collected
to `ProcessStatement`.  The loop is written over any monad in which statements are processed: the
database's own for the program, and a log of the calls to say what they are.
-/

namespace MiniDB.Cli

open Effect MiniDB.Parser Executor

/-! ### Statements -/

section

variable {σ : Type} [IndexPool σ] [FloatConversion]

/-- The characters that a statement of nothing has. -/
def isBlank (c : UInt8) : Bool :=
  c == byte ' ' || c == byte '\t' || c == newline || c == byte '\r' || c == byte ';'

/-- `ProcessStatement`. -/
def processStatement (sql : Str) : Db σ Str := do
  if sql.all isBlank then
    return []
  match ← Action.attempt (executeSQL sql) with
  | .error status => return lit "ERROR: " ++ status.message
  | .ok result => return formatQueryResult result

end

/-! ### The loop -/

/-- The lines that `std::getline` reads from an input. -/
def inputLines : Str → List Str
  | [] => []
  | c :: input =>
    if c = newline then [] :: inputLines input
    else
      match inputLines input with
      | [] => [[c]]
      | line :: lines => (c :: line) :: lines

/-- The search for `found_terminator` in what is left of a line. -/
def findTerminator (inString : Bool) : Str → Bool
  | [] => false
  | c :: rest =>
    if c = quote then findTerminator (!inString) rest
    else if c = byte ';' ∧ !inString then true
    else findTerminator inString rest

/-- `.exit` or `.quit`. -/
def isExit (line : Str) : Bool := line == lit ".exit" || line == lit ".quit"

/-- The text that asks for a line. -/
def prompt (firstLineOfStatement : Bool) : Str :=
  if firstLineOfStatement then lit "minidb> " else lit "    ...> "

variable {m : Type → Type} [Monad m]

/-- The loop of `Repl::Run` on the lines that are left, with what it printed so far. -/
def runLoop (process : Str → m Str) :
    (lines : List Str) → (buffer : Str) → (firstLineOfStatement : Bool) → (out : Str) → m Str
  | [], _, first, out => return out ++ prompt first
  | line :: lines, buffer, first, out => do
    let out := out ++ prompt first
    if first && isExit line then
      return out
    else
      let buffer := buffer ++ line ++ [newline]
      if findTerminator false line then
        let output ← process buffer
        runLoop process lines [] true (if output.isEmpty then out else out ++ output ++ [newline])
      else
        runLoop process lines buffer false out

/-- `Repl::Run`: what it prints for an input.  `flushAll` is the call of the database's at the end. -/
def run (process : Str → m Str) (flushAll : m Unit) (input : Str) : m Str := do
  let banner := lit "MiniDB -- type SQL statements ending in ';', or .exit to quit.\n"
  let out ← runLoop process (inputLines input) [] true banner
  flushAll
  return out

end MiniDB.Cli
