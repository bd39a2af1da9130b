import MiniDB.Lib.Effect
import MiniDB.Lib.Paged

/-!
# Status codes and results

`util::Status` carries an error code and a message; `util::Result<T>` is a value or such a status.
A function that returns a bare `Status` is modelled as returning `Result Unit`, so that `OK` is the
only success.  Strings are byte strings, as `std::string` is.
-/

namespace MiniDB

/-- `std::string`: a sequence of bytes. -/
abbrev Str := List UInt8

/-- The bytes of a string literal. -/
def lit (s : String) : Str := s.toList.map fun c => UInt8.ofNat c.toNat

/-- `util::Code` without `kOk`. -/
inductive Code
  | notFound
  | invalidArgument
  | outOfSpace
  | ioError
  | corruption
  | alreadyExists
  | conflict
  deriving DecidableEq, Repr

/-- `util::Status` of a failed call. -/
structure Status where
  code : Code
  message : Str
  deriving DecidableEq, Repr

/-- `util::Result<T>`. -/
abbrev Result (α : Type) := Except Status α

/-- The result of code that reads buffers: an access outside of one is a fault. -/
abbrev Fallible (α : Type) := Effect.Checked Paged.Fault Status α

/-- The call returned OK. -/
def Result.Ok {α : Type} (r : Result α) : Prop := ∃ a, r = .ok a

end MiniDB
