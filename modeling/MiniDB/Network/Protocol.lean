import MiniDB.Lib.Bytes
import MiniDB.Utilities.Status

/-!
# Protocol

Frames over a socket.  A `Socket` holds the bytes it has handed to the transport and those that will
still arrive, in order; the stream has ended when there are no more.  How much one call of `send` or
`recv` moves is up to the transport: `replies` says what the next calls do, and the calls behind them
move all they are asked to.  So every finite run of calls, with any splitting and with interruptions and
failures anywhere, is the run of some list of replies.
-/

namespace MiniDB

open Paged Effect Bytes

namespace Network

/-- What the transport does with one call. -/
inductive Reply
  | interrupted
  | failed
  /-- It moves `n + 1` bytes, or fewer if there are not so many. -/
  | part (n : Nat)
  deriving DecidableEq, Repr

/-- `socket_t`. -/
structure Socket where
  replies : List Reply
  sent : Str
  inbox : Str
  deriving DecidableEq, Repr

/-- Functions on a socket. -/
abbrev Net (α : Type) : Type := Action Fault Status Socket α

/-- `kMaxFrameSize`. -/
def kMaxFrameSize : Nat := 64 * 1024 * 1024

/-- What a call returns: a negative number with `WasInterrupted()` or without, or a count. -/
inductive Transfer
  | interrupted
  | failed
  | moved (count : Nat)
  deriving DecidableEq, Repr

/-- The reply to a call that could move up to `most` bytes. -/
def transfer (most : Nat) : Net Transfer := do
  let s ← get
  match s.replies with
  | [] => return .moved most
  | reply :: replies =>
    set { s with replies := replies }
    match reply with
    | .interrupted => return .interrupted
    | .failed => return .failed
    | .part n => return .moved (min (n + 1) most)

/-- `SocketSend`. -/
def socketSend (data : Str) : Net Transfer := do
  let t ← transfer data.length
  match t with
  | .moved n =>
    modify fun s => { s with sent := s.sent ++ data.take n }
    return t
  | _ => return t

/-- `SocketRecv`, with the bytes that it stores. -/
def socketRecv (len : Nat) : Net (Transfer × Str) := do
  let s ← get
  let t ← transfer (min len s.inbox.length)
  match t with
  | .moved n =>
    modify fun s => { s with inbox := s.inbox.drop n }
    return (t, s.inbox.take n)
  | _ => return (t, [])

/-- The loop of `WriteAll` on what is left of the data. -/
def writeAllLoop : Nat → Str → Net Bool
  | 0, _ => Action.die .noFuel
  | rounds + 1, data =>
    if data.isEmpty then
      return true
    else do
      match ← socketSend data with
      | .interrupted => writeAllLoop rounds data
      | .failed => return false
      | .moved n => writeAllLoop rounds (data.drop n)

/-- `WriteAll`. -/
def writeAll (data : Str) : Net Bool := do
  let s ← get
  writeAllLoop (s.replies.length + 2) data

/-- The loop of `ReadAll`: the bytes that are still to be received. -/
def readAllLoop : Nat → Nat → Net (Option Str)
  | 0, _ => Action.die .noFuel
  | rounds + 1, len =>
    if len = 0 then
      return some []
    else do
      match ← socketRecv len with
      | (.moved 0, _) => return none
      | (.interrupted, _) => readAllLoop rounds len
      | (.failed, _) => return none
      | (.moved n, bytes) =>
        let rest? ← readAllLoop rounds (len - n)
        return rest?.map (bytes ++ ·)

/-- `ReadAll`: the buffer it fills, or nothing if it returns false. -/
def readAll (len : Nat) : Net (Option Str) := do
  let s ← get
  readAllLoop (s.replies.length + 2) len

/-- `htonl`, as the bytes in memory. -/
def htonl (n : UInt32) : Str := (leBytes 4 n.toNat).reverse

/-- `ntohl`, of the bytes in memory. -/
def ntohl (bytes : Str) : UInt32 := UInt32.ofNat (leNat bytes.reverse)

/-- `Status::IOError`. -/
def ioError (message : String) : Status := ⟨.ioError, lit message⟩

/-- `WriteFrame`. -/
def writeFrame (payload : Str) : Net Unit := do
  if !(← writeAll (htonl (UInt32.ofNat payload.length))) then
    throw (ioError "WriteFrame: failed to write length prefix")
  if !(← writeAll payload) then
    throw (ioError "WriteFrame: failed to write payload")

/-- `ReadFrame`. -/
def readFrame : Net Str := do
  match ← readAll 4 with
  | none => throw (ioError "ReadFrame: connection closed or read failed")
  | some bytes =>
    let len := (ntohl bytes).toNat
    if len > kMaxFrameSize then
      throw ⟨.invalidArgument, lit "ReadFrame: advertised frame size exceeds maximum"⟩
    else if len > 0 then
      match ← readAll len with
      | none => throw (ioError "ReadFrame: connection closed mid-payload")
      | some payload => return payload
    else
      return []

/-- `WriteResponse`. -/
def writeResponse (ok : Bool) (payload : Str) : Net Unit := do
  if !(← writeAll [if ok then 0 else 1]) then
    throw (ioError "WriteResponse: failed to write status byte")
  writeFrame payload

/-- `ReadResponse`. -/
def readResponse : Net (Bool × Str) := do
  match ← readAll 1 with
  | none => throw (ioError "ReadResponse: connection closed or read failed")
  | some bytes =>
    let frame ← readFrame
    return (bytes.head? == some 0, frame)

end Network

end MiniDB
