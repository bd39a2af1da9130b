import MiniDB.Executor.ResultFormatter
import MiniDB.Network.Protocol

/-!
# Server

A connection of `TCPServer` answers one request after the other until it cannot read another one.  The
state of a connection is its socket and the database, which the lock around `Execute` gives to one request
at a time.  A round of a single connection is of a server that is running, and waits until there is
something to read or the stream has ended.  Among several connections `Stop` may come at any time; a thread
looks at `running_` when it comes to its next request.
-/

namespace MiniDB

open Paged Effect Executor MiniDB.Parser

namespace Network

/-- The socket of a client, and the database that the requests are executed on. -/
structure Connection (σ : Type) where
  database : Database σ
  socket : Socket

/-- Functions on a connection. -/
abbrev Server (σ α : Type) : Type := Action Fault Status (Connection σ) α

namespace Connection

variable {σ α : Type}

/-- A call on the socket, with what it returns. -/
def onSocket (x : Net α) : Server σ (Result α) :=
  Action.onPart Connection.socket (fun s c => { c with socket := s }) x.exec

/-- A call on the database, with what it returns. -/
def onDatabase (x : Db σ α) : Server σ (Result α) :=
  Action.onPart Connection.database (fun db c => { c with database := db }) x.exec

end Connection

open Connection

variable {σ : Type} [IndexPool σ] [FloatConversion]

/-- The answer to a request: the formatted result, or the message of the error. -/
def answerTo : Result QueryResult → Bool × Str
  | .error status => (false, status.message)
  | .ok result => (true, formatQueryResult result)

/-- A round of the loop of `HandleConnection`: what `WriteResponse` returned, or nothing if there was no
request to read. -/
def handleRequest : Server σ (Option (Result Unit)) := do
  match ← onSocket readFrame with
  | .error _ => return none
  | .ok request =>
    let (ok, text) := answerTo (← onDatabase (executeSQL request))
    return some (← onSocket (writeResponse ok text))

/-! ### Connections side by side -/

/-- Where the thread of a connection is in the loop of `HandleConnection`. -/
inductive Phase
  | reading
  /-- The request is parsed, and the thread waits for the lock. -/
  | executing (request : Str) (stmt : Statement)
  | writing (ok : Bool) (text : Str)
  | closed
  deriving DecidableEq

/-- The thread of a connection. -/
structure ConnectionThread where
  socket : Socket
  phase : Phase

/-- The database that the connections share, `running_` and `connection_threads_`.  A thread that has not
gone on yet may as well be one that `AcceptLoop` has still to start. -/
structure TCPServer (σ : Type) where
  database : Database σ
  running : Bool
  threads : List ConnectionThread

/-- What happens next: a thread goes on, or `Stop` is called. -/
inductive Event
  | goOn (i : Nat)
  | stop

/-- A request that has its result. -/
abbrev Served : Type := Str × Result QueryResult

/-- A thread goes on to its next phase; with the request if this is where its result is known.  The lock
makes `Execute` one step, and an error of it is answered under the lock. -/
def ConnectionThread.advance (db : Database σ) (running : Bool) (t : ConnectionThread) :
    Except Fault (Option Served × ConnectionThread × Database σ) :=
  match t.phase with
  | .reading => do
    if !running then
      return (none, ⟨t.socket, .closed⟩, db)
    match ← readFrame.exec t.socket with
    | (.error _, s) => return (none, ⟨s, .closed⟩, db)
    | (.ok request, s) =>
      match ← (parseSQL request).run with
      | .error status => return (some (request, .error status), ⟨s, .writing false status.message⟩, db)
      | .ok stmt => return (none, ⟨s, .executing request stmt⟩, db)
  | .executing request stmt => do
    match ← (execute stmt).exec db with
    | (.error status, db) =>
      let (_, s) ← (writeResponse false status.message).exec t.socket
      return (some (request, .error status), ⟨s, .reading⟩, db)
    | (.ok result, db) =>
      return (some (request, .ok result), ⟨t.socket, .writing true (formatQueryResult result)⟩, db)
  | .writing ok text => do
    let (_, s) ← (writeResponse ok text).exec t.socket
    return (none, ⟨s, .reading⟩, db)
  | .closed => return (none, t, db)

/-- A thread of the server goes on, if there is one of this number, or the server is stopped. -/
def TCPServer.exec (server : TCPServer σ) : Event → Except Fault (Option Served × TCPServer σ)
  | .stop => .ok (none, { server with running := false })
  | .goOn i =>
    match server.threads[i]? with
    | none => .error .outOfBounds
    | some t => do
      let (served, t, db) ← t.advance server.database server.running
      return (served, ⟨db, server.running, server.threads.set i t⟩)

end Network

end MiniDB
