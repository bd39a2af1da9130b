import MiniDB.Network.Equiv.TcpServer
import MiniDB.Storage.Equiv.UpdateRow

/-!
# Connections side by side

The threads of the server share the database; `Execute` is under its lock, and so is the answer to an
error of it.  In whatever order they go on, and whenever the server is stopped, the database is what the
requests make of it one after the other, in the order in which their results became known, and each client
gets the answers to its own requests in the order in which it sent them (`connections_serial`).  A server
that is not stopped answers all of them.  A thread is known by the requests that it has served (`Session`).
-/

namespace MiniDB

open Paged Effect Executor MiniDB.Parser Runs

namespace Network

/-- A client whose requests fit into frames, behind a transport that does not fail. -/
structure Client where
  requests : List Str
  replies : List Reply
  fits : ∀ request ∈ requests, request.length ≤ kMaxFrameSize
  reliable : .failed ∉ replies

/-- The bytes of some requests. -/
def frames (requests : List Str) : Str := requests.flatMap fun request => (Message.frame request).bytes

/-- The bytes of the answers to some requests. -/
def answers (served : List Served) : Str := served.flatMap fun p => (answerMessage p.2).bytes

def Client.socket (c : Client) : Socket := ⟨c.replies, [], frames c.requests⟩

/-- The requests in the order in which their results became known, with their threads. -/
def log (history : List (Event × Option Served)) : List (Nat × Served) :=
  history.filterMap fun
    | (.goOn i, served) => served.map (i, ·)
    | (.stop, _) => none

/-- The requests of a thread. -/
def own (i : Nat) (history : List (Event × Option Served)) : List Served :=
  (log history).filterMap fun e => if e.1 = i then some e.2 else none

theorem log_snoc (history : List (Event × Option Served)) (i : Nat) (o : Option Served) :
    log (history ++ [(.goOn i, o)]) = log history ++ (o.map (i, ·)).toList := by
  rw [log, List.filterMap_append]
  cases o <;> rfl

theorem log_stop (history : List (Event × Option Served)) (o : Option Served) :
    log (history ++ [(.stop, o)]) = log history := by
  rw [log, List.filterMap_append]
  exact List.append_nil _

theorem own_snoc (history : List (Event × Option Served)) (i j : Nat) (o : Option Served) :
    own j (history ++ [(.goOn i, o)]) = own j history ++ if i = j then o.toList else [] := by
  rw [own, log_snoc, List.filterMap_append]
  cases o with
  | none => simp [own]
  | some p => split_ifs with hij <;> simp [own, hij]

section

variable [FloatConversion]

/-- The thread has the results of `served`: it has sent the answers, or is at the last one.  If the server is
running, it only ends when there are no more requests. -/
def Session (client : Client) (served : List Served) (running : Bool) (t : ConnectionThread) : Prop :=
  ∃ left, (t.phase ≠ .closed → t.socket.Reliable ∧ t.socket.inbox = frames left) ∧
    match t.phase with
    | .reading => client.requests = served.map Prod.fst ++ left ∧ t.socket.sent = answers served
    | .executing request stmt => client.requests = served.map Prod.fst ++ request :: left ∧
        t.socket.sent = answers served ∧ (parseSQL request).run = .ok (.ok stmt)
    | .writing ok text => client.requests = served.map Prod.fst ++ left ∧
        t.socket.sent ++ (Message.response ok text).bytes = answers served
    | .closed => client.requests = served.map Prod.fst ++ left ∧ (running = true → left = []) ∧
        t.socket.sent = answers served

variable {σ : Type} [IndexPool σ] {client : Client} {served : List Served}
  {running : Bool} {t t' : ConnectionThread} {db₀ db db' : Database σ} {o : Option Served}
  {history : List (Event × Option Served)} {server : TCPServer σ} {clients : List Client}

theorem executeSQL_exec {request : Str} {r : Result Statement}
    (hparse : (parseSQL request).run = .ok r) (db : Database σ) :
    (executeSQL request).exec db = match r with
      | .error status => .ok (.error status, db)
      | .ok stmt => (execute stmt).exec db := by
  have hcheck : (Action.check (parseSQL request) : Db σ _).exec db = .ok (r, db) := by
    show Except.map _ (parseSQL request).run = _
    rw [hparse]
    rfl
  rw [executeSQL, Action.exec_bind, hcheck]
  cases r <;> rfl

/-- A step of a thread serves its next request on the database, or leaves the database alone. -/
theorem Session.advance (h : Session client served running t)
    (hstep : t.advance db running = .ok (o, t', db')) :
    Session client (served ++ o.toList) running t' ∧
      o.elim (db' = db) fun p => (executeSQL p.1).exec db = .ok (p.2, db') := by
  have hsnoc : ∀ request r, answers (served ++ [(request, r)])
      = answers served ++ (answerMessage r).bytes := by simp [answers]
  obtain ⟨s, phase⟩ := t
  obtain ⟨left, hopen, h⟩ := h
  unfold ConnectionThread.advance at hstep
  cases phase with
  | reading =>
    obtain ⟨hs, hinbox⟩ := hopen (by simp)
    obtain ⟨hrequests, hsent⟩ := h
    cases running with
    | false =>
      cases hstep
      rw [Option.toList, List.append_nil]
      exact ⟨⟨left, (absurd rfl ·), hrequests, nofun, hsent⟩, rfl⟩
    | true => ?_
    have hquiet := readFrame_sent s
    rcases left with _ | ⟨request, left⟩
    · -- the stream has ended
      obtain ⟨r, s', hread, hpost⟩ := Action.exec_of_wp
        (@readFrame_torn _ 0 [] (Nat.zero_le _) (by decide) hs hinbox)
      rcases r with e | request
      · rw [Action.wp, hread] at hquiet
        rw [hread] at hstep
        cases hstep
        rw [Option.toList, List.append_nil]
        exact ⟨⟨[], (absurd rfl ·), hrequests, fun _ => rfl, hquiet.trans hsent⟩, rfl⟩
      · exact hpost.elim
    · have hfits : request.length ≤ kMaxFrameSize := client.fits request (by simp [hrequests])
      obtain ⟨r, s', hread, hpost⟩ := Action.exec_of_wp (readFrame_whole hfits hs hinbox)
      rcases r with e | request'
      · exact hpost.elim
      obtain ⟨rfl, hs', hinbox'⟩ := hpost
      rw [Action.wp, hread] at hquiet
      rw [hread] at hstep
      dsimp only [bind, Except.bind] at hstep
      rcases hparse : (parseSQL request').run with f | (status | stmt) <;> rw [hparse] at hstep <;>
        cases hstep
      · refine ⟨⟨left, fun _ => ⟨hs', hinbox'⟩, by simp [hrequests], ?_⟩, executeSQL_exec hparse db⟩
        exact (congrArg (· ++ _) (hquiet.trans hsent)).trans (hsnoc request' (.error status)).symm
      · rw [Option.toList, List.append_nil]
        exact ⟨⟨left, fun _ => ⟨hs', hinbox'⟩, hrequests, hquiet.trans hsent, hparse⟩, rfl⟩
  | executing request stmt =>
    obtain ⟨hrequests, hsent, hparse⟩ := h
    dsimp only [bind, Except.bind] at hstep
    rcases hexec : (execute stmt).exec db with f | ⟨status | result, db₁⟩ <;> rw [hexec] at hstep
    · cases hstep
    · obtain ⟨hs, hinbox⟩ := hopen (by simp)
      obtain ⟨s', hwrite, hs', hsent', hinbox'⟩ := writeResponse_exec false status.message hs
      dsimp only at hstep
      rw [hwrite] at hstep
      cases hstep
      refine ⟨⟨left, fun _ => ⟨hs', hinbox'.trans hinbox⟩, by simp [hrequests], ?_⟩,
        (executeSQL_exec hparse db).trans hexec⟩
      exact hsent'.trans ((congrArg (· ++ _) hsent).trans (hsnoc request (.error status)).symm)
    · cases hstep
      refine ⟨⟨left, fun _ => hopen (by simp), by simp [hrequests], ?_⟩,
        (executeSQL_exec hparse db).trans hexec⟩
      exact (congrArg (· ++ _) hsent).trans (hsnoc request (.ok result)).symm
  | writing ok text =>
    obtain ⟨hs, hinbox⟩ := hopen (by simp)
    obtain ⟨hrequests, hsent⟩ := h
    obtain ⟨s', hwrite, hs', hsent', hinbox'⟩ := writeResponse_exec ok text hs
    dsimp only [bind, Except.bind] at hstep
    rw [hwrite] at hstep
    cases hstep
    rw [Option.toList, List.append_nil]
    exact ⟨⟨left, fun _ => ⟨hs', hinbox'.trans hinbox⟩, hrequests, hsent'.trans hsent⟩, rfl⟩
  | closed =>
    cases hstep
    rw [Option.toList, List.append_nil]
    exact ⟨⟨left, hopen, h⟩, rfl⟩

/-- The server after a history of steps. -/
structure Serial (db₀ : Database σ) (clients : List Client) (history : List (Event × Option Served))
    (server : TCPServer σ) : Prop where
  database : Run (fun db request => (executeSQL request).exec db) db₀ ((log history).map Prod.snd)
    server.database
  length_eq : server.threads.length = clients.length
  sessions : ∀ {i : Nat} {client : Client}, clients[i]? = some client →
    ∃ t, server.threads[i]? = some t ∧ Session client (own i history) server.running t

theorem Serial.advance (h : Serial db₀ clients history server) {i : Nat}
    (ht : server.threads[i]? = some t)
    (hstep : t.advance server.database server.running = .ok (o, t', db')) :
    Serial db₀ clients (history ++ [(.goOn i, o)]) ⟨db', server.running, server.threads.set i t'⟩ := by
  have hi : i < server.threads.length := (List.getElem?_eq_some_iff.mp ht).1
  have hclient := List.getElem?_eq_getElem (h.length_eq ▸ hi : i < clients.length)
  obtain ⟨t₁, ht₁, hsession⟩ := h.sessions hclient
  obtain rfl : t = t₁ := Option.some.inj (ht.symm.trans ht₁)
  obtain ⟨hsession', hdb⟩ := hsession.advance hstep
  refine ⟨?_, by rw [List.length_set, h.length_eq], fun {j c} hc => ?_⟩
  · rw [log_snoc, List.map_append]
    cases o with
    | none =>
      obtain rfl : db' = server.database := hdb
      exact (List.append_nil ((log history).map Prod.snd)).symm ▸ h.database
    | some p => exact h.database.snoc hdb
  · rw [own_snoc]
    by_cases hij : i = j
    · subst hij
      rw [if_pos rfl]
      obtain rfl := Option.some.inj (hc.symm.trans hclient)
      exact ⟨t', List.getElem?_set_self hi, hsession'⟩
    · rw [if_neg hij, List.append_nil, List.getElem?_set_ne hij]
      exact h.sessions hc

/-- A stopped server may leave requests in the sockets. -/
theorem Session.stop (h : Session client served running t) : Session client served false t := by
  obtain ⟨s, phase⟩ := t
  obtain ⟨left, hopen, h⟩ := h
  refine ⟨left, hopen, ?_⟩
  cases phase with
  | reading | executing | writing => exact h
  | closed => exact ⟨h.1, nofun, h.2.2⟩

theorem Serial.stop (h : Serial db₀ clients history server) :
    Serial db₀ clients (history ++ [(.stop, o)]) { server with running := false } := by
  have hown : ∀ i, own i (history ++ [(.stop, o)]) = own i history := fun i => by
    rw [own, log_stop, own]
  refine ⟨(log_stop history o).symm ▸ h.database, h.length_eq, fun {i client} hclient => ?_⟩
  obtain ⟨t, ht, hsession⟩ := h.sessions hclient
  exact ⟨t, ht, (hown i).symm ▸ hsession.stop⟩

/-- Threads that read their first requests. -/
def started (db : Database σ) (clients : List Client) : TCPServer σ :=
  ⟨db, true, clients.map fun client => ⟨client.socket, .reading⟩⟩

theorem Serial.run (hrun : Run TCPServer.exec (started db₀ clients) history server) :
    Serial db₀ clients history server := by
  induction hrun with
  | nil =>
    refine ⟨.nil, List.length_map .., fun {i client} hclient => ?_⟩
    refine ⟨⟨client.socket, .reading⟩, ?_, client.requests, fun _ => ⟨client.reliable, rfl⟩, rfl, rfl⟩
    exact (List.getElem?_map ..).trans (by rw [hclient]; rfl)
  | @snoc history s s' event o _ hexec h =>
    unfold TCPServer.exec at hexec
    cases event with
    | stop =>
      cases hexec
      exact h.stop
    | goOn i =>
      cases ht : s.threads[i]? with
      | none =>
        simp only [ht] at hexec
        cases hexec
      | some t =>
        simp only [ht] at hexec
        rcases hstep : t.advance s.database s.running with f | ⟨o', t', db'⟩ <;> rw [hstep] at hexec <;>
          cases hexec
        exact h.advance ht hstep

/-- **Connections side by side are served as if one after the other.**  The database is what the requests
make of it in the order in which their results became known; every client gets the answers to its own
requests in the order in which it sent them.  A connection that is closed has sent the answers to all
requests that were served, and these are all its requests as long as the server is not stopped. -/
theorem connections_serial {clients : List Client}
    (hrun : Run TCPServer.exec (started db₀ clients) history server) :
    Run (fun db request => (executeSQL request).exec db) db₀ ((log history).map Prod.snd)
      server.database ∧
    ∀ i client, clients[i]? = some client → ∃ t, server.threads[i]? = some t ∧
      (own i history).map Prod.fst <+: client.requests ∧ t.socket.sent <+: answers (own i history) ∧
      (t.phase = .closed → t.socket.sent = answers (own i history) ∧
        (server.running = true → (own i history).map Prod.fst = client.requests)) := by
  have h := Serial.run hrun
  refine ⟨h.database, fun i client hclient => ?_⟩
  obtain ⟨⟨s, phase⟩, ht, left, -, hsession⟩ := h.sessions hclient
  refine ⟨_, ht, ?_⟩
  cases phase with
  | reading => exact ⟨⟨_, hsession.1.symm⟩, ⟨[], (List.append_nil _).trans hsession.2⟩, nofun⟩
  | executing => exact ⟨⟨_, hsession.1.symm⟩, ⟨[], (List.append_nil _).trans hsession.2.1⟩, nofun⟩
  | writing => exact ⟨⟨_, hsession.1.symm⟩, ⟨_, hsession.2⟩, nofun⟩
  | closed =>
    obtain ⟨hrequests, hall, hsent⟩ := hsession
    refine ⟨⟨_, hrequests.symm⟩, ⟨[], (List.append_nil _).trans hsent⟩, fun _ =>
      ⟨hsent, fun hrunning => ?_⟩⟩
    rw [hrequests, hall hrunning, List.append_nil]

end

/-- Two clients; the first one drops a table twice. -/
def twoClients : List Client :=
  [⟨[lit "DROP TABLE t", lit "DROP TABLE t"], [], by decide, List.not_mem_nil⟩,
    ⟨[lit "CREATE TABLE t (a INT)"], [], by decide, List.not_mem_nil⟩]

/-- The second of two clients is served first, and both get all their answers, the first one an error at
last. -/
theorem twoClients_served : ∃ (db₀ : Database Store) (history : List (Event × Option Served))
    (server : TCPServer Store), Database.create insertionOrder noTables Store.new = .ok db₀ ∧
      Run (@TCPServer.exec _ _ ⟨fun _ => none⟩) (started db₀ twoClients) history server ∧
      (log history).map (fun e => (e.1, e.2.2.toBool)) = [(1, true), (0, true), (0, false)] ∧
      ∀ i client, twoClients[i]? = some client → ∃ t, server.threads[i]? = some t ∧
        t.socket.sent = answers (own i history) ∧ (own i history).map Prod.fst = client.requests := by
  let _ : FloatConversion := ⟨fun _ => none⟩
  have hcheck : ((Database.create insertionOrder noTables Store.new).toOption.bind fun db₀ =>
      (runAll TCPServer.exec (started (σ := Store) db₀ twoClients)
        ([0, 1, 1, 0, 0, 1, 0, 0, 1, 0].map Event.goOn)).toOption.map
        fun p => decide ((log p.1).map (fun e => (e.1, e.2.2.toBool))
          = [(1, true), (0, true), (0, false)] ∧ p.2.running = true ∧ ∀ t ∈ p.2.threads, t.phase = .closed))
      = some true := by
    decide +kernel
  obtain ⟨db₀, hcreate, hsome⟩ := Option.bind_eq_some_iff.mp hcheck
  obtain ⟨⟨history, server⟩, hruns, hdecide⟩ := Option.map_eq_some_iff.mp hsome
  obtain ⟨hlog, hrunning, hclosed⟩ := of_decide_eq_true hdecide
  have hrun := run_of_runAll (RecordManager.ok_of_toOption hruns)
  refine ⟨db₀, history, server, RecordManager.ok_of_toOption hcreate, hrun, hlog, ?_⟩
  intro i client hclient
  obtain ⟨t, ht, -, -, hall⟩ := (connections_serial hrun).2 i client hclient
  exact ⟨t, ht, (hall (hclosed t (List.mem_of_getElem? ht))).imp_right fun h => h hrunning⟩

end Network

end MiniDB
