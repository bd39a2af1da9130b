import MiniDB.Executor.Equiv.Definitions
import MiniDB.Executor.Equiv.ResultFormatter
import MiniDB.Network.Equiv.Protocol
import MiniDB.Network.TcpServer
import MiniDB.Parser.Equiv.Tokenizer

/-!
# Which answers a client can read

The reader of a frame refuses a length above `kMaxFrameSize`, and the writer knows no such limit: it cuts
the length to 32 bits and sends as much as it is given.  So a client reads the answer to a request, and
stays in step with the server, exactly if the answer is no longer than that (`answer_readable_iff`).  The
size of an answer is known from the result: it is `resultSize` for a table, and the length of the message
for an error.
-/

namespace MiniDB

open Paged Effect Executor MiniDB.Parser Runs
open Effect.Action (exec_bind_eq_ok exec_of_wp exec_onPart post post_ok wp wp_bind wp_get wp_mono_ok
  wp_mono_post)

namespace Network

/-! ### Writing that succeeds -/

/-- Whatever the transport does, a call changes nothing but the replies that are left. -/
theorem transfer_frame {allow : Fault → Prop} (most : Nat) (s : Socket) :
    wp allow (transfer most)
      (post (fun _ s' => ∃ replies, s' = { s with replies := replies }) fun _ _ => False) s := by
  unfold transfer
  rw [wp_bind, wp_get, post_ok]
  rcases hr : s.replies with _ | ⟨_ | _ | n, replies⟩
  · exact ⟨[], by rw [← hr]⟩
  · exact ⟨replies, rfl⟩
  · exact ⟨replies, rfl⟩
  · exact ⟨replies, rfl⟩

theorem socketSend_frame {allow : Fault → Prop} (data : Str) (s : Socket) :
    wp allow (socketSend data)
      (post (fun t s' => s'.inbox = s.inbox ∧
        ((∃ n, t = .moved n ∧ s'.sent = s.sent ++ data.take n) ∨
          (t = .interrupted ∨ t = .failed) ∧ s'.sent = s.sent)) fun _ _ => False) s := by
  rw [socketSend, wp_bind]
  refine wp_mono_ok ?_ (transfer_frame data.length s)
  rintro (_ | _ | n) _ ⟨replies, rfl⟩
  · exact ⟨rfl, .inr ⟨.inl rfl, rfl⟩⟩
  · exact ⟨rfl, .inr ⟨.inr rfl, rfl⟩⟩
  · exact ⟨rfl, .inl ⟨n, rfl, rfl⟩⟩

/-- If the loop returns true, it has sent everything. -/
theorem writeAllLoop_sent (rounds : Nat) (data : Str) (s : Socket) :
    wp (fun _ => True) (writeAllLoop rounds data)
      (post (fun b s' => b = true → s'.sent = s.sent ++ data ∧ s'.inbox = s.inbox)
        fun _ _ => False) s := by
  induction rounds generalizing data s with
  | zero => trivial
  | succ rounds ih =>
    unfold writeAllLoop
    by_cases hdata : data = []
    · subst hdata
      exact fun _ => ⟨(List.append_nil _).symm, rfl⟩
    · rw [if_neg (by rwa [List.isEmpty_iff]), wp_bind]
      refine wp_mono_ok ?_ (socketSend_frame data s)
      rintro _ s₁ ⟨hinbox₁, ⟨n, rfl, hsent₁⟩ | ⟨rfl | rfl, hsent₁⟩⟩
      · refine wp_mono_ok ?_ (ih (data.drop n) s₁)
        intro b s₂ h hb
        obtain ⟨hsent₂, hinbox₂⟩ := h hb
        refine ⟨?_, hinbox₂.trans hinbox₁⟩
        rw [hsent₂, hsent₁, List.append_assoc, List.take_append_drop]
      · rw [← hsent₁, ← hinbox₁]
        exact ih data s₁
      · exact fun h => absurd h Bool.false_ne_true

theorem writeAll_sent (data : Str) (s : Socket) :
    wp (fun _ => True) (writeAll data)
      (post (fun b s' => b = true → s'.sent = s.sent ++ data ∧ s'.inbox = s.inbox)
        fun _ _ => False) s := by
  rw [writeAll, wp_bind, wp_get, post_ok]
  exact writeAllLoop_sent _ data s

theorem writeFrame_sent (payload : Str) (s : Socket) :
    wp (fun _ => True) (writeFrame payload)
      (post (fun _ s' => s'.sent = s.sent ++ (Message.frame payload).bytes ∧
        s'.inbox = s.inbox) fun _ _ => True) s := by
  rw [writeFrame, wp_bind]
  refine wp_mono_post ?_ (fun _ _ _ => trivial) (writeAll_sent _ s)
  rintro (_ | _) s₁ h₁
  · trivial
  · obtain ⟨hsent₁, hinbox₁⟩ := h₁ rfl
    show wp _ (writeAll payload >>= _) _ _
    rw [wp_bind]
    refine wp_mono_post ?_ (fun _ _ _ => trivial) (writeAll_sent payload s₁)
    rintro (_ | _) s₂ h₂
    · trivial
    · obtain ⟨hsent₂, hinbox₂⟩ := h₂ rfl
      refine ⟨?_, hinbox₂.trans hinbox₁⟩
      rw [hsent₂, hsent₁, List.append_assoc, Message.bytes]

/-- A response that is written without an error has been handed to the transport. -/
theorem writeResponse_sent (ok : Bool) (payload : Str) (s : Socket) :
    wp (fun _ => True) (writeResponse ok payload)
      (post (fun _ s' => s'.sent = s.sent ++ (Message.response ok payload).bytes ∧
        s'.inbox = s.inbox) fun _ _ => True) s := by
  rw [writeResponse, wp_bind]
  refine wp_mono_post ?_ (fun _ _ _ => trivial) (writeAll_sent _ s)
  rintro (_ | _) s₁ h₁
  · trivial
  · obtain ⟨hsent₁, hinbox₁⟩ := h₁ rfl
    show wp _ (writeFrame payload) _ _
    refine wp_mono_post ?_ (fun _ _ _ => trivial) (writeFrame_sent payload s₁)
    rintro _ s₂ ⟨hsent₂, hinbox₂⟩
    refine ⟨?_, hinbox₂.trans hinbox₁⟩
    rw [hsent₂, hsent₁, List.append_assoc]
    rfl

/-- A response is sent as a whole. -/
theorem writeResponse_exec (ok : Bool) (text : Str) {s : Socket} (hs : s.Reliable) :
    ∃ s', (writeResponse ok text).exec s = .ok (.ok (), s') ∧ s'.Reliable ∧
      s'.sent = s.sent ++ (Message.response ok text).bytes ∧ s'.inbox = s.inbox := by
  obtain ⟨w, s', hwrite, hpost⟩ := exec_of_wp ((Message.response ok text).write_wp hs)
  rcases w with e | w
  · exact hpost.elim
  · exact ⟨s', hwrite, hpost⟩

/-! ### Reading sends nothing -/

theorem socketRecv_sent {allow : Fault → Prop} (len : Nat) (s : Socket) :
    wp allow (socketRecv len)
      (post (fun _ s' => s'.sent = s.sent) fun _ _ => False) s := by
  rw [socketRecv, wp_bind, wp_get, post_ok, wp_bind]
  refine wp_mono_ok ?_ (transfer_frame _ s)
  rintro (_ | _ | n) _ ⟨replies, rfl⟩ <;> rfl

theorem readAllLoop_sent (rounds len : Nat) (s : Socket) :
    wp (fun _ => True) (readAllLoop rounds len)
      (post (fun _ s' => s'.sent = s.sent) fun _ _ => False) s := by
  induction rounds generalizing len s with
  | zero => trivial
  | succ rounds ih =>
    unfold readAllLoop
    by_cases hlen : len = 0
    · rw [if_pos hlen]
      rfl
    · rw [if_neg hlen, wp_bind]
      refine wp_mono_ok ?_ (socketRecv_sent len s)
      rintro ⟨_ | _ | _ | n, bytes⟩ s₁ hsent
      · rw [← hsent]
        exact ih len s₁
      · exact hsent
      · exact hsent
      · show wp _ (readAllLoop rounds (len - (n + 1)) >>= _) _ _
        rw [wp_bind]
        refine wp_mono_ok ?_ (ih (len - (n + 1)) s₁)
        exact fun _ s₂ hsent₂ => hsent₂.trans hsent

theorem readAll_sent (len : Nat) (s : Socket) :
    wp (fun _ => True) (readAll len)
      (post (fun _ s' => s'.sent = s.sent) fun _ _ => False) s := by
  rw [readAll, wp_bind, wp_get, post_ok]
  exact readAllLoop_sent _ len s

theorem readFrame_sent (s : Socket) :
    wp (fun _ => True) readFrame (fun _ s' => s'.sent = s.sent) s := by
  rw [readFrame, wp_bind]
  refine wp_mono_post ?_ (fun _ _ h => h.elim) (readAll_sent 4 s)
  rintro (_ | bytes) s₁ hsent₁
  · exact hsent₁
  · dsimp only
    split_ifs with hlong hpos
    · exact hsent₁
    · rw [wp_bind]
      refine wp_mono_post ?_ (fun _ _ h => h.elim) (readAll_sent _ s₁)
      rintro (_ | payload) s₂ hsent₂
      · exact hsent₂.trans hsent₁
      · exact hsent₂.trans hsent₁
    · exact hsent₁

/-! ### Frames that are too long -/

/-- What the reader returns for a frame that is too long is not its payload: it refuses the length, or
reads one that was cut to 32 bits. -/
theorem readFrame_long {payload rest : Str} (hsize : kMaxFrameSize < payload.length) {s : Socket}
    (hs : s.Reliable) (h : s.inbox = (Message.frame payload).bytes ++ rest) :
    wp (fun _ => False) readFrame (post (fun p _ => p ≠ payload) fun _ _ => True) s := by
  rw [Message.bytes, List.append_assoc] at h
  have hread := readAll_whole _ hs h
  rw [length_htonl] at hread
  rw [readFrame, wp_bind]
  refine wp_mono_post ?_ (fun _ _ _ => trivial) hread
  rintro _ s₁ ⟨rfl, hs₁, -⟩
  dsimp only
  rw [ntohl_htonl]
  split_ifs with hlong hpos
  · trivial
  · rw [wp_bind]
    refine wp_mono_post ?_ (fun _ _ _ => trivial) (readAll_wp _ hs₁)
    rintro (_ | p) s₂ ⟨-, -, hr⟩
    · trivial
    · -- the bytes that are read are fewer than the payload has
      split_ifs at hr with henough
      obtain ⟨hp, -⟩ := hr
      cases hp
      rintro heq
      have hlength := congrArg List.length heq
      rw [List.length_take] at hlength
      omega
  · rintro rfl
    exact absurd hsize (Nat.not_lt_zero _)

/-- The response is not what a client reads. -/
theorem readResponse_long {ok : Bool} {payload rest : Str} (hsize : kMaxFrameSize < payload.length)
    {s : Socket} (hs : s.Reliable) (h : s.inbox = (Message.response ok payload).bytes ++ rest) :
    wp (fun _ => False) readResponse
      (post (fun r _ => r.2 ≠ payload) fun _ _ => True) s := by
  have hread := readAll_whole [if ok then 0 else 1] hs h
  rw [readResponse, wp_bind]
  refine wp_mono_post ?_ (fun _ _ _ => trivial) hread
  rintro _ s₁ ⟨rfl, hs₁, hinbox₁⟩
  show wp _ (readFrame >>= _) _ _
  rw [wp_bind]
  exact wp_mono_post (fun _ _ hne => hne) (fun _ _ _ => trivial)
    (readFrame_long hsize hs₁ hinbox₁)

/-! ### Answers -/

/-- A client that receives these bytes reads the answer from them, and no more than them. -/
def ReadableAs (written : Str) (answer : Bool × Str) : Prop :=
  ∀ (client : Socket) (rest : Str), client.Reliable → client.inbox = written ++ rest →
    ∃ client', readResponse.exec client = .ok (.ok answer, client') ∧ client'.Reliable ∧
      client'.inbox = rest

/-- A response is readable exactly if it is not too long. -/
theorem response_readable_iff (ok : Bool) (payload : Str) :
    ReadableAs (Message.response ok payload).bytes (ok, payload) ↔ payload.length ≤ kMaxFrameSize := by
  constructor
  · intro h
    by_contra hsize
    obtain ⟨client', hread, -⟩ := h ⟨[], [], (Message.response ok payload).bytes⟩ []
      List.not_mem_nil (List.append_nil _).symm
    have hlong := @readResponse_long ok payload [] (Nat.lt_of_not_le hsize)
      ⟨[], [], (Message.response ok payload).bytes⟩ List.not_mem_nil (List.append_nil _).symm
    rw [wp, hread] at hlong
    exact hlong rfl
  · intro hsize client rest hclient hinbox
    obtain ⟨r, client', hread, hpost⟩ := exec_of_wp (readResponse_whole hsize hclient hinbox)
    rcases r with e | answer
    · exact hpost.elim
    · obtain ⟨rfl, hclient', hinbox'⟩ := hpost
      exact ⟨client', hread, hclient', hinbox'⟩

/-- The size of the answer to a request. -/
def answerSize : Result QueryResult → Nat
  | .error status => status.message.length
  | .ok result => resultSize result

theorem length_answerTo (r : Result QueryResult) : (answerTo r).2.length = answerSize r := by
  cases r with
  | error status => rfl
  | ok result => exact length_formatQueryResult result

/-- The answer to a request as a message. -/
def answerMessage (r : Result QueryResult) : Message := .response (answerTo r).1 (answerTo r).2

section

variable {σ α : Type}

variable {c c' : Connection σ}

theorem exec_onSocket {x : Net α} {r : Except Status (Result α)} :
    (Connection.onSocket x : Server σ _).exec c = .ok (r, c') ↔
      ∃ a s, x.exec c.socket = .ok (a, s) ∧ r = .ok a ∧ c' = ⟨c.database, s⟩ := by
  rw [Connection.onSocket, exec_onPart]
  rcases x.exec c.socket with f | ⟨a, s⟩
  · exact ⟨nofun, nofun⟩
  · constructor
    · intro h
      cases h
      exact ⟨a, s, rfl, rfl, rfl⟩
    · rintro ⟨a', s', h, rfl, rfl⟩
      cases h
      rfl

theorem exec_onDatabase {x : Db σ α} {r : Except Status (Result α)} :
    (Connection.onDatabase x).exec c = .ok (r, c') ↔
      ∃ a db, x.exec c.database = .ok (a, db) ∧ r = .ok a ∧ c' = ⟨db, c.socket⟩ := by
  rw [Connection.onDatabase, exec_onPart]
  rcases x.exec c.database with f | ⟨a, db⟩
  · exact ⟨nofun, nofun⟩
  · constructor
    · intro h
      cases h
      exact ⟨a, db, rfl, rfl, rfl⟩
    · rintro ⟨a', db', h, rfl, rfl⟩
      cases h
      rfl

variable [IndexPool σ] [FloatConversion]

/-- What a round of the server that answers a request does. -/
theorem handleRequest_iff {w : Result Unit} :
    handleRequest.exec c = .ok (.ok (some w), c') ↔
      ∃ request s₁ r db' s₂, readFrame.exec c.socket = .ok (.ok request, s₁) ∧
        (executeSQL request).exec c.database = .ok (r, db') ∧
        (writeResponse (answerTo r).1 (answerTo r).2).exec s₁ = .ok (w, s₂) ∧ c' = ⟨db', s₂⟩ := by
  unfold handleRequest
  constructor
  · intro h
    obtain ⟨frame, c₁, hsocket, h⟩ := exec_bind_eq_ok.mp h
    obtain ⟨_, s₁, hread, ⟨⟩, rfl⟩ := exec_onSocket.mp hsocket
    rcases frame with e | request
    · cases h
    · obtain ⟨r, c₂, hdatabase, h⟩ := exec_bind_eq_ok.mp h
      obtain ⟨_, db', hexec, ⟨⟩, rfl⟩ := exec_onDatabase.mp hdatabase
      obtain ⟨_, c₃, hsocket', h⟩ := exec_bind_eq_ok.mp h
      obtain ⟨w', s₂, hwrite, ⟨⟩, rfl⟩ := exec_onSocket.mp hsocket'
      cases h
      exact ⟨request, s₁, r, db', s₂, hread, hexec, hwrite, rfl⟩
  · rintro ⟨request, s₁, r, db', s₂, hread, hexec, hwrite, rfl⟩
    refine exec_bind_eq_ok.mpr ⟨.ok request, ⟨c.database, s₁⟩, ?_, ?_⟩
    · exact exec_onSocket.mpr ⟨_, s₁, hread, rfl, rfl⟩
    refine exec_bind_eq_ok.mpr ⟨r, ⟨db', s₁⟩, ?_, ?_⟩
    · exact exec_onDatabase.mpr ⟨r, db', hexec, rfl, rfl⟩
    refine exec_bind_eq_ok.mpr ⟨w, ⟨db', s₂⟩, ?_, rfl⟩
    exact exec_onSocket.mpr ⟨w, s₂, hwrite, rfl, rfl⟩

/-- **A client can read the answer to a request, and stays in step with the server, exactly if the answer
is not too long.** -/
theorem answer_readable_iff {c c' : Connection σ} {request : Str} {s₁ : Socket} {r : Result QueryResult}
    {db' : Database σ} (hrequest : readFrame.exec c.socket = .ok (.ok request, s₁))
    (hresult : (executeSQL request).exec c.database = .ok (r, db'))
    (hround : handleRequest.exec c = .ok (.ok (some (.ok ())), c')) :
    ∃ written, c'.socket.sent = c.socket.sent ++ written ∧ c'.socket.inbox = s₁.inbox ∧
      (ReadableAs written (answerTo r) ↔ answerSize r ≤ kMaxFrameSize) := by
  obtain ⟨request', s₁', r', db'', s₂, hrequest', hresult', hwrite, rfl⟩ := handleRequest_iff.mp hround
  rw [hrequest] at hrequest'
  cases hrequest'
  rw [hresult] at hresult'
  cases hresult'
  have hsent := writeResponse_sent (answerTo r).1 (answerTo r).2 s₁
  rw [Action.wp, hwrite] at hsent
  have hread := readFrame_sent c.socket
  rw [Action.wp, hrequest] at hread
  refine ⟨_, hsent.1.trans (by rw [hread]), hsent.2, ?_⟩
  rw [← length_answerTo r]
  exact response_readable_iff (answerTo r).1 (answerTo r).2

/-! ### Sessions -/

/-- A request that arrives is answered. -/
theorem handleRequest_reliable {request rest : Str} {r : Result QueryResult} {db' : Database σ}
    (hsize : request.length ≤ kMaxFrameSize) (hs : c.socket.Reliable)
    (hinbox : c.socket.inbox = (Message.frame request).bytes ++ rest)
    (hresult : (executeSQL request).exec c.database = .ok (r, db')) :
    ∃ s₁ s₂, readFrame.exec c.socket = .ok (.ok request, s₁) ∧
      handleRequest.exec c = .ok (.ok (some (.ok ())), ⟨db', s₂⟩) ∧ s₂.Reliable ∧ s₂.inbox = rest ∧
      s₂.sent = c.socket.sent ++ (answerMessage r).bytes := by
  obtain ⟨frame, s₁, hread, hpost⟩ := exec_of_wp (readFrame_whole hsize hs hinbox)
  rcases frame with e | request'
  · exact hpost.elim
  obtain ⟨rfl, hs₁, hinbox₁⟩ := hpost
  obtain ⟨s₂, hwrite, hs₂, hsent₂, hinbox₂⟩ := writeResponse_exec (answerTo r).1 (answerTo r).2 hs₁
  have hsent₁ := readFrame_sent c.socket
  rw [wp, hread] at hsent₁
  exact ⟨s₁, s₂, hread, handleRequest_iff.mpr ⟨_, s₁, r, db', s₂, hread, hresult, hwrite, rfl⟩, hs₂,
    hinbox₂.trans hinbox₁, hsent₂.trans (congrArg (· ++ _) hsent₁)⟩

end

/-! ### A request with a long name -/

/-- A long word is not a keyword. -/
theorem lookup_keywordTable_of_long {name : Str} (h : 7 < name.length) :
    Tokenizer.keywordTable.lookup (Tokenizer.toUpper name) = none := by
  have hall : ∀ e ∈ Tokenizer.keywordTable, e.1.length ≤ 7 := by decide
  cases hlookup : Tokenizer.keywordTable.lookup (Tokenizer.toUpper name) with
  | none => rfl
  | some type =>
    obtain ⟨before, after, heq, -⟩ := List.lookup_eq_some_iff.mp hlookup
    have hlength := hall (Tokenizer.toUpper name, type)
      (heq ▸ List.mem_append_right _ (List.mem_cons_self ..))
    rw [Tokenizer.toUpper, List.length_map] at hlength
    omega

/-- The answer to a word behind a statement. -/
def trailing (name : Str) : Status :=
  ⟨.invalidArgument, lit "unexpected trailing tokens starting at '" ++ name ++ lit "'"⟩

theorem length_trailing (name : Str) : (trailing name).message.length = name.length + 41 := by
  have htext : (lit "unexpected trailing tokens starting at '").length = 40 := rfl
  rw [trailing, List.length_append, List.length_append, htext, Nat.add_comm 40]
  rfl

theorem parseSQL_trailing [FloatConversion] {name : Str}
    (halpha : ∀ c ∈ name, Lexer.isAlpha c = true) (hlong : 7 < name.length) :
    parseSQL (lit "DROP TABLE t " ++ name) = throw (trailing name) := by
  have hspace : Tokenizer.Gap (lit " ") := .space rfl .nil
  obtain ⟨c, s, rfl⟩ : ∃ c s, name = c :: s := by
    cases name with
    | nil => exact absurd hlong (Nat.not_lt_zero _)
    | cons c s => exact ⟨c, s, rfl⟩
  have hname : Tokenizer.Written .identifier (c :: s) (c :: s) :=
    .identifier (halpha c (List.mem_cons_self ..))
      (fun d hd => by rw [Lexer.isAlphaNumeric, halpha d (List.mem_cons_of_mem _ hd)]; rfl)
      (lookup_keywordTable_of_long hlong)
  have hrenders : Tokenizer.RendersFrom
      [(.drop, lit "DROP"), (.table, lit "TABLE"), (.identifier, lit "t"), (.identifier, c :: s)]
      (lit "DROP" ++ (lit " " ++ (lit "TABLE" ++ (lit " " ++ (lit "t" ++ (lit " "
        ++ ((c :: s) ++ ([] ++ []))))))))  :=
    .cons (.keyword (by decide)) hspace (fun _ => by decide)
      (.cons (.keyword (by decide)) hspace (fun _ => by decide)
        (.cons (.identifier (by decide) (by simp) (by decide)) hspace (fun _ => by decide)
          (.cons hname .nil (fun h => absurd rfl h) .nil)))
  obtain ⟨out, htokens, hmap⟩ := Tokenizer.tokenizeLoop_renders hrenders .nil
    ((lit "DROP TABLE t " ++ c :: s).length + 1) 0 (by simp [lit])
  rw [List.append_nil, List.append_nil] at htokens
  obtain ⟨t₁, _, rfl, h₁, hmap⟩ := List.map_eq_cons_iff.mp hmap
  obtain ⟨t₂, _, rfl, h₂, hmap⟩ := List.map_eq_cons_iff.mp hmap
  obtain ⟨t₃, _, rfl, h₃, hmap⟩ := List.map_eq_cons_iff.mp hmap
  obtain ⟨t₄, _, rfl, h₄, hmap⟩ := List.map_eq_cons_iff.mp hmap
  obtain ⟨t₅, _, rfl, h₅, hmap⟩ := List.map_eq_cons_iff.mp hmap
  obtain rfl := List.map_eq_nil_iff.mp hmap
  obtain ⟨_, _, p₁⟩ := t₁
  obtain ⟨_, _, p₂⟩ := t₂
  obtain ⟨_, _, p₃⟩ := t₃
  obtain ⟨_, _, p₄⟩ := t₄
  obtain ⟨_, _, p₅⟩ := t₅
  cases h₁
  cases h₂
  cases h₃
  cases h₄
  cases h₅
  have hall : Tokenizer.tokenizeAll (lit "DROP TABLE t " ++ c :: s) = pure [⟨.drop, lit "DROP", p₁⟩,
      ⟨.table, lit "TABLE", p₂⟩, ⟨.identifier, lit "t", p₃⟩, ⟨.identifier, c :: s, p₄⟩,
      ⟨.endOfInput, [], p₅⟩] := htokens
  have hexec : parseStatement.exec [⟨.drop, lit "DROP", p₁⟩, ⟨.table, lit "TABLE", p₂⟩,
      ⟨.identifier, lit "t", p₃⟩, ⟨.identifier, c :: s, p₄⟩, ⟨.endOfInput, [], p₅⟩]
      = .ok (.error (trailing (c :: s)), [⟨.identifier, c :: s, p₄⟩, ⟨.endOfInput, [], p₅⟩]) := rfl
  unfold parseSQL
  rw [hall, pure_bind, hexec]
  rfl

/-- `CREATE TABLE t (a INT)` and `INSERT INTO t VALUES (7), (-10)`. -/
def twoRows : List (Statement × Result QueryResult) := [
  (.createTable ⟨lit "t", intColumn, intColumn_ne⟩, .ok { message := lit "CREATE TABLE" }),
  (.insert ⟨lit "t", [], [[.int64 7], [.int64 (-10)]]⟩,
    .ok { rowsAffected := 2, message := lit "INSERT 0 2" })]

/-- The table that is sent in answer to a SELECT. -/
def twoRowsTable : Str := lit "a  \n---\n7  \n-10\n(2 rows)  [SeqScan]"

theorem select_answered : ∃ (db₀ db db' : Database Store) (s : Socket) (written : Str),
    Database.create insertionOrder noTables Store.new = .ok db₀ ∧ Run execStatement db₀ twoRows db ∧
      (@handleRequest _ _ ⟨fun _ => none⟩).exec ⟨db, [], [], (Message.frame (lit "SELECT * FROM t")).bytes⟩
        = .ok (.ok (some (.ok ())), ⟨db', s⟩) ∧ s.sent = written ∧
      ReadableAs written (true, twoRowsTable) := by
  let _ : FloatConversion := ⟨fun _ => none⟩
  obtain ⟨db₀, db, hcreate, hrun, hcheck⟩ := exists_session Store.new twoRows (fun db =>
    decide ((answer ((executeSQL (lit "SELECT * FROM t")).exec db)).map formatQueryResult
      = some twoRowsTable)) (by decide +kernel)
  obtain ⟨res, hres, htable⟩ := Option.map_eq_some_iff.mp (of_decide_eq_true hcheck)
  obtain ⟨db', hresult⟩ := answer_eq_some.mp hres
  obtain ⟨s₁, s, hread, hround, -, -, -⟩ := handleRequest_reliable
    (c := ⟨db, [], [], (Message.frame (lit "SELECT * FROM t")).bytes⟩) (by decide)
    List.not_mem_nil (List.append_nil _).symm hresult
  obtain ⟨written, hsent, -, hreadable⟩ := answer_readable_iff hread hresult hround
  have hsize : answerSize (.ok res) ≤ kMaxFrameSize := by
    rw [← length_answerTo, answerTo, htable]
    decide
  refine ⟨db₀, db, db', s, written, hcreate, hrun, hround, hsent, ?_⟩
  rw [← htable]
  exact hreadable.mpr hsize

/-- A word that fills the frame of a request. -/
def longName : Str := List.replicate (kMaxFrameSize - 13) (byte 'x')

def longRequest : Str := lit "DROP TABLE t " ++ longName

theorem length_longName : longName.length = kMaxFrameSize - 13 := List.length_replicate

/-- A request that fits into a frame, and an answer that does not: it repeats the word with some more
text around it. -/
theorem longRequest_unreadable : longRequest.length ≤ kMaxFrameSize ∧ ∃ (db : Database Store) (s : Socket),
    Database.create insertionOrder noTables Store.new = .ok db ∧
      (@handleRequest _ _ ⟨fun _ => none⟩).exec ⟨db, [], [], (Message.frame longRequest).bytes⟩
        = .ok (.ok (some (.ok ())), ⟨db, s⟩) ∧
      ¬ ReadableAs s.sent (false, (trailing longName).message) := by
  let _ : FloatConversion := ⟨fun _ => none⟩
  have halpha : ∀ c ∈ longName, Lexer.isAlpha c = true := by
    intro c hc
    rw [List.eq_of_mem_replicate hc]
    decide
  have hlong : 7 < longName.length := by
    rw [length_longName]
    decide
  have hsize : longRequest.length ≤ kMaxFrameSize := by
    rw [longRequest, List.length_append, length_longName]
    decide
  obtain ⟨db, -, hcreate, -, -⟩ := exists_session Store.new [] (fun _ => true) (by decide +kernel)
  have hresult : (executeSQL longRequest).exec db = .ok (.error (trailing longName), db) := by
    rw [executeSQL, longRequest, parseSQL_trailing halpha hlong]
    rfl
  obtain ⟨-, s, -, hround, -, -, hsent⟩ := handleRequest_reliable
    (c := ⟨db, [], [], (Message.frame longRequest).bytes⟩) hsize List.not_mem_nil
    (List.append_nil _).symm hresult
  refine ⟨hsize, db, s, hcreate, hround, fun hread => ?_⟩
  rw [hsent, List.nil_append] at hread
  have hfits := (response_readable_iff false (trailing longName).message).mp hread
  rw [length_trailing, length_longName] at hfits
  exact absurd hfits (by decide)

end Network

end MiniDB
