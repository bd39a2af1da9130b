import MiniDB.Network.Protocol

/-!
# Frames survive any chunking

A message is a frame or a response.  Over a transport that fails no call, writing a list of messages
hands their bytes to the transport, and reading the same kinds of messages from a stream that starts with
those bytes returns the messages and takes exactly their bytes, however the transport splits the calls on
either side.  A stream that ends earlier gives the messages that are whole in it, and then an error
(`messages_survive_chunking`).
-/

namespace MiniDB.Network

open Effect Bytes
open Effect.Action (post post_ok wp wp_attempt wp_bind wp_get wp_mono wp_mono_ok wp_mono_post)

/-- The transport fails no call; it may interrupt some. -/
def Socket.Reliable (s : Socket) : Prop := Reply.failed ∉ s.replies

instance (s : Socket) : Decidable s.Reliable := inferInstanceAs (Decidable (_ ∉ _))

/-! ### Single calls -/

variable {s : Socket} {len rounds k : Nat} {rest : Str}

/-- A call moves something, unless nothing is there; the calls behind the replies move everything. -/
theorem transfer_wp (most : Nat) (hs : s.Reliable) :
    wp (fun _ => False) (transfer most)
      (post (fun t s' => ∃ replies, s' = { s with replies } ∧ s'.Reliable ∧
        ((t = .interrupted ∧ replies.length + 1 = s.replies.length) ∨
          ∃ n, t = .moved n ∧ n ≤ most ∧ (0 < most → 0 < n) ∧
            (replies.length + 1 = s.replies.length ∨ (n = most ∧ replies = s.replies))))
        fun _ _ => False) s := by
  unfold transfer
  rw [wp_bind, wp_get, post_ok]
  rcases hr : s.replies with _ | ⟨_ | _ | n, replies⟩
  · exact ⟨[], by rw [← hr], hs, .inr ⟨most, rfl, Nat.le_refl most, id, .inr ⟨rfl, rfl⟩⟩⟩
  · have hrest : Reply.failed ∉ replies := fun h => hs (hr ▸ List.mem_cons_of_mem _ h)
    exact ⟨replies, rfl, hrest, .inl ⟨rfl, rfl⟩⟩
  · exact absurd (hr ▸ List.mem_cons_self ..) hs
  · have hrest : Reply.failed ∉ replies := fun h => hs (hr ▸ List.mem_cons_of_mem _ h)
    exact ⟨replies, rfl, hrest,
      .inr ⟨min (n + 1) most, rfl, Nat.min_le_right .., by omega, .inl rfl⟩⟩

theorem socketSend_wp (data : Str) (hs : s.Reliable) :
    wp (fun _ => False) (socketSend data)
      (post (fun t s' => s'.Reliable ∧ s'.inbox = s.inbox ∧
        ((t = .interrupted ∧ s'.sent = s.sent ∧ s'.replies.length + 1 = s.replies.length) ∨
          ∃ n, t = .moved n ∧ s'.sent = s.sent ++ data.take n ∧
            (s'.replies.length + 1 = s.replies.length ∨
              (data.drop n = [] ∧ s'.replies = s.replies))))
        fun _ _ => False) s := by
  rw [socketSend, wp_bind]
  refine wp_mono_ok ?_ (transfer_wp data.length hs)
  rintro t _ ⟨replies, rfl, hs', ⟨rfl, hlen⟩ | ⟨n, rfl, -, -, hlen⟩⟩
  · exact ⟨hs', rfl, .inl ⟨rfl, rfl, hlen⟩⟩
  · refine ⟨hs', rfl, .inr ⟨n, rfl, rfl, hlen.imp_right ?_⟩⟩
    rintro ⟨rfl, hsame⟩
    exact ⟨List.drop_length, hsame⟩

theorem socketRecv_wp (hlen : 0 < len) (hs : s.Reliable) :
    wp (fun _ => False) (socketRecv len)
      (post (fun r s' => s'.Reliable ∧ s'.sent = s.sent ∧
        ((r.1 = .interrupted ∧ s'.inbox = s.inbox ∧ s'.replies.length + 1 = s.replies.length) ∨
          ∃ n, r = (.moved n, s.inbox.take n) ∧ n ≤ len ∧ n ≤ s.inbox.length ∧
            (n = 0 → s.inbox = []) ∧ s'.inbox = s.inbox.drop n ∧
            (s'.replies.length + 1 = s.replies.length ∨
              ((n = len ∨ s'.inbox = []) ∧ s'.replies = s.replies))))
        fun _ _ => False) s := by
  rw [socketRecv, wp_bind, wp_get, post_ok, wp_bind]
  refine wp_mono_ok ?_ (transfer_wp (min len s.inbox.length) hs)
  rintro t _ ⟨replies, rfl, hs', ⟨rfl, hshort⟩ | ⟨n, rfl, hle, hpos, hshort⟩⟩
  · exact ⟨hs', rfl, .inl ⟨rfl, rfl, hshort⟩⟩
  · refine ⟨hs', rfl, .inr ⟨n, rfl, by omega, by omega, fun hn => ?_, rfl, hshort.imp_right ?_⟩⟩
    · exact List.eq_nil_of_length_eq_zero (by omega)
    · rintro ⟨rfl, hsame⟩
      refine ⟨?_, hsame⟩
      rcases Nat.le_total len s.inbox.length with h | h
      · exact .inl (Nat.min_eq_left h)
      · exact .inr (by rw [Nat.min_eq_right h]; exact List.drop_length)

/-! ### Sending and receiving -/

theorem writeAllLoop_wp {data : Str} (hs : s.Reliable)
    (hrounds : s.replies.length + 1 < rounds ∨ (data = [] ∧ 0 < rounds)) :
    wp (fun _ => False) (writeAllLoop rounds data)
      (post (fun b s' => b = true ∧ s'.Reliable ∧ s'.sent = s.sent ++ data ∧ s'.inbox = s.inbox)
        fun _ _ => False) s := by
  induction rounds generalizing data s with
  | zero => omega
  | succ rounds ih =>
    unfold writeAllLoop
    by_cases hdata : data = []
    · subst hdata
      exact ⟨rfl, hs, (List.append_nil _).symm, rfl⟩
    · have hrounds : s.replies.length < rounds := by
        have := hrounds.resolve_right fun h => hdata h.1
        omega
      rw [if_neg (by rwa [List.isEmpty_iff]), wp_bind]
      refine wp_mono_ok ?_ (socketSend_wp data hs)
      rintro _ s' ⟨hs', hinbox, ⟨rfl, hsent, hlen⟩ | ⟨n, rfl, hsent, hlen⟩⟩
      · rw [← hsent, ← hinbox]
        exact ih hs' (.inl (by omega))
      · refine wp_mono_ok ?_ (@ih s' (data.drop n) hs' ?_)
        · rintro b s'' ⟨rfl, hs'', hsent', hinbox'⟩
          refine ⟨rfl, hs'', ?_, hinbox'.trans hinbox⟩
          rw [hsent', hsent, List.append_assoc, List.take_append_drop]
        · rcases hlen with hlen | ⟨hnil, -⟩
          · exact .inl (by omega)
          · exact .inr ⟨hnil, by omega⟩

theorem writeAll_wp (data : Str) (hs : s.Reliable) :
    wp (fun _ => False) (writeAll data)
      (post (fun b s' => b = true ∧ s'.Reliable ∧ s'.sent = s.sent ++ data ∧ s'.inbox = s.inbox)
        fun _ _ => False) s := by
  rw [writeAll, wp_bind, wp_get, post_ok]
  exact writeAllLoop_wp hs (.inl (by omega))

/-- All the bytes that were asked for, if so many arrive. -/
theorem readAllLoop_wp (hs : s.Reliable) (hrounds : s.replies.length + 1 < rounds ∨
      ((len = 0 ∨ s.inbox = []) ∧ s.replies.length < rounds)) :
    wp (fun _ => False) (readAllLoop rounds len)
      (post (fun r s' => s'.Reliable ∧ s'.sent = s.sent ∧
        if len ≤ s.inbox.length then r = some (s.inbox.take len) ∧ s'.inbox = s.inbox.drop len
        else r = none) fun _ _ => False) s := by
  induction rounds generalizing len s with
  | zero => omega
  | succ rounds ih =>
    unfold readAllLoop
    rcases Nat.eq_zero_or_pos len with rfl | hpos
    · exact ⟨hs, rfl, rfl, rfl⟩
    · rw [if_neg (by omega), wp_bind]
      refine wp_mono_ok ?_ (socketRecv_wp hpos hs)
      rintro ⟨t, bytes⟩ s' ⟨hs', hsent, ⟨h, hinbox, hlen⟩ | ⟨n, h, hle, hle', hzero, hinbox, hlen⟩⟩
      · obtain rfl : t = .interrupted := h
        rw [← hsent, ← hinbox]
        refine ih hs' (hrounds.imp (by omega) ?_)
        rw [hinbox]
        exact fun h => ⟨h.1, by omega⟩
      · cases h
        cases n with
        | zero =>
          -- `recv` returned 0: the stream has ended
          refine ⟨hs', hsent, ?_⟩
          rw [hzero rfl, if_neg (by simp; omega)]
        | succ n =>
          show wp _ (readAllLoop rounds (len - (n + 1)) >>= _) _ _
          have hnext : s'.replies.length + 1 < rounds ∨
              ((len - (n + 1) = 0 ∨ s'.inbox = []) ∧ s'.replies.length < rounds) := by
            have hrounds : s.replies.length < rounds := by
              rcases hrounds with h | ⟨rfl | hnil, -⟩
              · omega
              · omega
              · rw [hnil] at hle'
                exact absurd hle' (by simp)
            rcases hlen with hlen | ⟨hdone, hsame⟩
            · exact .inl (by omega)
            · exact .inr ⟨hdone.imp_left (by omega), by rwa [hsame]⟩
          rw [wp_bind]
          refine wp_mono_ok ?_ (ih hs' hnext)
          rintro r s'' ⟨hs'', hsent', hr⟩
          refine ⟨hs'', hsent'.trans hsent, ?_⟩
          rw [hinbox, List.length_drop] at hr
          by_cases henough : len ≤ s.inbox.length
          · rw [if_pos (by omega)] at hr
            obtain ⟨rfl, hinbox'⟩ := hr
            rw [if_pos henough, Option.map_some, ← List.take_add, hinbox', List.drop_drop,
              Nat.add_sub_cancel' hle]
            exact ⟨rfl, rfl⟩
          · rw [if_neg (by omega)] at hr
            rw [if_neg henough, hr]
            rfl

theorem readAll_wp (len : Nat) (hs : s.Reliable) :
    wp (fun _ => False) (readAll len)
      (post (fun r s' => s'.Reliable ∧ s'.sent = s.sent ∧
        if len ≤ s.inbox.length then r = some (s.inbox.take len) ∧ s'.inbox = s.inbox.drop len
        else r = none) fun _ _ => False) s := by
  rw [readAll, wp_bind, wp_get, post_ok]
  exact readAllLoop_wp hs (.inl (by omega))

/-! ### Messages -/

/-- What one side writes and the other reads. -/
inductive Message
  | frame (payload : Str)
  | response (ok : Bool) (payload : Str)
  deriving DecidableEq

/-- The call that reads a message. -/
inductive Kind
  | frame
  | response
  deriving DecidableEq

namespace Message

def payload : Message → Str
  | frame payload => payload
  | response _ payload => payload

def kind : Message → Kind
  | frame _ => .frame
  | response .. => .response

/-- The bytes of a message. -/
def bytes : Message → Str
  | frame payload => htonl (UInt32.ofNat payload.length) ++ payload
  | response ok payload =>
    (if ok then 0 else 1) :: (htonl (UInt32.ofNat payload.length) ++ payload)

/-- The call that writes a message. -/
def write : Message → Net Unit
  | frame payload => writeFrame payload
  | response ok payload => writeResponse ok payload

end Message

/-- The call that reads a message of that kind. -/
def Kind.read : Kind → Net Message
  | .frame => do
    let payload ← readFrame
    return .frame payload
  | .response => do
    let (ok, payload) ← readResponse
    return .response ok payload

/-- Write the messages in order. -/
def writeMessages (messages : List Message) : Net Unit := messages.forM Message.write

/-- Read messages of these kinds in order, with the result of each call. -/
def readMessages : List Kind → Net (List (Result Message))
  | [] => return []
  | kind :: kinds => do
    let r ← kind.read.attempt
    let rs ← readMessages kinds
    return r :: rs

theorem length_htonl (n : UInt32) : (htonl n).length = 4 := by
  rw [htonl, List.length_reverse, length_leBytes]

theorem ntohl_htonl (n : UInt32) : ntohl (htonl n) = n := by
  rw [ntohl, htonl, List.reverse_reverse, leNat_leBytes_of_lt n.toNat_lt]
  exact UInt32.ofNat_toNat

/-! ### Writing -/

theorem writeFrame_wp (payload : Str) (hs : s.Reliable) :
    wp (fun _ => False) (writeFrame payload)
      (post (fun _ s' => s'.Reliable ∧ s'.sent = s.sent ++ (Message.frame payload).bytes ∧
        s'.inbox = s.inbox) fun _ _ => False) s := by
  rw [writeFrame, wp_bind]
  refine wp_mono_ok ?_ (writeAll_wp _ hs)
  rintro _ s₁ ⟨rfl, hs₁, hsent₁, hinbox₁⟩
  show wp _ (writeAll payload >>= _) _ _
  rw [wp_bind]
  refine wp_mono_ok ?_ (writeAll_wp _ hs₁)
  rintro _ s₂ ⟨rfl, hs₂, hsent₂, hinbox₂⟩
  refine ⟨hs₂, ?_, hinbox₂.trans hinbox₁⟩
  rw [hsent₂, hsent₁, List.append_assoc, Message.bytes]

theorem Message.write_wp (m : Message) (hs : s.Reliable) :
    wp (fun _ => False) m.write
      (post (fun _ s' => s'.Reliable ∧ s'.sent = s.sent ++ m.bytes ∧ s'.inbox = s.inbox)
        fun _ _ => False) s := by
  cases m with
  | frame payload => exact writeFrame_wp payload hs
  | response ok payload =>
    rw [write, writeResponse, wp_bind]
    refine wp_mono_ok ?_ (writeAll_wp _ hs)
    rintro _ s₁ ⟨rfl, hs₁, hsent₁, hinbox₁⟩
    show wp _ (writeFrame payload) _ _
    refine wp_mono_ok ?_ (writeFrame_wp payload hs₁)
    rintro _ s₂ ⟨hs₂, hsent₂, hinbox₂⟩
    refine ⟨hs₂, ?_, hinbox₂.trans hinbox₁⟩
    rw [hsent₂, hsent₁, List.append_assoc]
    rfl

theorem writeMessages_wp (messages : List Message) (hs : s.Reliable) :
    wp (fun _ => False) (writeMessages messages)
      (post (fun _ s' => s'.Reliable ∧ s'.sent = s.sent ++ messages.flatMap Message.bytes)
        fun _ _ => False) s := by
  induction messages generalizing s with
  | nil => exact ⟨hs, (List.append_nil _).symm⟩
  | cons m messages ih =>
    show wp _ (m.write >>= fun _ => writeMessages messages) _ _
    rw [wp_bind]
    refine wp_mono_ok ?_ (m.write_wp hs)
    rintro _ s₁ ⟨hs₁, hsent₁, -⟩
    refine wp_mono_ok ?_ (ih hs₁)
    rintro _ s₂ ⟨hs₂, hsent₂⟩
    exact ⟨hs₂, by rw [hsent₂, hsent₁, List.append_assoc, List.flatMap_cons]⟩

/-! ### Reading -/

/-- As many bytes as are there. -/
theorem readAll_whole (bytes : Str) (hs : s.Reliable) (h : s.inbox = bytes ++ rest) :
    wp (fun _ => False) (readAll bytes.length)
      (post (fun r s' => r = some bytes ∧ s'.Reliable ∧ s'.inbox = rest) fun _ _ => False) s := by
  refine wp_mono_ok ?_ (readAll_wp bytes.length hs)
  rintro r s' ⟨hs', -, hr⟩
  rw [h, if_pos (by simp), List.take_left, List.drop_left] at hr
  exact ⟨hr.1, hs', hr.2⟩

/-- More bytes than are there. -/
theorem readAll_short (hs : s.Reliable) (h : s.inbox.length < len) :
    wp (fun _ => False) (readAll len) (post (fun r _ => r = none) fun _ _ => False) s := by
  refine wp_mono_ok ?_ (readAll_wp len hs)
  rintro r s' ⟨-, -, hr⟩
  rwa [if_neg (by omega)] at hr

theorem toNat_length {payload : Str} (h : payload.length ≤ kMaxFrameSize) :
    (UInt32.ofNat payload.length).toNat = payload.length := by
  rw [UInt32.toNat_ofNat', Nat.mod_eq_of_lt]
  exact Nat.lt_of_le_of_lt h (by decide)

theorem readFrame_whole {payload : Str} (hsize : payload.length ≤ kMaxFrameSize) (hs : s.Reliable)
    (h : s.inbox = (Message.frame payload).bytes ++ rest) :
    wp (fun _ => False) readFrame
      (post (fun p s' => p = payload ∧ s'.Reliable ∧ s'.inbox = rest) fun _ _ => False) s := by
  rw [Message.bytes, List.append_assoc] at h
  have hread := readAll_whole _ hs h
  rw [length_htonl] at hread
  rw [readFrame, wp_bind]
  refine wp_mono_ok ?_ hread
  rintro _ s₁ ⟨rfl, hs₁, hinbox₁⟩
  dsimp only
  rw [ntohl_htonl, toNat_length hsize, if_neg (by omega)]
  split_ifs with hpos
  · rw [wp_bind]
    refine wp_mono_ok ?_ (readAll_whole _ hs₁ hinbox₁)
    rintro _ s₂ ⟨rfl, hs₂, hinbox₂⟩
    exact ⟨rfl, hs₂, hinbox₂⟩
  · obtain rfl : payload = [] := List.eq_nil_of_length_eq_zero (by omega)
    exact ⟨rfl, hs₁, hinbox₁⟩

theorem readFrame_torn {payload : Str} (hsize : payload.length ≤ kMaxFrameSize)
    (hk : k < (Message.frame payload).bytes.length) (hs : s.Reliable)
    (h : s.inbox = (Message.frame payload).bytes.take k) :
    wp (fun _ => False) readFrame (post (fun _ _ => False) fun _ _ => True) s := by
  rw [Message.bytes, List.length_append, length_htonl] at hk
  rw [readFrame, wp_bind]
  by_cases hlength : k < 4
  · refine wp_mono_post ?_ (fun _ _ _ => trivial) (readAll_short hs ?_)
    · rintro _ _ rfl
      trivial
    · rw [h, List.length_take]
      omega
  · rw [Message.bytes, List.take_append, length_htonl, List.take_of_length_le
      (by rw [length_htonl]; omega)] at h
    have hread := readAll_whole _ hs h
    rw [length_htonl] at hread
    refine wp_mono_post ?_ (fun _ _ _ => trivial) hread
    rintro _ s₁ ⟨rfl, hs₁, hinbox₁⟩
    dsimp only
    rw [ntohl_htonl, toNat_length hsize, if_neg (by omega), if_pos (by omega), wp_bind]
    refine wp_mono_post ?_ (fun _ _ _ => trivial) (readAll_short hs₁ ?_)
    · rintro _ _ rfl
      trivial
    · rw [hinbox₁, List.length_take]
      omega

theorem readResponse_whole {ok : Bool} {payload : Str} (hsize : payload.length ≤ kMaxFrameSize)
    (hs : s.Reliable) (h : s.inbox = (Message.response ok payload).bytes ++ rest) :
    wp (fun _ => False) readResponse
      (post (fun r s' => r = (ok, payload) ∧ s'.Reliable ∧ s'.inbox = rest)
        fun _ _ => False) s := by
  have hread := readAll_whole [if ok then 0 else 1] hs h
  rw [readResponse, wp_bind]
  refine wp_mono_ok ?_ hread
  rintro _ s₁ ⟨rfl, hs₁, hinbox₁⟩
  show wp _ (readFrame >>= _) _ _
  rw [wp_bind]
  refine wp_mono_ok ?_ (readFrame_whole hsize hs₁ hinbox₁)
  rintro _ s₂ ⟨rfl, hs₂, hinbox₂⟩
  refine ⟨?_, hs₂, hinbox₂⟩
  cases ok <;> rfl

variable {m : Message} {messages : List Message}

theorem Message.read_whole (hsize : m.payload.length ≤ kMaxFrameSize) (hs : s.Reliable)
    (h : s.inbox = m.bytes ++ rest) :
    wp (fun _ => False) m.kind.read
      (post (fun m' s' => m' = m ∧ s'.Reliable ∧ s'.inbox = rest) fun _ _ => False) s := by
  cases m with
  | frame payload =>
    rw [kind, Kind.read, wp_bind]
    refine wp_mono_ok ?_ (readFrame_whole hsize hs h)
    rintro _ s₁ ⟨rfl, hs₁, hinbox₁⟩
    exact ⟨rfl, hs₁, hinbox₁⟩
  | response ok payload =>
    rw [kind, Kind.read, wp_bind]
    refine wp_mono_ok ?_ (readResponse_whole hsize hs h)
    rintro _ s₁ ⟨rfl, hs₁, hinbox₁⟩
    exact ⟨rfl, hs₁, hinbox₁⟩

theorem Message.read_torn (hsize : m.payload.length ≤ kMaxFrameSize) (hk : k < m.bytes.length)
    (hs : s.Reliable) (h : s.inbox = m.bytes.take k) :
    wp (fun _ => False) m.kind.read (post (fun _ _ => False) fun _ _ => True) s := by
  cases m with
  | frame payload =>
    rw [kind, Kind.read, wp_bind]
    exact wp_mono_post (fun _ _ h => h.elim) (fun _ _ _ => trivial)
      (readFrame_torn hsize hk hs h)
  | response ok payload =>
    rw [kind, Kind.read, readResponse, bind_assoc, wp_bind]
    cases k with
    | zero =>
      refine wp_mono_post ?_ (fun _ _ _ => trivial) (readAll_short hs (by simp [h]))
      rintro _ _ rfl
      trivial
    | succ k =>
      have hread := readAll_whole [if ok then 0 else 1] hs h
      refine wp_mono_post ?_ (fun _ _ _ => trivial) hread
      rintro _ s₁ ⟨rfl, hs₁, hinbox₁⟩
      show wp _ ((readFrame >>= _) >>= _) _ _
      rw [bind_assoc, wp_bind]
      exact wp_mono_post (fun _ _ h => h.elim) (fun _ _ _ => trivial)
        (readFrame_torn hsize (Nat.lt_of_succ_lt_succ hk) hs₁ hinbox₁)

theorem readMessages_whole (hsize : ∀ m ∈ messages, m.payload.length ≤ kMaxFrameSize) (hs : s.Reliable)
    (h : s.inbox = messages.flatMap Message.bytes ++ rest) :
    wp (fun _ => False) (readMessages (messages.map Message.kind))
      (post (fun rs s' => rs = messages.map .ok ∧ s'.inbox = rest) fun _ _ => False) s := by
  induction messages generalizing s with
  | nil => exact ⟨rfl, h⟩
  | cons m messages ih =>
    rw [List.flatMap_cons, List.append_assoc] at h
    rw [List.map_cons, readMessages, wp_bind, wp_attempt]
    refine wp_mono ?_ (m.read_whole (hsize m (List.mem_cons_self ..)) hs h)
    rintro (e | m') s₁ hpost
    · exact hpost.elim
    · obtain ⟨rfl, hs₁, hinbox₁⟩ := hpost
      rw [post_ok, wp_bind]
      refine wp_mono_ok ?_
        (ih (fun m hm => hsize m (List.mem_cons_of_mem _ hm)) hs₁ hinbox₁)
      rintro _ s₂ ⟨rfl, hinbox₂⟩
      exact ⟨rfl, hinbox₂⟩

/-- The stream ends inside of a message: those before it are returned, and then an error. -/
theorem readMessages_torn (hsize : ∀ m ∈ messages, m.payload.length ≤ kMaxFrameSize) {n : Nat}
    (hn : n < (messages.flatMap Message.bytes).length) (hs : s.Reliable)
    (h : s.inbox = (messages.flatMap Message.bytes).take n) :
    ∃ before m after, messages = before ++ m :: after ∧ (before.flatMap Message.bytes).length ≤ n ∧
      n < ((before ++ [m]).flatMap Message.bytes).length ∧
      wp (fun _ => False) (readMessages ((before ++ [m]).map Message.kind))
        (post (fun rs _ => ∃ e, rs = before.map .ok ++ [.error e]) fun _ _ => False) s := by
  induction messages generalizing n s with
  | nil => simp at hn
  | cons m messages ih =>
    rw [List.flatMap_cons, List.length_append] at hn
    rw [List.flatMap_cons, List.take_append] at h
    have hm := hsize m (List.mem_cons_self ..)
    by_cases hcut : n < m.bytes.length
    · refine ⟨[], m, messages, rfl, Nat.zero_le n, by simpa using hcut, ?_⟩
      rw [Nat.sub_eq_zero_of_le (by omega), List.take_zero, List.append_nil] at h
      rw [List.nil_append, List.map_singleton, readMessages, wp_bind, wp_attempt]
      refine wp_mono ?_ (m.read_torn hm hcut hs h)
      rintro (e | m') s₁ hpost
      · exact ⟨e, rfl⟩
      · exact hpost.elim
    · rw [List.take_of_length_le (by omega)] at h
      obtain ⟨s₁, hwp, hs₁, hinbox₁⟩ : ∃ s₁, m.kind.read.exec s = .ok (.ok m, s₁) ∧ s₁.Reliable ∧
          s₁.inbox = (messages.flatMap Message.bytes).take (n - m.bytes.length) := by
        obtain ⟨r, s₁, hexec, hpost⟩ := Action.exec_of_wp (m.read_whole hm hs h)
        rcases r with e | m'
        · exact hpost.elim
        · obtain ⟨rfl, hs₁, hinbox₁⟩ := hpost
          exact ⟨s₁, hexec, hs₁, hinbox₁⟩
      obtain ⟨before, m', after, rfl, hle, hlt, hread⟩ :=
        ih (fun m hm => hsize m (List.mem_cons_of_mem _ hm)) (by omega) hs₁ hinbox₁
      refine ⟨m :: before, m', after, rfl, ?_, ?_, ?_⟩
      · rw [List.flatMap_cons, List.length_append]
        omega
      · rw [List.cons_append, List.flatMap_cons, List.length_append]
        omega
      · rw [List.cons_append, List.map_cons, readMessages, wp_bind, wp_attempt]
        refine Action.wp_of_exec hwp ?_
        rw [post_ok, wp_bind]
        refine wp_mono_ok ?_ hread
        rintro _ s₂ ⟨e, rfl⟩
        exact ⟨e, rfl⟩

/-- **Frames survive any chunking**: however the transport splits the calls of the writer and of the
reader, the calls that read the messages return them and take exactly their bytes; and when the stream
ends inside of a message, the reader returns those before it and then an error. -/
theorem messages_survive_chunking (messages : List Message)
    (hsize : ∀ m ∈ messages, m.payload.length ≤ kMaxFrameSize) (w : Socket) (hw : w.Reliable) :
    ∃ w' stream, (writeMessages messages).exec w = .ok (.ok (), w') ∧ w'.sent = w.sent ++ stream ∧
      (∀ (r : Socket) (rest : Str), r.Reliable → r.inbox = stream ++ rest →
        ∃ r', (readMessages (messages.map Message.kind)).exec r = .ok (.ok (messages.map .ok), r') ∧
          r'.inbox = rest) ∧
      ∀ (r : Socket) (n : Nat), r.Reliable → n < stream.length → r.inbox = stream.take n →
        ∃ before m after e r', messages = before ++ m :: after ∧
          (before.flatMap Message.bytes).length ≤ n ∧
          n < ((before ++ [m]).flatMap Message.bytes).length ∧
          (readMessages ((before ++ [m]).map Message.kind)).exec r =
            .ok (.ok (before.map .ok ++ [.error e]), r') := by
  obtain ⟨_ | _, w', hwrite, hpost⟩ := Action.exec_of_wp (writeMessages_wp messages hw)
  · exact hpost.elim
  refine ⟨w', messages.flatMap Message.bytes, hwrite, hpost.2, fun r rest hr hinbox => ?_,
    fun r n hr hn hinbox => ?_⟩
  · obtain ⟨_ | rs, r', hread, hpost⟩ := Action.exec_of_wp (readMessages_whole hsize hr hinbox)
    · exact hpost.elim
    · obtain ⟨rfl, hrest⟩ := hpost
      exact ⟨r', hread, hrest⟩
  · obtain ⟨before, m, after, hmessages, hle, hlt, hwp⟩ := readMessages_torn hsize hn hr hinbox
    obtain ⟨_ | rs, r', hread, hpost⟩ := Action.exec_of_wp hwp
    · exact hpost.elim
    · obtain ⟨e, rfl⟩ := hpost
      exact ⟨before, m, after, e, r', hmessages, hle, hlt, hread⟩

/-- An empty frame and a response. -/
def twoMessages : List Message := [.frame [], .response false [7]]

theorem twoMessages_survive_chunking :
    ∃ w' stream, (writeMessages twoMessages).exec ⟨[.part 0, .interrupted, .part 2], [], []⟩ =
        .ok (.ok (), w') ∧ w'.sent = stream ∧
      ∃ r', (readMessages [.frame, .response]).exec ⟨[.part 1, .part 5], [], stream⟩ =
        .ok (.ok (twoMessages.map .ok), r') ∧ r'.inbox = [] := by
  obtain ⟨w', stream, hwrite, hsent, hread, -⟩ := messages_survive_chunking twoMessages (by decide)
    ⟨[.part 0, .interrupted, .part 2], [], []⟩ (by decide)
  exact ⟨w', stream, hwrite, hsent, hread ⟨[.part 1, .part 5], [], stream⟩ [] (by simp [Socket.Reliable])
    (List.append_nil stream).symm⟩

end MiniDB.Network
