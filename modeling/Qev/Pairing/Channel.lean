import Qev.Lib.Bytes

/-! The Noise channel of `handshake.rs`: framing, `Channel::send` and
`Channel::recv`, and `read_frame` as the future that the runtime polls. The
cipher state that `snow` holds after the handshake is a parameter. -/

namespace Qev.Pairing

def MAX_TRANSPORT_MSG : Nat := 65535 - 16

inductive Error where
  | TransportTooLarge (size max : Nat)
  | TransportDecrypt
  | Io
  deriving DecidableEq, Repr

def Error.display : Error → String
  | TransportTooLarge size max => s!"transport message too large: {size} bytes (max {max})"
  | TransportDecrypt => "transport message decrypt failed: decrypt error"
  | Io => "io: early eof"

/-- One direction of a transport state: ChaCha20-Poly1305 under that
direction's key, with empty associated data and the message counter as nonce.
Only the encryption of a message under the same counter decrypts to it. -/
structure Cipher where
  write_message : Nat → Bytes → Bytes
  read_message : Nat → Bytes → Option Bytes
  write_length : ∀ n p, (write_message n p).length = p.length + 16
  read_eq_some : ∀ n c p, read_message n c = some p ↔ c = write_message n p

/-- A cipher to run the model with: the tag is the counter in sixteen bytes. -/
def Cipher.counting : Cipher where
  write_message n p := beBytes 16 n ++ p
  read_message n c := if c.take 16 = beBytes 16 n then some (c.drop 16) else none
  write_length n p := by simp; omega
  read_eq_some n c p := by
    constructor
    · intro h
      split at h
      · rename_i tag
        rw [← tag, ← Option.some.inj h, List.take_append_drop]
      · cases h
    · intro written
      simp [written]

/-! ## Framing -/

def write_frame (msg : Bytes) : Except Error Bytes :=
  if msg.length > 65535 then .error (.TransportTooLarge msg.length 65535)
  else .ok (beBytes 2 msg.length ++ msg)

/-- The first frame of `io` and what follows it; an error where the stream
ends inside the frame. -/
def read_frame (io : Bytes) : Except Error (Bytes × Bytes) :=
  if io.length < 2 then .error .Io
  else
    let len := beNat (io.take 2)
    if (io.drop 2).length < len then .error .Io
    else .ok ((io.drop 2).take len, (io.drop 2).drop len)

theorem write_frame_ok {msg : Bytes} (h : msg.length ≤ 65535) :
    write_frame msg = .ok (beBytes 2 msg.length ++ msg) := by
  simp [write_frame, Nat.not_lt.mpr h]

/-- A written frame is read back whole, whatever follows it. -/
theorem read_frame_write {msg rest : Bytes} (h : msg.length ≤ 65535) :
    read_frame (beBytes 2 msg.length ++ msg ++ rest) = .ok (msg, rest) := by
  have head : (beBytes 2 msg.length ++ (msg ++ rest)).take 2 = beBytes 2 msg.length := by
    rw [List.take_append_of_le_length (by simp), List.take_of_length_le (by simp)]
  have tail : (beBytes 2 msg.length ++ (msg ++ rest)).drop 2 = msg ++ rest := by
    rw [List.drop_append_of_le_length (by simp), List.drop_of_length_le (by simp), List.nil_append]
  have long : ¬ (beBytes 2 msg.length ++ (msg ++ rest)).length < 2 := by
    rw [List.length_append, beBytes_length]
    omega
  rw [List.append_assoc, read_frame, if_neg long, head, tail, beNat_beBytes 2 _ (by omega)]
  simp

/-! ## The channel -/

structure Channel where
  sending : Cipher
  receiving : Cipher
  sending_nonce : Nat
  receiving_nonce : Nat

/-- Encrypt one message; the bytes that `write_frame` puts on the stream. -/
def Channel.send (ch : Channel) (plaintext : Bytes) : Except Error (Channel × Bytes) :=
  if plaintext.length > MAX_TRANSPORT_MSG then
    .error (.TransportTooLarge plaintext.length MAX_TRANSPORT_MSG)
  else do
    let ciphertext := ch.sending.write_message ch.sending_nonce plaintext
    let frame ← write_frame ciphertext
    return ({ ch with sending_nonce := ch.sending_nonce + 1 }, frame)

/-- What `recv` makes of one frame it has read. -/
def Channel.open_frame (ch : Channel) (ciphertext : Bytes) : Except Error (Channel × Bytes) :=
  if ciphertext.length > MAX_TRANSPORT_MSG + 16 then
    .error (.TransportTooLarge ciphertext.length (MAX_TRANSPORT_MSG + 16))
  else
    match ch.receiving.read_message ch.receiving_nonce ciphertext with
    | none => .error .TransportDecrypt
    | some plaintext => .ok ({ ch with receiving_nonce := ch.receiving_nonce + 1 }, plaintext)

/-- Receive one message from a stream that holds all the bytes it will hold. -/
def Channel.recv (ch : Channel) (io : Bytes) : Except Error (Channel × Bytes × Bytes) := do
  let (ciphertext, rest) ← read_frame io
  let (ch, plaintext) ← ch.open_frame ciphertext
  return (ch, plaintext, rest)

/-- The frame that carries `plaintext` as message number `n`. -/
def Cipher.frame (c : Cipher) (n : Nat) (plaintext : Bytes) : Bytes :=
  beBytes 2 (c.write_message n plaintext).length ++ c.write_message n plaintext

/-- The stream that carries `plaintexts`, the first as message number `n`. -/
def Cipher.frames (c : Cipher) (n : Nat) : List Bytes → Bytes
  | [] => []
  | p :: ps => c.frame n p ++ c.frames (n + 1) ps

theorem Cipher.frames_append (c : Cipher) (n : Nat) (ps qs : List Bytes) :
    c.frames n (ps ++ qs) = c.frames n ps ++ c.frames (n + ps.length) qs := by
  induction ps generalizing n with
  | nil => rfl
  | cons p ps ih =>
    rw [List.cons_append, frames, frames, ih, List.append_assoc, List.length_cons,
      Nat.add_right_comm, Nat.add_assoc n]

theorem Channel.send_ok (ch : Channel) {plaintext : Bytes}
    (h : plaintext.length ≤ MAX_TRANSPORT_MSG) :
    ch.send plaintext = .ok ({ ch with sending_nonce := ch.sending_nonce + 1 },
      ch.sending.frame ch.sending_nonce plaintext) := by
  have fits : (ch.sending.write_message ch.sending_nonce plaintext).length ≤ 65535 := by
    rw [ch.sending.write_length]; simp only [MAX_TRANSPORT_MSG] at h; omega
  simp only [Channel.send, Nat.not_lt.mpr h, ↓reduceIte, write_frame_ok fits]
  rfl

/-- Sending moves nothing but the sending counter. -/
theorem Channel.send_eq_ok {ch ch' : Channel} {plaintext frame : Bytes}
    (h : ch.send plaintext = .ok (ch', frame)) :
    ch' = { ch with sending_nonce := ch.sending_nonce + 1 } := by
  by_cases small : plaintext.length ≤ MAX_TRANSPORT_MSG
  · rw [ch.send_ok small] at h
    cases h
    rfl
  · rw [Channel.send, if_pos (Nat.not_le.mp small)] at h
    cases h

theorem Channel.send_too_large (ch : Channel) {plaintext : Bytes}
    (h : MAX_TRANSPORT_MSG < plaintext.length) :
    ch.send plaintext = .error (.TransportTooLarge plaintext.length MAX_TRANSPORT_MSG) := by
  simp [Channel.send, h]

theorem Channel.open_frame_write (ch : Channel) {plaintext : Bytes}
    (h : plaintext.length ≤ MAX_TRANSPORT_MSG) :
    ch.open_frame (ch.receiving.write_message ch.receiving_nonce plaintext) =
      .ok ({ ch with receiving_nonce := ch.receiving_nonce + 1 }, plaintext) := by
  have opened := (ch.receiving.read_eq_some ch.receiving_nonce _ plaintext).mpr rfl
  have fits := ch.receiving.write_length ch.receiving_nonce plaintext
  simp only [Channel.open_frame, opened]
  rw [if_neg (by omega)]

/-- What one side sends, the other receives, when their counters agree. -/
theorem Channel.recv_frame (ch : Channel) {plaintext : Bytes} (rest : Bytes)
    (h : plaintext.length ≤ MAX_TRANSPORT_MSG) :
    ch.recv (ch.receiving.frame ch.receiving_nonce plaintext ++ rest) =
      .ok ({ ch with receiving_nonce := ch.receiving_nonce + 1 }, plaintext, rest) := by
  have fits : (ch.receiving.write_message ch.receiving_nonce plaintext).length ≤ 65535 := by
    rw [ch.receiving.write_length]; simp only [MAX_TRANSPORT_MSG] at h; omega
  simp only [Channel.recv, Cipher.frame, read_frame_write fits]
  change (do let (ch, plaintext) ← ch.open_frame _; return (ch, plaintext, rest)) = _
  rw [ch.open_frame_write h]
  rfl

/-! ## `read_frame` as a future -/

/-- How far a `read_frame` future has come: the bytes of the length, or the
length and the bytes of the body. They stand in the future's own buffers. -/
inductive ReadFrame where
  | length (len_buf : Bytes)
  | body (len : Nat) (buf : Bytes)
  deriving DecidableEq, Repr

def ReadFrame.start : ReadFrame := .length []

/-- What one poll with `io` ready on the socket comes to. -/
inductive Poll where
  | pending (f : ReadFrame)
  | ready (msg : Bytes) (io : Bytes)
  deriving DecidableEq, Repr

def ReadFrame.pollBody (len : Nat) (buf io : Bytes) : Poll :=
  if io.length < len - buf.length then .pending (.body len (buf ++ io))
  else .ready (buf ++ io.take (len - buf.length)) (io.drop (len - buf.length))

/-- Each `read_exact` takes what is ready and yields when that is not enough. -/
def ReadFrame.poll : ReadFrame → Bytes → Poll
  | .length len_buf, io =>
    if io.length < 2 - len_buf.length then .pending (.length (len_buf ++ io))
    else pollBody (beNat (len_buf ++ io.take (2 - len_buf.length))) []
      (io.drop (2 - len_buf.length))
  | .body len buf, io => pollBody len buf io

/-- The bytes the future has taken off the socket. -/
def ReadFrame.taken : ReadFrame → Bytes
  | .length len_buf => len_buf
  | .body len buf => beBytes 2 len ++ buf

/-- A future that has not yet got what it is waiting for. -/
def ReadFrame.Waiting : ReadFrame → Prop
  | .length len_buf => len_buf.length < 2
  | .body len buf => buf.length < len ∧ len < 256 ^ 2

theorem ReadFrame.pollBody_pending {len : Nat} {buf io : Bytes} {f : ReadFrame}
    (room : buf.length ≤ len) (bound : len < 256 ^ 2) (h : pollBody len buf io = .pending f) :
    f.Waiting ∧ f.taken = beBytes 2 len ++ (buf ++ io) := by
  unfold pollBody at h
  split at h
  · cases h
    exact ⟨⟨by simp; omega, bound⟩, rfl⟩
  · cases h

theorem ReadFrame.pollBody_ready {len : Nat} {buf io msg rest : Bytes}
    (room : buf.length ≤ len) (h : pollBody len buf io = .ready msg rest) :
    msg.length = len ∧ buf ++ io = msg ++ rest := by
  unfold pollBody at h
  split at h
  · cases h
  · cases h
    refine ⟨by simp; omega, ?_⟩
    rw [List.append_assoc, List.take_append_drop]

theorem ReadFrame.taken_body (len_buf : Bytes) (whole : len_buf.length = 2) :
    beBytes 2 (beNat len_buf) = len_buf ∧ beNat len_buf < 256 ^ 2 :=
  ⟨whole ▸ beBytes_beNat len_buf, whole ▸ beNat_lt len_buf⟩

/-- A poll that yields has taken all that was ready. -/
theorem ReadFrame.poll_pending {f f' : ReadFrame} {io : Bytes} (waiting : f.Waiting)
    (h : f.poll io = .pending f') : f'.Waiting ∧ f'.taken = f.taken ++ io := by
  cases f with
  | length len_buf =>
    simp only [Waiting] at waiting
    rw [poll] at h
    split at h
    · cases h
      exact ⟨by simp [Waiting]; omega, rfl⟩
    · obtain ⟨same, bound⟩ := taken_body (len_buf ++ io.take (2 - len_buf.length))
        (by simp; omega)
      obtain ⟨waits, taken⟩ := pollBody_pending (Nat.zero_le _) bound h
      refine ⟨waits, ?_⟩
      rw [taken, same, List.nil_append, List.append_assoc, List.take_append_drop, ReadFrame.taken]
  | body len buf =>
    obtain ⟨waits, taken⟩ := pollBody_pending waiting.1.le waiting.2 h
    exact ⟨waits, by rw [taken, ReadFrame.taken, List.append_assoc]⟩

/-- A poll that completes has taken one frame, length and body. -/
theorem ReadFrame.poll_ready {f : ReadFrame} {io msg rest : Bytes} (waiting : f.Waiting)
    (h : f.poll io = .ready msg rest) :
    f.taken ++ io = beBytes 2 msg.length ++ (msg ++ rest) ∧ msg.length < 256 ^ 2 := by
  cases f with
  | length len_buf =>
    simp only [Waiting] at waiting
    rw [poll] at h
    split at h
    · cases h
    · obtain ⟨same, bound⟩ := taken_body (len_buf ++ io.take (2 - len_buf.length))
        (by simp; omega)
      obtain ⟨len, split⟩ := pollBody_ready (Nat.zero_le _) h
      refine ⟨?_, len ▸ bound⟩
      rw [len, same, ← split, List.nil_append, List.append_assoc, List.take_append_drop,
        ReadFrame.taken]
  | body len buf =>
    obtain ⟨whole, split⟩ := pollBody_ready waiting.1.le h
    exact ⟨by rw [whole, ← split, ReadFrame.taken, List.append_assoc], whole ▸ waiting.2⟩

end Qev.Pairing
