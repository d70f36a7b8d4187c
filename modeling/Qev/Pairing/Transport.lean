import Qev.Lib.Cbor
import Qev.Lib.Except
import Qev.Pairing.Channel

/-! Typed messages over the Noise channel, in fragments (`transport.rs`). Errors
are the texts that their `Display` writes. -/

namespace Qev.Pairing

def MAX_VAULT_BYTES : Nat := 1024 * 1024
def FRAG_HEADER_BYTES : Nat := 8
def FRAG_PAYLOAD_MAX : Nat := MAX_TRANSPORT_MSG - FRAG_HEADER_BYTES
def MAX_MESSAGE_BYTES : Nat := MAX_VAULT_BYTES + 4096

inductive QevMessage where
  | VaultTransfer (filename : String) (vault_bytes : Bytes) (note : Option String)
    (timestamp : UInt64)
  | Identity (name device : String)
  | Ping
  | Pong
  deriving DecidableEq, Repr

namespace QevMessage

/-! ## CBOR

A field that is absent is `null`, which is written as `0xF6`. -/

abbrev Field := String × Option Cbor

def fields : QevMessage → List Field
  | VaultTransfer filename vault_bytes note timestamp =>
    [("type", some (.text "vault-transfer-v1")), ("filename", some (.text filename)),
      ("vault_bytes", some (.bytes vault_bytes)), ("note", note.map Cbor.text),
      ("timestamp", some (.uint timestamp))]
  | Identity name device =>
    [("type", some (.text "identity-v1")), ("name", some (.text name)),
      ("device", some (.text device))]
  | Ping => [("type", some (.text "ping-v1"))]
  | Pong => [("type", some (.text "pong-v1"))]

def write_value : Option Cbor → Bytes
  | none => [0xF6]
  | some v => v.encode

def write_fields (fs : List Field) : Bytes :=
  fs.flatMap fun f => (Cbor.text f.1).encode ++ write_value f.2

def into_writer (m : QevMessage) : Bytes := Cbor.head 5 m.fields.length ++ write_fields m.fields

def encode (m : QevMessage) : Except String Bytes :=
  if m.into_writer.length > MAX_MESSAGE_BYTES then
    .error (Error.TransportTooLarge m.into_writer.length MAX_MESSAGE_BYTES).display
  else .ok m.into_writer

/-- `ciborium::de::from_reader` at `QevMessage`. It may take more than the
encodings above. -/
structure Ciborium where
  from_reader : Bytes → Option QevMessage
  from_reader_into_writer : ∀ m : QevMessage, m.into_writer.length ≤ MAX_MESSAGE_BYTES →
    from_reader m.into_writer = some m

def decode (ciborium : Ciborium) (bytes : Bytes) : Except String QevMessage :=
  if bytes.length > MAX_MESSAGE_BYTES then
    .error (Error.TransportTooLarge bytes.length MAX_MESSAGE_BYTES).display
  else
    match ciborium.from_reader bytes with
    | none => .error "cbor: decode"
    | some m => .ok m

theorem encode_eq_ok {m : QevMessage} {body : Bytes} : m.encode = .ok body ↔
    m.into_writer.length ≤ MAX_MESSAGE_BYTES ∧ body = m.into_writer := by
  unfold encode
  split_ifs with large
  · constructor
    · intro h
      cases h
    · rintro ⟨small, -⟩
      omega
  · rw [Except.ok.injEq]
    exact ⟨fun same => ⟨Nat.not_lt.mp large, same.symm⟩, fun both => both.2.symm⟩

end QevMessage

/-! ## Fragments -/

/-- The header and the payload of fragment number `i`. -/
def fragment (body : Bytes) (i : Nat) : Bytes :=
  beBytes 4 body.length ++ beBytes 4 i ++ (body.drop (i * FRAG_PAYLOAD_MAX)).take FRAG_PAYLOAD_MAX

def n_frags (body : Bytes) : Nat := max ((body.length + FRAG_PAYLOAD_MAX - 1) / FRAG_PAYLOAD_MAX) 1

/-- An empty body has one fragment, which is all header. -/
def fragments (body : Bytes) : List Bytes := (List.range (n_frags body)).map (fragment body)

/-- Send one message after another; the bytes that go on the stream. -/
def Channel.send_all (ch : Channel) : List Bytes → Except String (Channel × Bytes)
  | [] => .ok (ch, [])
  | framed :: rest =>
    match ch.send framed with
    | .error e => .error e.display
    | .ok (ch, frame) => do
      let (ch, later) ← ch.send_all rest
      return (ch, frame ++ later)

def Channel.send_msg (ch : Channel) (msg : QevMessage) : Except String (Channel × Bytes) := do
  let body ← msg.encode
  ch.send_all (fragments body)

/-- A fragment by its total length, its number and its payload. -/
def parse_fragment (frag : Bytes) : Except String (Nat × Nat × Bytes) :=
  if frag.length < FRAG_HEADER_BYTES then
    .error s!"transport message decrypt failed: fragment too short: {frag.length} bytes"
  else .ok (beNat (frag.take 4), beNat ((frag.drop 4).take 4), frag.drop FRAG_HEADER_BYTES)

def Channel.recv_fragment (ch : Channel) (io : Bytes) :
    Except String (Channel × Bytes × Nat × Nat × Bytes) :=
  match ch.recv io with
  | .error e => .error e.display
  | .ok (ch, frag, io) => do
    let (total, seq, payload) ← parse_fragment frag
    return (ch, io, total, seq, payload)

/-- The loop that reads fragments until `total_len` bytes are there. Every turn
takes a frame off the stream, or finds it at its end. -/
def Channel.recv_rest (total_len : Nat) : Nat → Channel → Bytes → Bytes → Nat →
    Except String (Channel × Bytes × Bytes)
  | 0, ch, io, buf, _ => .ok (ch, io, buf)
  | fuel + 1, ch, io, buf, next_seq =>
    if buf.length < total_len then do
      let (ch, io, this_total, this_seq, payload) ← ch.recv_fragment io
      if this_total ≠ total_len then
        throw (s!"transport message decrypt failed: fragment total_len mismatch: {this_total} " ++
          s!"vs {total_len}")
      if this_seq ≠ next_seq then
        throw (s!"transport message decrypt failed: out-of-order fragment: got {this_seq}, " ++
          s!"expected {next_seq}")
      recv_rest total_len fuel ch io (buf ++ payload) ((next_seq + 1) % 2 ^ 32)
    else .ok (ch, io, buf)

def Channel.recv_msg (ch : Channel) (ciborium : QevMessage.Ciborium) (io : Bytes) :
    Except String (Channel × Bytes × QevMessage) := do
  let (ch, io, total_len, seq0, payload) ← ch.recv_fragment io
  if seq0 ≠ 0 then
    throw s!"transport message decrypt failed: expected fragment 0, got {seq0}"
  if total_len > MAX_MESSAGE_BYTES then
    throw (Error.TransportTooLarge total_len MAX_MESSAGE_BYTES).display
  let (ch, io, buf) ← Channel.recv_rest total_len (io.length + 1) ch io payload 1
  if buf.length ≠ total_len then
    throw (s!"transport message decrypt failed: reassembled length {buf.length} != expected " ++
      s!"{total_len}")
  let msg ← QevMessage.decode ciborium buf
  return (ch, io, msg)

/-! ## What was sent is received -/

theorem fragment_length (body : Bytes) (i : Nat) :
    (fragment body i).length ≤ MAX_TRANSPORT_MSG := by
  simp only [fragment, List.length_append, beBytes_length, List.length_take, List.length_drop,
    FRAG_PAYLOAD_MAX, MAX_TRANSPORT_MSG, FRAG_HEADER_BYTES]
  omega

/-- The channel after `n` messages have gone out. -/
def Channel.sent (ch : Channel) (n : Nat) : Channel :=
  { ch with sending_nonce := ch.sending_nonce + n }

def Channel.received (ch : Channel) (n : Nat) : Channel :=
  { ch with receiving_nonce := ch.receiving_nonce + n }

@[simp] theorem Channel.sent_receiving (ch : Channel) (n : Nat) :
    (ch.sent n).receiving = ch.receiving := rfl

@[simp] theorem Channel.sent_receiving_nonce (ch : Channel) (n : Nat) :
    (ch.sent n).receiving_nonce = ch.receiving_nonce := rfl

theorem Channel.send_all_ok (ch : Channel) {msgs : List Bytes}
    (small : ∀ m ∈ msgs, m.length ≤ MAX_TRANSPORT_MSG) :
    ch.send_all msgs = .ok (ch.sent msgs.length, ch.sending.frames ch.sending_nonce msgs) := by
  induction msgs generalizing ch with
  | nil => rfl
  | cons m msgs ih =>
    have later := ih { ch with sending_nonce := ch.sending_nonce + 1 } fun m' mem =>
      small m' (List.mem_cons_of_mem _ mem)
    simp only [send_all, ch.send_ok (small m List.mem_cons_self), later, ok_bind, Cipher.frames]
    simp only [sent, List.length_cons, Nat.add_assoc, Nat.add_comm 1]
    rfl

/-- A message is sent whenever it can be encoded. -/
theorem Channel.send_msg_ok (ch : Channel) {msg : QevMessage}
    (small : msg.into_writer.length ≤ MAX_MESSAGE_BYTES) :
    ch.send_msg msg = .ok (ch.sent (n_frags msg.into_writer),
      ch.sending.frames ch.sending_nonce (fragments msg.into_writer)) := by
  have all : ∀ m ∈ fragments msg.into_writer, m.length ≤ MAX_TRANSPORT_MSG := by
    intro m mem
    obtain ⟨i, -, rfl⟩ := List.mem_map.mp mem
    exact fragment_length _ i
  rw [send_msg, QevMessage.encode_eq_ok.mpr ⟨small, rfl⟩, ok_bind, ch.send_all_ok all, fragments,
    List.length_map, List.length_range]

theorem Channel.send_msg_too_large (ch : Channel) {msg : QevMessage}
    (large : MAX_MESSAGE_BYTES < msg.into_writer.length) :
    ∃ e, ch.send_msg msg = .error e := by
  rw [send_msg, QevMessage.encode, if_pos large]
  exact ⟨_, rfl⟩

theorem parse_fragment_fragment {body : Bytes} {i : Nat} (short : body.length < 2 ^ 32)
    (few : i < 2 ^ 32) : parse_fragment (fragment body i) =
      .ok (body.length, i, (body.drop (i * FRAG_PAYLOAD_MAX)).take FRAG_PAYLOAD_MAX) := by
  have whole : ¬ (fragment body i).length < FRAG_HEADER_BYTES := by
    simp only [fragment, List.length_append, beBytes_length, FRAG_HEADER_BYTES]
    omega
  have four (n : Nat) (rest : Bytes) : (beBytes 4 n ++ rest).take 4 = beBytes 4 n ∧
      (beBytes 4 n ++ rest).drop 4 = rest :=
    ⟨List.take_left' (beBytes_length 4 n), List.drop_left' (beBytes_length 4 n)⟩
  have body_part (rest : Bytes) :
      (beBytes 4 body.length ++ (beBytes 4 i ++ rest)).drop FRAG_HEADER_BYTES = rest := by
    rw [show FRAG_HEADER_BYTES = 4 + 4 from rfl, ← List.drop_drop, (four _ _).2, (four _ _).2]
  rw [parse_fragment, if_neg whole, fragment, List.append_assoc, (four _ _).1, (four _ _).2,
    (four _ _).1, body_part, beNat_beBytes 4 _ (by omega), beNat_beBytes 4 _ (by omega)]

theorem Channel.recv_fragment_frame (ch : Channel) {body : Bytes} {i : Nat}
    (short : body.length < 2 ^ 32) (few : i < 2 ^ 32) (rest : Bytes) :
    ch.recv_fragment (ch.receiving.frame ch.receiving_nonce (fragment body i) ++ rest) =
      .ok (ch.received 1, rest, body.length, i,
        (body.drop (i * FRAG_PAYLOAD_MAX)).take FRAG_PAYLOAD_MAX) := by
  simp only [recv_fragment, ch.recv_frame rest (fragment_length body i),
    parse_fragment_fragment short few, ok_bind]
  rfl

/-- The bytes that the first fragments carry. -/
theorem take_step (body : Bytes) (i : Nat) :
    body.take (i * FRAG_PAYLOAD_MAX) ++ (body.drop (i * FRAG_PAYLOAD_MAX)).take FRAG_PAYLOAD_MAX =
      body.take ((i + 1) * FRAG_PAYLOAD_MAX) := by
  rw [Nat.add_mul, Nat.one_mul, List.take_add]

theorem n_frags_bounds (body : Bytes) : body.length ≤ n_frags body * FRAG_PAYLOAD_MAX ∧
    (1 < n_frags body → (n_frags body - 1) * FRAG_PAYLOAD_MAX < body.length) ∧
    n_frags body ≤ body.length + 1 := by
  simp only [n_frags, FRAG_PAYLOAD_MAX, MAX_TRANSPORT_MSG, FRAG_HEADER_BYTES]
  omega

/-- The loop ends with the whole body: `k` fragments are in, `left` are to come. -/
theorem Channel.recv_rest_frames (ch : Channel) {body : Bytes} (short : body.length < 2 ^ 31)
    (rest : Bytes) {k left fuel : Nat} (some_in : 0 < k) (count : k + left = n_frags body)
    (enough : left ≤ fuel) :
    Channel.recv_rest body.length fuel ch
      (ch.receiving.frames ch.receiving_nonce ((List.range' k left).map (fragment body)) ++ rest)
      (body.take (k * FRAG_PAYLOAD_MAX)) k = .ok (ch.received left, rest, body) := by
  obtain ⟨covered, tight, few⟩ := n_frags_bounds body
  induction left generalizing ch k fuel with
  | zero =>
    have whole : body.take (k * FRAG_PAYLOAD_MAX) = body := by
      apply List.take_of_length_le
      rwa [← count] at covered
    rw [whole]
    cases fuel with
    | zero => rfl
    | succ fuel => simp [recv_rest, Cipher.frames, received]
  | succ left ih =>
    obtain ⟨fuel, rfl⟩ := Nat.exists_eq_add_of_le' (show 1 ≤ fuel by omega)
    have more : (body.take (k * FRAG_PAYLOAD_MAX)).length < body.length := by
      have below : k * FRAG_PAYLOAD_MAX ≤ (n_frags body - 1) * FRAG_PAYLOAD_MAX :=
        Nat.mul_le_mul_right _ (by omega)
      have last := tight (by omega)
      rw [List.length_take]
      omega
    have next : (k + 1) % 2 ^ 32 = k + 1 := Nat.mod_eq_of_lt (by omega)
    have later := @ih (ch.received 1) (k + 1) fuel (by omega) (by omega) (by omega)
    rw [List.range'_succ, List.map_cons, Cipher.frames, List.append_assoc, recv_rest, if_pos more,
      ch.recv_fragment_frame (by omega) (by omega), ok_bind]
    simp only [ne_eq, not_true_eq_false, if_false, next, take_step]
    refine later.trans ?_
    simp [received, Nat.add_assoc, Nat.add_comm 1]

theorem Cipher.length_le_frames (c : Cipher) (n : Nat) (msgs : List Bytes) :
    msgs.length ≤ (c.frames n msgs).length := by
  induction msgs generalizing n with
  | nil => exact Nat.le_refl 0
  | cons m msgs ih =>
    have later := ih (n + 1)
    simp only [frames, frame, List.length_append, beBytes_length, List.length_cons]
    omega

/-- A message whose fragments stand on the stream is received as it was sent. -/
theorem Channel.recv_msg_sent (ch : Channel) (ciborium : QevMessage.Ciborium) {msg : QevMessage}
    (small : msg.into_writer.length ≤ MAX_MESSAGE_BYTES) (rest : Bytes) :
    ch.recv_msg ciborium
      (ch.receiving.frames ch.receiving_nonce (fragments msg.into_writer) ++ rest) =
      .ok (ch.received (n_frags msg.into_writer), rest, msg) := by
  generalize body_eq : msg.into_writer = body at small ⊢
  have short : body.length < 2 ^ 31 := Nat.lt_of_le_of_lt small (by decide)
  have some_frag : 1 ≤ n_frags body := by
    unfold n_frags
    omega
  obtain ⟨left, count⟩ := Nat.exists_eq_add_of_le some_frag
  have first : fragments body = fragment body 0 :: (List.range' 1 left).map (fragment body) := by
    rw [fragments, List.range_eq_range', count, Nat.add_comm, List.range'_succ, List.map_cons]
  have start : (body.drop (0 * FRAG_PAYLOAD_MAX)).take FRAG_PAYLOAD_MAX =
      body.take (1 * FRAG_PAYLOAD_MAX) := by
    rw [Nat.zero_mul, List.drop_zero, Nat.one_mul]
  let stream := ch.receiving.frames (ch.receiving_nonce + 1)
    ((List.range' 1 left).map (fragment body)) ++ rest
  have enough : left ≤ stream.length + 1 := by
    have frames := ch.receiving.length_le_frames (ch.receiving_nonce + 1)
      ((List.range' 1 left).map (fragment body))
    rw [List.length_map, List.length_range'] at frames
    simp only [stream, List.length_append]
    omega
  have loop : Channel.recv_rest body.length (stream.length + 1) (ch.received 1) stream
      (body.take (1 * FRAG_PAYLOAD_MAX)) 1 = .ok ((ch.received 1).received left, rest, body) :=
    (ch.received 1).recv_rest_frames short rest Nat.zero_lt_one count.symm enough
  have decoded : QevMessage.decode ciborium body = .ok msg := by
    rw [QevMessage.decode, if_neg (Nat.not_lt.mpr small), ← body_eq,
      ciborium.from_reader_into_writer msg (body_eq ▸ small)]
  rw [first, Cipher.frames, List.append_assoc, recv_msg,
    ch.recv_fragment_frame (by omega) (by omega), ok_bind]
  simp only [ne_eq, not_true_eq_false, if_false, start, Nat.not_lt.mpr small]
  rw [loop]
  simp only [ok_bind, not_true_eq_false, if_false, decoded]
  simp [received, count, Nat.add_assoc]
  rfl

/-! ## A reader to run the model with -/

namespace QevMessage

def read_value (fuel : Nat) : Bytes → Option (Option Cbor × Bytes)
  | 0xF6 :: rest => some (none, rest)
  | bytes => (Cbor.read fuel bytes).map fun (v, rest) => (some v, rest)

def read_fields (fuel : Nat) : Nat → Bytes → Option (List Field × Bytes)
  | 0, bytes => some ([], bytes)
  | n + 1, bytes =>
    match Cbor.read fuel bytes with
    | some (.text k, rest) => do
      let (v, rest) ← read_value fuel rest
      let (fs, rest) ← read_fields fuel n rest
      return ((k, v) :: fs, rest)
    | _ => none

def of_fields : List Field → Option QevMessage
  | [("type", some (.text "vault-transfer-v1")), ("filename", some (.text filename)),
      ("vault_bytes", some (.bytes vault_bytes)), ("note", some (.text note)),
      ("timestamp", some (.uint timestamp))] =>
    some (VaultTransfer filename vault_bytes (some note) timestamp)
  | [("type", some (.text "vault-transfer-v1")), ("filename", some (.text filename)),
      ("vault_bytes", some (.bytes vault_bytes)), ("note", none),
      ("timestamp", some (.uint timestamp))] =>
    some (VaultTransfer filename vault_bytes none timestamp)
  | [("type", some (.text "identity-v1")), ("name", some (.text name)),
      ("device", some (.text device))] => some (Identity name device)
  | [("type", some (.text "ping-v1"))] => some Ping
  | [("type", some (.text "pong-v1"))] => some Pong
  | _ => none

def read (bytes : Bytes) : Option QevMessage :=
  match Cbor.readHead bytes with
  | some (5, n, rest) =>
    match read_fields (2 * bytes.length) n rest with
    | some (fs, _) => of_fields fs
    | none => none
  | _ => none

/-- An item that is no `null`, by its first byte. -/
theorem encode_head {v : Cbor}
    (scalar : (∃ s, v = .text s) ∨ (∃ b, v = .bytes b) ∨ ∃ n, v = .uint n) :
    ∃ b tail, v.encode = b :: tail ∧ b ≠ 0xF6 := by
  have head (major n : Nat) (low : major < 4) :
      ∃ b tail, Cbor.head major n = b :: tail ∧ b ≠ 0xF6 := by
    have byte (k : Nat) (small : k < 32) : UInt8.ofNat (32 * major + k) ≠ 0xF6 := by
      intro same
      have value := congrArg UInt8.toNat same
      rw [UInt8.toNat_ofNat'] at value
      change _ = 246 at value
      omega
    unfold Cbor.head
    split_ifs with h
    · exact ⟨_, _, rfl, byte n (by omega)⟩
    · exact ⟨_, _, rfl, byte 24 (by omega)⟩
    · exact ⟨_, _, rfl, byte 25 (by omega)⟩
    · exact ⟨_, _, rfl, byte 26 (by omega)⟩
    · exact ⟨_, _, rfl, byte 27 (by omega)⟩
  rcases scalar with ⟨s, rfl⟩ | ⟨b, rfl⟩ | ⟨n, rfl⟩
  · obtain ⟨b, tail, first, other⟩ := head 3 (Cbor.textBytes s).length (by omega)
    exact ⟨b, _, by rw [Cbor.encode, first]; rfl, other⟩
  · obtain ⟨b', tail, first, other⟩ := head 2 b.length (by omega)
    exact ⟨b', _, by rw [Cbor.encode, first]; rfl, other⟩
  · obtain ⟨b, tail, first, other⟩ := head 0 n.toNat (by omega)
    exact ⟨b, _, by rw [Cbor.encode, first], other⟩

/-- What the fields of a message hold: text, bytes, a number, or nothing. -/
def Scalar : Option Cbor → Prop
  | none => True
  | some v => (∃ s, v = .text s) ∨ (∃ b, v = .bytes b) ∨ ∃ n, v = .uint n

theorem read_value_write {fuel : Nat} {v : Option Cbor} (scalar : Scalar v)
    (short : (write_value v).length < 2 ^ 63) (enough : 2 * (write_value v).length ≤ fuel)
    (rest : Bytes) : read_value fuel (write_value v ++ rest) = some (v, rest) := by
  cases v with
  | none => rfl
  | some v =>
    have back := (Cbor.read_encode fuel).1 v rest
      (Cbor.fits_of_length v (by simp only [write_value] at short; omega)) enough
    obtain ⟨b, tail, first, other⟩ := encode_head scalar
    simp only [write_value]
    rw [first] at back ⊢
    rw [List.cons_append] at back ⊢
    rw [read_value]
    · rw [back]
      rfl
    · intro rest same
      exact other (List.cons.inj same).1

theorem read_fields_write {fuel : Nat} {fs : List Field} (scalar : ∀ f ∈ fs, Scalar f.2)
    (short : (write_fields fs).length < 2 ^ 63) (enough : 2 * (write_fields fs).length ≤ fuel)
    (rest : Bytes) : read_fields fuel fs.length (write_fields fs ++ rest) = some (fs, rest) := by
  induction fs generalizing rest with
  | nil => rfl
  | cons f fs ih =>
    obtain ⟨k, v⟩ := f
    simp only [write_fields, List.flatMap_cons, List.length_append] at short enough ih ⊢
    have name := (Cbor.read_encode fuel).1 (.text k)
      (write_value v ++ (fs.flatMap (fun f => (Cbor.text f.1).encode ++ write_value f.2) ++ rest))
      (Cbor.fits_of_length (.text k) (by omega)) (by omega)
    have held : Scalar v := scalar (k, v) List.mem_cons_self
    have value := read_value_write held (by omega)
      (show 2 * (write_value v).length ≤ fuel by omega)
      (fs.flatMap (fun f => (Cbor.text f.1).encode ++ write_value f.2) ++ rest)
    have later := ih (fun f mem => scalar f (List.mem_cons_of_mem _ mem)) (by omega) (by omega) rest
    simp only [List.length_cons, read_fields, List.append_assoc, name, value, later,
      Option.bind_eq_bind, Option.bind_some]
    rfl

theorem scalar_fields (m : QevMessage) : ∀ f ∈ m.fields, Scalar f.2 := by
  have text (s : String) : Scalar (some (.text s)) := .inl ⟨s, rfl⟩
  cases m with
  | VaultTransfer filename vault_bytes note timestamp =>
    simp only [fields, List.forall_mem_cons, text, true_and]
    refine ⟨.inr (.inl ⟨_, rfl⟩), ?_, .inr (.inr ⟨_, rfl⟩), nofun⟩
    cases note with
    | none => trivial
    | some note => exact text note
  | Identity name device => simp [fields, text]
  | Ping => simp [fields, text]
  | Pong => simp [fields, text]

theorem of_fields_fields (m : QevMessage) : of_fields m.fields = some m := by
  cases m with
  | VaultTransfer filename vault_bytes note timestamp =>
    cases note with
    | none => rfl
    | some note => rfl
  | Identity name device => rfl
  | Ping => rfl
  | Pong => rfl

theorem fields_length_lt (m : QevMessage) : m.fields.length < 24 := by
  cases m with
  | VaultTransfer filename vault_bytes note timestamp => simp [fields]
  | Identity name device => simp [fields]
  | Ping => simp [fields]
  | Pong => simp [fields]

def Ciborium.definite : Ciborium where
  from_reader := read
  from_reader_into_writer m small := by
    have few := m.fields_length_lt
    have short : (write_fields m.fields).length < 2 ^ 63 := by
      have total : m.into_writer.length < 2 ^ 63 := Nat.lt_of_le_of_lt small (by decide)
      rw [into_writer, List.length_append] at total
      omega
    have whole : read_fields (2 * m.into_writer.length) m.fields.length
        (write_fields m.fields ++ []) = some (m.fields, []) :=
      read_fields_write m.scalar_fields short
        (by simp only [into_writer, List.length_append]; omega) []
    rw [List.append_nil] at whole
    have head : Cbor.readHead m.into_writer = some (5, m.fields.length, write_fields m.fields) :=
      Cbor.readHead_head (by omega) (by omega) _
    rw [read, head]
    simp only [whole, of_fields_fields]

end QevMessage

end Qev.Pairing
