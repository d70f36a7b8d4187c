import Qev.Pairing.Transport

/-! `send_msg` cuts a message into fragments; many messages in a row. -/

namespace Qev.Pairing

/-! ## The loop of `send_msg` -/

/-- The chunks of `slice::chunks`. -/
def chunks (n : Nat) (bytes : Bytes) : List Bytes :=
  if _h : n = 0 ∨ bytes = [] then []
  else bytes.take n :: chunks n (bytes.drop n)
termination_by bytes.length
decreasing_by
  have := List.length_pos_of_ne_nil (not_or.mp _h).2
  simp only [List.length_drop]
  omega

/-- The frame of one chunk: both numbers are cast to `u32`. -/
def framed (total_len i : Nat) (chunk : Bytes) : Bytes :=
  beBytes 4 total_len ++ beBytes 4 i ++ chunk

theorem ceilDiv_pos {n length : Nat} (room : 0 < n) (long : 0 < length) :
    (length + n - 1) / n = (length - n + n - 1) / n + 1 := by
  by_cases le : n ≤ length
  · rw [show length + n - 1 = length - n + n - 1 + n by omega, Nat.add_div_right _ room]
  · rw [show length + n - 1 = length - 1 + n by omega, Nat.add_div_right _ room,
      Nat.div_eq_of_lt (by omega), Nat.div_eq_of_lt (by omega)]

theorem chunks_eq {n : Nat} (room : 0 < n) (bytes : Bytes) :
    chunks n bytes = (List.range ((bytes.length + n - 1) / n)).map fun i =>
      (bytes.drop (i * n)).take n := by
  induction bytes using chunks.induct n with
  | case1 bytes stops =>
    obtain rfl := stops.resolve_left (by omega)
    rw [chunks, dif_pos (.inr rfl), List.length_nil, Nat.zero_add, Nat.div_eq_of_lt (by omega)]
    rfl
  | case2 bytes more ih =>
    have long := List.length_pos_of_ne_nil (not_or.mp more).2
    rw [chunks, dif_neg more, ceilDiv_pos room long, List.range_succ_eq_map, List.map_cons,
      List.map_map, ih, List.length_drop]
    simp only [Nat.zero_mul, List.drop_zero, List.cons.injEq, true_and, List.map_inj_left,
      Function.comp_apply, List.drop_drop]
    intro i mem
    rw [Nat.succ_mul, Nat.add_comm]

/-- The fragments are the chunks under their headers; an empty body has a header
of its own. -/
theorem fragments_eq (body : Bytes) : fragments body =
    if body = [] then [framed 0 0 []]
    else (chunks FRAG_PAYLOAD_MAX body).mapIdx (framed body.length) := by
  have room : 0 < FRAG_PAYLOAD_MAX := by decide
  split_ifs with empty
  · rw [empty]
    rfl
  · have long := List.length_pos_of_ne_nil empty
    have some_frag : 1 ≤ (body.length + FRAG_PAYLOAD_MAX - 1) / FRAG_PAYLOAD_MAX :=
      Nat.div_pos (by omega) room
    rw [fragments, n_frags, Nat.max_eq_left some_frag, chunks_eq room]
    apply List.ext_getElem
    · simp
    · intro i _ _
      simp [framed, fragment]

/-! ## Messages in a row -/

namespace Channel

/-- Send one message after the other; the bytes that go on the stream. -/
def send_msgs (ch : Channel) : List QevMessage → Except String (Channel × Bytes)
  | [] => .ok (ch, [])
  | msg :: msgs => do
    let (ch, wire) ← ch.send_msg msg
    let (ch, later) ← ch.send_msgs msgs
    return (ch, wire ++ later)

/-- Call `recv_msg` that many times. -/
def recv_msgs (ch : Channel) (ciborium : QevMessage.Ciborium) :
    Nat → Bytes → Except String (Channel × Bytes × List QevMessage)
  | 0, io => .ok (ch, io, [])
  | n + 1, io => do
    let (ch, io, msg) ← ch.recv_msg ciborium io
    let (ch, io, msgs) ← ch.recv_msgs ciborium n io
    return (ch, io, msg :: msgs)

end Channel

def all_fragments (msgs : List QevMessage) : List Bytes :=
  msgs.flatMap fun msg => fragments msg.into_writer

theorem fragments_length (body : Bytes) : (fragments body).length = n_frags body := by
  rw [fragments, List.length_map, List.length_range]

theorem mem_all_fragments {msgs : List QevMessage} {frag : Bytes}
    (mem : frag ∈ all_fragments msgs) : frag.length ≤ MAX_TRANSPORT_MSG := by
  obtain ⟨msg, -, here⟩ := List.mem_flatMap.mp mem
  obtain ⟨i, -, rfl⟩ := List.mem_map.mp here
  exact fragment_length _ i

theorem all_fragments_cons (msg : QevMessage) (msgs : List QevMessage) :
    all_fragments (msg :: msgs) = fragments msg.into_writer ++ all_fragments msgs := rfl

namespace Channel

theorem sending_sent (ch : Channel) (n : Nat) : (ch.sent n).sending = ch.sending ∧
    (ch.sent n).sending_nonce = ch.sending_nonce + n := ⟨rfl, rfl⟩

theorem receiving_received (ch : Channel) (n : Nat) : (ch.received n).receiving = ch.receiving ∧
    (ch.received n).receiving_nonce = ch.receiving_nonce + n := ⟨rfl, rfl⟩

theorem sent_sent (ch : Channel) (m n : Nat) : (ch.sent m).sent n = ch.sent (m + n) := by
  simp only [sent, Nat.add_assoc]

theorem received_received (ch : Channel) (m n : Nat) :
    (ch.received m).received n = ch.received (m + n) := by
  simp only [received, Nat.add_assoc]

theorem send_msgs_ok (ch : Channel) {msgs : List QevMessage}
    (small : ∀ m ∈ msgs, m.into_writer.length ≤ MAX_MESSAGE_BYTES) :
    ch.send_msgs msgs = .ok (ch.sent (all_fragments msgs).length,
      ch.sending.frames ch.sending_nonce (all_fragments msgs)) := by
  induction msgs generalizing ch with
  | nil => rfl
  | cons msg msgs ih =>
    have later := ih (ch.sent (n_frags msg.into_writer)) fun m mem =>
      small m (List.mem_cons_of_mem _ mem)
    rw [(ch.sending_sent _).1, (ch.sending_sent _).2, sent_sent] at later
    simp only [send_msgs, ch.send_msg_ok (small msg List.mem_cons_self), ok_bind, later]
    rw [all_fragments_cons, Cipher.frames_append, List.length_append, fragments_length]
    rfl

/-- The calls so far have taken the frames of their own messages. -/
theorem recv_msgs_sent (ch : Channel) (ciborium : QevMessage.Ciborium)
    {before : List QevMessage} (small : ∀ m ∈ before, m.into_writer.length ≤ MAX_MESSAGE_BYTES)
    (after : List QevMessage) (rest : Bytes) :
    ch.recv_msgs ciborium before.length
        (ch.receiving.frames ch.receiving_nonce (all_fragments (before ++ after)) ++ rest) =
      .ok (ch.received (all_fragments before).length,
        ch.receiving.frames (ch.receiving_nonce + (all_fragments before).length)
          (all_fragments after) ++ rest, before) := by
  induction before generalizing ch with
  | nil => rfl
  | cons msg before ih =>
    have later := ih (ch.received (n_frags msg.into_writer)) fun m mem =>
      small m (List.mem_cons_of_mem _ mem)
    rw [(ch.receiving_received _).1, (ch.receiving_received _).2, received_received] at later
    rw [List.cons_append, all_fragments_cons, Cipher.frames_append, List.append_assoc,
      List.length_cons, fragments_length]
    simp only [recv_msgs, ch.recv_msg_sent ciborium (small msg List.mem_cons_self), ok_bind, later]
    rw [all_fragments_cons, List.length_append, fragments_length, ← Nat.add_assoc]
    rfl

end Channel

/-- What is sent over a channel is received as it was sent, each message from the
frames of its own fragments; and each fragment can be sent, in a frame whose
length fits its header. -/
theorem fragmentation_round_trip (ciborium : QevMessage.Ciborium) {a b : Channel}
    (keys : b.receiving = a.sending) (counters : b.receiving_nonce = a.sending_nonce)
    {msgs : List QevMessage} (small : ∀ m ∈ msgs, m.into_writer.length ≤ MAX_MESSAGE_BYTES) :
    ∃ wire, a.send_msgs msgs = .ok (a.sent (all_fragments msgs).length, wire) ∧
      (∀ rest, b.recv_msgs ciborium msgs.length (wire ++ rest) =
        .ok (b.received (all_fragments msgs).length, rest, msgs)) ∧
      (∀ before after, msgs = before ++ after → ∀ rest,
        b.recv_msgs ciborium before.length (wire ++ rest) =
          .ok (b.received (all_fragments before).length,
            a.sending.frames (a.sending_nonce + (all_fragments before).length)
              (all_fragments after) ++ rest, before)) ∧
      ∀ frag ∈ all_fragments msgs, frag.length ≤ MAX_TRANSPORT_MSG ∧
        ∀ ch : Channel, (ch.send frag).isOk = true ∧
          (ch.sending.write_message ch.sending_nonce frag).length < 2 ^ 16 := by
  have parts (before after : List QevMessage) (whole : msgs = before ++ after) (rest : Bytes) :
      b.recv_msgs ciborium before.length
          (a.sending.frames a.sending_nonce (all_fragments msgs) ++ rest) =
        .ok (b.received (all_fragments before).length,
          a.sending.frames (a.sending_nonce + (all_fragments before).length)
            (all_fragments after) ++ rest, before) := by
    rw [whole, ← keys, ← counters]
    apply b.recv_msgs_sent
    intro m mem
    exact small m (whole ▸ List.mem_append_left _ mem)
  refine ⟨_, a.send_msgs_ok small, ?_, parts, ?_⟩
  · intro rest
    exact parts msgs [] (List.append_nil msgs).symm rest
  · intro frag mem
    have short := mem_all_fragments mem
    refine ⟨short, ?_⟩
    intro ch
    rw [ch.send_ok short, ch.sending.write_length]
    simp only [MAX_TRANSPORT_MSG] at short
    exact ⟨rfl, by omega⟩

/-- A side of a channel to run the model with. -/
def Channel.sample : Channel := ⟨.counting, .counting, 0, 0⟩

def vault_message (vault_bytes : Bytes) : QevMessage :=
  .VaultTransfer "holiday.vault.json" vault_bytes (some "as promised") 1760000000

/-- A message that is longer than one fragment. -/
def large_vault : QevMessage := vault_message (List.replicate 100000 7)

/-- The bytes are written as they are, after their length. -/
theorem length_vault_message (vault_bytes : Bytes) :
    (vault_message vault_bytes).into_writer.length + 1 =
      (vault_message []).into_writer.length + Cbor.headSize vault_bytes.length +
        vault_bytes.length := by
  simp only [vault_message, QevMessage.into_writer, QevMessage.fields, QevMessage.write_fields,
    QevMessage.write_value, List.flatMap_cons, List.length_append, List.length_cons,
    List.length_nil, Cbor.length_bytes]
  have none : Cbor.headSize 0 = 1 := rfl
  omega

theorem length_large_vault : large_vault.into_writer.length = 100101 := by
  have rest : (vault_message []).into_writer.length = 97 := by decide
  have length := length_vault_message (List.replicate 100000 7)
  rw [rest, List.length_replicate] at length
  exact Nat.add_right_cancel length

theorem fragmentation_round_trip_of_two : ∃ wire,
    Channel.sample.send_msgs [large_vault, .Pong] = .ok (Channel.sample.sent 3, wire) ∧
    Channel.sample.recv_msgs .definite 2 (wire ++ [7]) =
      .ok (Channel.sample.received 3, [7], [large_vault, .Pong]) := by
  have small : ∀ m ∈ [large_vault, .Pong], m.into_writer.length ≤ MAX_MESSAGE_BYTES := by
    simp only [List.mem_cons, List.not_mem_nil, or_false, forall_eq_or_imp, forall_eq,
      length_large_vault]
    decide
  have keys : Channel.sample.receiving = Channel.sample.sending := rfl
  have counters : Channel.sample.receiving_nonce = Channel.sample.sending_nonce := rfl
  have frames : (all_fragments [large_vault, .Pong]).length = 3 := by
    rw [all_fragments_cons, List.length_append, fragments_length, n_frags, length_large_vault]
    decide
  obtain ⟨wire, sent, received, -⟩ := fragmentation_round_trip .definite keys counters small
  rw [frames] at sent received
  exact ⟨wire, sent, received [7]⟩

end Qev.Pairing
