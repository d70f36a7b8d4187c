import Qev.Desktop.History
import Qev.Desktop.PairingCommands

/-! A chat message from the moment it is stored to the end of `chat_send`, on
every way out of the command. -/

namespace Qev.Desktop

open Pairing
open Relay (EnvelopeId)

/-! ## The command -/

def RELAY_SERVER_PUBLIC_KEY_HEX : String :=
  "b6b77291e633e4ed98918a5ac90e4b2e5083da2a787497785677150d9fcf3749"

def relay_server_public_key_bytes : Except String (FixedBytes 32) := do
  let hex := utf8 RELAY_SERVER_PUBLIC_KEY_HEX
  if hex.length ≠ 64 then
    throw ("RELAY_SERVER_PUBLIC_KEY_HEX wrong length: " ++ toString hex.length)
  (List.range 32).foldlM (fun out i => do
    match Hex.from_str_radix ((hex.drop (2 * i)).take 2) with
    | .ok b => return ⟨out.val.set i b, by rw [List.length_set, out.property]⟩
    | .error e => throw ("hex byte " ++ toString i ++ ": " ++ e.display)) (FixedBytes.fill 32 0)

def host_port : String := "secure.imagineqira.com:7892"

/-- The first address that the name resolves to. -/
def relay_socket_addr {Addr : Type} (lookup_host : Except String (List Addr)) :
    Except String Addr :=
  match lookup_host with
  | .error e => .error ("DNS lookup failed for " ++ host_port ++ ": " ++ e)
  | .ok [] => .error ("no addresses resolved for " ++ host_port)
  | .ok (addr :: _) => .ok addr

/-- What one call of `chat_send` meets: the clock, the system, the network and
the relay. The stops are the system calls of its three saves that fail, if they
do; the name is looked up at the relay's host. -/
structure SendMoment (Addr : Type) where
  new_message_id : String
  now_ms : UInt64
  out : Outside
  umask : Mode
  chmod : Bool
  append_stop : Option Nat
  peer_stop : Option Nat
  settle_stop : Option Nat
  lookup_host : Except String (List Addr)
  deliver : Addr → (server_pk : FixedBytes 32) → (own : StaticKeypair) → (to_ : FixedBytes 32) →
    (envelope : Bytes) → Except String EnvelopeId

/-- The two states that the command is given, and the disk they are saved to. -/
structure States where
  peers : Device
  chat : ChatStore
  fs : FileSystem Path

def States.chat_write (app_data_dir : String) (s : States) (call : ChatStoreCall) :
    States × Except String Written :=
  let (held, result) := ChatStoreState.with_write app_data_dir ⟨s.chat, s.fs⟩ call
  ({ s with chat := held.memory, fs := held.fs }, result)

/-- The own identity, made and saved where there is none. -/
def States.own_identity (app_data_dir : String) (s : States) (out : Outside) (umask : Mode)
    (stop : Option Nat) : States × Except String StaticKeypair :=
  let (held, result) := with_write (fun d => d.ensure "" "" out)
    (fun d fs => d.store.save umask fs (store_path app_data_dir) stop) ⟨s.peers, s.fs⟩
  ({ s with peers := held.memory, fs := held.fs }, result)

/-- What is left after the command, and what the relay client said if it came
to that. -/
structure Sent where
  states : States
  send_result : Option (Except String EnvelopeId)
  result : Except String String

def chat_peer_pk (s : PeerStore) (peer_id : String) : Except String (FixedBytes 32) :=
  match s.find peer_id with
  | none => .error ("unknown peer: " ++ peer_id)
  | some peer =>
    match Base64.decodeCanonical peer.static_pk.toList with
    | none => .error "bad peer static_pk"
    | some v => if h : v.length = 32 then .ok ⟨v, h⟩ else .error "peer static_pk not 32 bytes"

def chat_envelope (msg_id text : String) (ts : UInt64) : Bytes :=
  (Value.json [("type", .str "chat-v1"), ("msg_id", .str msg_id), ("text", .str text),
    ("timestamp", .num (.u64 ts))]).to_vec

section Command

variable {Addr : Type} (app_data_dir : String)

/-- The message as it is stored first. -/
def SendMoment.local (at_ : SendMoment Addr) (text : String) : ChatMessage where
  id := at_.new_message_id
  direction := "outgoing"
  text := text
  timestamp := at_.now_ms
  status := "sending"

def delivery_status : Except String EnvelopeId → String
  | .ok _ => "sent"
  | .error _ => "failed"

def chat_send (s : States) (peer_id text : String) (at_ : SendMoment Addr) : Sent :=
  match s.chat_write app_data_dir
      ⟨.add_message peer_id (at_.local text), at_.umask, at_.chmod, at_.append_stop⟩ with
  | (s, .error e) => ⟨s, none, .error e⟩
  | (s, .ok _) =>
    match chat_peer_pk s.peers.store peer_id with
    | .error e => ⟨s, none, .error e⟩
    | .ok peer_pk =>
      match s.own_identity app_data_dir at_.out at_.umask at_.peer_stop with
      | (s, .error e) => ⟨s, none, .error e⟩
      | (s, .ok own) =>
        match relay_server_public_key_bytes with
        | .error e => ⟨s, none, .error e⟩
        | .ok server_pk =>
          match relay_socket_addr at_.lookup_host with
          | .error e => ⟨s, none, .error e⟩
          | .ok relay_addr =>
            let envelope := chat_envelope at_.new_message_id text at_.now_ms
            let send_result := at_.deliver relay_addr server_pk own peer_pk envelope
            match s.chat_write app_data_dir
                ⟨.update_status peer_id at_.new_message_id (delivery_status send_result),
                  at_.umask, at_.chmod, at_.settle_stop⟩ with
            | (s, .error e) => ⟨s, some send_result, .error e⟩
            | (s, .ok _) =>
              match send_result with
              | .error e => ⟨s, some send_result, .error ("relay deliver: " ++ e)⟩
              | .ok _ => ⟨s, some send_result, .ok at_.new_message_id⟩

end Command

/-! ## The ways out -/

section Ways

variable {Addr : Type} {app_data_dir : String} {s : States} {peer_id text : String}
  {at_ : SendMoment Addr}

/-- The file of the chat store holds this store. -/
def ChatStore.Image (app_data_dir : String) (fs : FileSystem Path) (store : ChatStore) : Prop :=
  ∃ mode, fs (chat_store_path app_data_dir) = some ⟨store.to_json, mode⟩

theorem ChatStore.Image.load {reader : Reader ChatFile.to_value} {fs : FileSystem Path}
    {store : ChatStore} (image : ChatStore.Image app_data_dir fs store) :
    ChatStore.load_or_empty reader fs (chat_store_path app_data_dir) true = .ok store := by
  obtain ⟨mode, here⟩ := image
  rw [load_or_empty, if_pos rfl, here]
  simp only [to_json, reader.from_slice_to_vec_pretty]
  rfl

theorem relay_server_public_key : ∃ pk, relay_server_public_key_bytes = .ok pk :=
  ⟨_, rfl⟩

/-- A write of the chat store whose save succeeds. -/
theorem States.chat_write_none (s : States) (app_data_dir : String) (w : ChatWrite) (umask : Mode)
    (chmod : Bool) :
    ∃ fs r, s.chat_write app_data_dir ⟨w, umask, chmod, none⟩ =
        ({ s with chat := (w.run s.chat).1, fs }, .ok r) ∧
      ChatStore.Image app_data_dir fs (w.run s.chat).1 := by
  obtain ⟨r, applied⟩ := w.run_ok s.chat
  have saved : ((w.run s.chat).1.save umask s.fs (chat_store_path app_data_dir) chmod none).2 =
      .ok () := rfl
  have written : (ChatStoreState.with_write app_data_dir ⟨s.chat, s.fs⟩ ⟨w, umask, chmod, none⟩).1 =
      ⟨(w.run s.chat).1,
        ((w.run s.chat).1.save umask s.fs (chat_store_path app_data_dir) chmod none).1⟩ :=
    with_write_of_ok applied
  have returned : (ChatStoreState.with_write app_data_dir ⟨s.chat, s.fs⟩
      ⟨w, umask, chmod, none⟩).2 = .ok r := with_write_eq_ok.mpr ⟨applied, saved⟩
  refine ⟨_, r, ?_, ChatStore.save_ok saved⟩
  rw [chat_write]
  simp only [written, returned]

theorem chat_store_path_apart : chat_store_path app_data_dir ≠
      (store_path app_data_dir).with_extension "json.tmp" ∧
    chat_store_path app_data_dir ≠ store_path app_data_dir := by
  have stems : "chat-messages" ≠ "peers" := by decide
  exact ⟨fun same => stems (congrArg Path.file_stem same),
    fun same => stems (congrArg Path.file_stem same)⟩

/-- The own identity is saved to a file of its own. -/
theorem States.own_identity_keeps (out : Outside) (umask : Mode) (stop : Option Nat) :
    (s.own_identity app_data_dir out umask stop).1.chat = s.chat ∧
      (s.own_identity app_data_dir out umask stop).1.fs (chat_store_path app_data_dir) =
        s.fs (chat_store_path app_data_dir) := by
  refine ⟨rfl, ?_⟩
  simp only [own_identity]
  cases ensured : (s.peers.ensure "" "" out).2 with
  | error e => rw [with_write_of_error ensured]
  | ok own =>
    rw [with_write_of_ok ensured]
    exact PeerStore.save_elsewhere chat_store_path_apart.1 chat_store_path_apart.2

theorem States.own_identity_ok {out : Outside} {umask : Mode} {stop : Option Nat} :
    (∃ own, (s.own_identity app_data_dir out umask stop).2 = .ok own) ↔
      (∃ own, (s.peers.ensure "" "" out).2 = .ok own) ∧
        ¬ (s.peers.ensure "" "" out).1.store.SaveFails (store_path app_data_dir) stop := by
  simp only [own_identity, with_write_eq_ok, PeerStore.save_succeeds, exists_and_right]

/-- Every step before the delivery succeeds: the peer is known by a whole key,
there is an own identity and it is saved, and the relay's name resolves. -/
def Reaches (app_data_dir : String) (s : States) (peer_id : String) (at_ : SendMoment Addr) :
    Prop :=
  (∃ peer_pk, chat_peer_pk s.peers.store peer_id = .ok peer_pk) ∧
    ((∃ own, (s.peers.ensure "" "" at_.out).2 = .ok own) ∧
      ¬ (s.peers.ensure "" "" at_.out).1.store.SaveFails (store_path app_data_dir) at_.peer_stop) ∧
    ∃ relay_addr, relay_socket_addr at_.lookup_host = .ok relay_addr

/-- The saves of the chat store succeed. -/
def SendMoment.ChatSaves (at_ : SendMoment Addr) : Prop :=
  at_.append_stop = none ∧ at_.settle_stop = none

/-- The store in memory and in its file. -/
def States.Holds (app_data_dir : String) (s : States) (store : ChatStore) : Prop :=
  s.chat = store ∧ ChatStore.Image app_data_dir s.fs store

/-- What the chat store, and with it the file, holds in the end. -/
theorem chat_send_cases (saves : at_.ChatSaves) :
    (Reaches app_data_dir s peer_id at_ ∧ ∃ r,
      (chat_send app_data_dir s peer_id text at_).send_result = some r ∧
      (chat_send app_data_dir s peer_id text at_).states.Holds app_data_dir
        ((s.chat.add_message peer_id (at_.local text)).update_status peer_id at_.new_message_id
          (delivery_status r)).1) ∨
    ¬ Reaches app_data_dir s peer_id at_ ∧
      (chat_send app_data_dir s peer_id text at_).send_result = none ∧
      (chat_send app_data_dir s peer_id text at_).states.Holds app_data_dir
        (s.chat.add_message peer_id (at_.local text)) := by
  obtain ⟨fs, r, appended, image⟩ := s.chat_write_none app_data_dir
    (.add_message peer_id (at_.local text)) at_.umask at_.chmod
  obtain ⟨server_pk, pinned⟩ := relay_server_public_key
  unfold chat_send
  rw [saves.1, appended, pinned]
  dsimp only
  cases known : chat_peer_pk s.peers.store peer_id with
  | error e =>
    right
    refine ⟨?_, rfl, rfl, image⟩
    rintro ⟨⟨peer_pk, found⟩, -⟩
    rw [known] at found
    cases found
  | ok peer_pk =>
    dsimp only
    -- The identity is read from the state that the append has left.
    let s₁ : States :=
      { s with chat := (ChatWrite.run s.chat (.add_message peer_id (at_.local text))).1, fs }
    have ensured := @States.own_identity_ok app_data_dir s₁ at_.out at_.umask at_.peer_stop
    obtain ⟨same_chat, same_file⟩ := @States.own_identity_keeps app_data_dir s₁ at_.out at_.umask
      at_.peer_stop
    cases identity : s₁.own_identity app_data_dir at_.out at_.umask at_.peer_stop with
    | mk s₂ result =>
      rw [identity] at ensured same_chat same_file
      have kept : ChatStore.Image app_data_dir s₂.fs s₁.chat := by
        obtain ⟨mode, here⟩ := image
        exact ⟨mode, same_file.trans here⟩
      cases result with
      | error e =>
        right
        refine ⟨?_, rfl, same_chat, kept⟩
        rintro ⟨-, ready, -⟩
        obtain ⟨own, made⟩ := ensured.mpr ready
        cases made
      | ok own =>
        have ready := ensured.mp ⟨own, rfl⟩
        dsimp only
        cases resolved : relay_socket_addr at_.lookup_host with
        | error e =>
          right
          refine ⟨?_, rfl, same_chat, kept⟩
          rintro ⟨-, -, relay_addr, found⟩
          rw [resolved] at found
          cases found
        | ok relay_addr =>
          left
          refine ⟨⟨⟨peer_pk, known⟩, ready, relay_addr, resolved⟩, ?_⟩
          dsimp only
          generalize at_.deliver relay_addr server_pk own peer_pk
            (chat_envelope at_.new_message_id text at_.now_ms) = send_result
          obtain ⟨fs', r', updated, settled⟩ := s₂.chat_write_none app_data_dir
            (.update_status peer_id at_.new_message_id (delivery_status send_result)) at_.umask
            at_.chmod
          refine ⟨send_result, ?_⟩
          rw [saves.2, updated]
          rw [same_chat] at settled ⊢
          cases send_result with
          | error e => exact ⟨rfl, rfl, settled⟩
          | ok id => exact ⟨rfl, rfl, settled⟩

/-- The stored message, with the status it has when the command returns: as
the file of the chat store is read. -/
def Settled (reader : Reader ChatFile.to_value) (app_data_dir peer_id : String)
    (stored : ChatMessage) (sent : Sent) : Prop :=
  ∃ store m, ChatStore.load_or_empty reader sent.states.fs (chat_store_path app_data_dir) true =
      .ok store ∧
    (store.get_messages peer_id).getLast? = some m ∧ m.content = stored.content ∧
    (m.status = "sent" ∨ m.status = "failed") ∧
    (m.status = "sent" ↔ ∃ id, sent.send_result = some (.ok id))

/-- No message that is kept beside a new one has its id. -/
def IdFree (s : ChatStore) (peer_id msg_id : String) : Prop :=
  Keyed.find ChatMessage.id msg_id
    ((s.get_messages peer_id).rtake (MAX_MESSAGES_PER_PEER - 1)) = none

/-- A new message is the last of its conversation. -/
theorem ChatStore.get_messages_add_last (s : ChatStore) (peer_id : String) (msg : ChatMessage) :
    (s.add_message peer_id msg).get_messages peer_id =
      (s.get_messages peer_id).rtake (MAX_MESSAGES_PER_PEER - 1) ++ [msg] := by
  rw [get_messages_add, BoundedLog.rtake_concat (by decide)]

/-- Giving its id a status is giving it to the new message, where the id is free. -/
theorem ChatStore.getLast?_update (s : ChatStore) (peer_id : String) (msg : ChatMessage)
    (status : String) :
    (((s.add_message peer_id msg).update_status peer_id msg.id status).1.get_messages
        peer_id).getLast? =
      some (if (Keyed.find ChatMessage.id msg.id
        ((s.get_messages peer_id).rtake (MAX_MESSAGES_PER_PEER - 1))).isSome then msg
      else { msg with status }) := by
  rw [get_messages_update, get_messages_add_last, Keyed.modify_append]
  split
  · rw [List.getLast?_append, List.getLast?_singleton, Option.some_or]
  · rw [Keyed.modify, if_pos rfl, List.getLast?_append, List.getLast?_singleton, Option.some_or]

theorem settled_iff {reader : Reader ChatFile.to_value} {stored : ChatMessage} {sent : Sent}
    {store : ChatStore} (image : ChatStore.Image app_data_dir sent.states.fs store)
    {m : ChatMessage} (last : (store.get_messages peer_id).getLast? = some m) :
    Settled reader app_data_dir peer_id stored sent ↔ m.content = stored.content ∧
      (m.status = "sent" ∨ m.status = "failed") ∧
      (m.status = "sent" ↔ ∃ id, sent.send_result = some (.ok id)) := by
  constructor
  · rintro ⟨store', m', loaded, last', settled⟩
    rw [image.load] at loaded
    obtain rfl := Except.ok.inj loaded
    rw [last] at last'
    obtain rfl := Option.some.inj last'
    exact settled
  · intro settled
    exact ⟨store, m, image.load, last, settled⟩

theorem delivery_status_settled (r : Except String EnvelopeId) :
    (delivery_status r = "sent" ∨ delivery_status r = "failed") ∧
      (delivery_status r = "sent" ↔ ∃ id, some r = some (.ok id)) := by
  cases r with
  | error e => simp [delivery_status]
  | ok id => simp [delivery_status]

/-- A command that ends before the delivery leaves the message as it was stored. -/
theorem not_settled_of_misses {reader : Reader ChatFile.to_value} (saves : at_.ChatSaves)
    (misses : ¬ Reaches app_data_dir s peer_id at_) :
    ¬ Settled reader app_data_dir peer_id (at_.local text)
      (chat_send app_data_dir s peer_id text at_) := by
  have sending : ¬ ("sending" = "sent" ∨ "sending" = "failed") := by decide
  rcases chat_send_cases saves with ⟨reaches, -⟩ | ⟨-, -, -, image⟩
  · exact absurd reaches misses
  · have last : ((s.chat.add_message peer_id (at_.local text)).get_messages peer_id).getLast? =
        some (at_.local text) := by
      rw [ChatStore.get_messages_add_last, List.getLast?_append, List.getLast?_singleton,
        Option.some_or]
    rw [settled_iff image last]
    rintro ⟨-, settled, -⟩
    exact sending settled

/-- A message that `chat_send` has stored is settled when the command returns, if
and only if the command comes to the delivery and the message's id is its own. -/
theorem chat_send_settles_iff (reader : Reader ChatFile.to_value) (app_data_dir : String)
    (s : States) (peer_id text : String) (at_ : SendMoment Addr) (saves : at_.ChatSaves) :
    Settled reader app_data_dir peer_id (at_.local text)
        (chat_send app_data_dir s peer_id text at_) ↔
      Reaches app_data_dir s peer_id at_ ∧ IdFree s.chat peer_id at_.new_message_id := by
  have sending : ¬ ("sending" = "sent" ∨ "sending" = "failed") := by decide
  rcases chat_send_cases saves with ⟨reaches, r, returned, -, image⟩ | ⟨misses, -⟩
  · have last := s.chat.getLast?_update peer_id (at_.local text) (delivery_status r)
    rw [settled_iff image last, returned]
    cases free : Keyed.find ChatMessage.id (at_.local text).id
        ((s.chat.get_messages peer_id).rtake (MAX_MESSAGES_PER_PEER - 1)) with
    | none => exact iff_of_true ⟨rfl, delivery_status_settled r⟩ ⟨reaches, free⟩
    | some m =>
      refine iff_of_false ?_ ?_
      · rintro ⟨-, settled, -⟩
        exact sending settled
      · rintro ⟨-, own⟩
        exact Option.some_ne_none m (free.symm.trans own)
  · refine iff_of_false (not_settled_of_misses saves misses) ?_
    exact fun meets => misses meets.1

end Ways

/-! ## A peer that is there, and one that is not -/

/-- A call with everything outside as it should be. -/
def open_moment : SendMoment String where
  new_message_id := "m"
  now_ms := 0
  out := ⟨.ok ⟨FixedBytes.fill 32 1, FixedBytes.fill 32 2⟩, "2026-04-15T23:59:59Z", .all⟩
  umask := 0o022#9
  chmod := true
  append_stop := none
  peer_stop := none
  settle_stop := none
  lookup_host := .ok ["203.0.113.7:7892"]
  deliver _ _ _ _ _ := .ok (FixedBytes.fill _ 7)

def alice : StoredPeer where
  id := Hex.hex (FixedBytes.fill 32 3).val
  name := "alice"
  device := "phone"
  static_pk := base64 (FixedBytes.fill 32 3).val
  paired_at := "2026-04-15"
  last_seen_at := "2026-04-15"
  trust := .Verified
  last_addrs := []

/-- A device that has paired with one peer, and has no identity yet. -/
def paired_with_alice : States where
  peers := ⟨{ PeerStore.empty with peers := [alice] }, ⟨false, none⟩⟩
  chat := .empty
  fs _ := none

theorem reaches_alice : Reaches "/data" paired_with_alice alice.id open_moment := by
  refine ⟨⟨FixedBytes.fill 32 3, ?_⟩, ⟨⟨_, rfl⟩, ?_⟩, _, rfl⟩
  · have known : paired_with_alice.peers.store.find alice.id = some alice := by decide
    have key : Base64.decodeCanonical alice.static_pk.toList = some (FixedBytes.fill 32 3).val :=
      OwnIdentity.base64_eq.mpr rfl
    rw [chat_peer_pk, known]
    simp only [key]
    rfl
  · rintro (other | ⟨n, stopped, -⟩)
    · exact other rfl
    · cases stopped

theorem chat_send_settles_alice : Settled ChatFile.reader "/data" alice.id
    (open_moment.local "hello")
    (chat_send "/data" paired_with_alice alice.id "hello" open_moment) :=
  (chat_send_settles_iff ChatFile.reader "/data" paired_with_alice alice.id "hello" open_moment
    ⟨rfl, rfl⟩).mpr ⟨reaches_alice, rfl⟩

theorem unknown_peer_unsettled : ¬ Settled ChatFile.reader "/data" "nobody"
    (open_moment.local "hello")
    (chat_send "/data" paired_with_alice "nobody" "hello" open_moment) := by
  apply not_settled_of_misses ⟨rfl, rfl⟩
  rintro ⟨⟨peer_pk, found⟩, -⟩
  have unknown : paired_with_alice.peers.store.find "nobody" = none := by decide
  rw [chat_peer_pk, unknown] at found
  cases found

end Qev.Desktop
