import Qev.Desktop.PairingCommands

/-! A vault sent straight to a peer: `pairing_send_vault` on one side, and on the
other `accept_one_pairing`, which is the only listener there is. -/

namespace Qev.Desktop.Commands

open Pairing

/-- What the two sides hold after a Noise XK handshake: a cipher for each
direction, and the initiator's static key, which the responder has learned. -/
structure Session where
  to_responder : Cipher
  to_initiator : Cipher
  initiator_static : FixedBytes 32

/-- The network that the sender meets, the handshake with the responder it
reaches, and the clock. -/
structure Route (Addr : Type) where
  parse : String → Except String Addr
  connect : Addr → Except String Unit
  handshake : StaticKeypair → FixedBytes 32 → Except String Session
  timestamp : UInt64

/-! ## The sender -/

section Sender

variable {Addr : Type} (route : Route Addr)

/-- The addresses in turn, up to the first that accepts. -/
def connect_any : List String → Option String → Except String Addr
  | [], last_err => .error ("could not reach any peer address: " ++ last_err.getD "no addrs")
  | a :: addrs, _ =>
    match route.parse a with
    | .error e => connect_any addrs (some ("bad addr " ++ a ++ ": " ++ e))
    | .ok sa =>
      match route.connect sa with
      | .error e => connect_any addrs (some (a ++ ": " ++ e))
      | .ok () => .ok sa

/-- The key and the addresses of a peer in the store. -/
def peer_route (s : PeerStore) (peer_id : String) : Except String (FixedBytes 32 × List String) :=
  match s.find peer_id with
  | none => .error ("unknown peer: " ++ peer_id)
  | some peer =>
    match Base64.decodeCanonical peer.static_pk.toList with
    | none => .error "bad peer static_pk in store"
    | some pk_bytes =>
      if h : pk_bytes.length = 32 then .ok (⟨pk_bytes, h⟩, peer.last_addrs)
      else .error s!"peer static_pk wrong length: {pk_bytes.length}"

/-- What a command of the sender is given. -/
structure SendArgs where
  peer_id : String
  vault_bytes : Bytes
  filename : String
  note : Option String

def SendArgs.message (args : SendArgs) (timestamp : UInt64) : QevMessage :=
  .VaultTransfer args.filename args.vault_bytes args.note timestamp

/-- After the identity: connect, shake hands, send. The bytes that go to the
responder, under the session they belong to. -/
def send_vault (own : StaticKeypair) (peer_pk : FixedBytes 32) (addrs : List String)
    (msg : QevMessage) : Except String (Session × Bytes) := do
  let _ ← connect_any route addrs none
  let session ← route.handshake own peer_pk
  let (_, io) ← Channel.send_msg ⟨session.to_responder, session.to_initiator, 0, 0⟩ msg
  return (session, io)

def pairing_send_vault (app_data_dir : String) (s : Held Device) (args : SendArgs) (out : Outside)
    (umask : Mode) (stop : Option Nat) : Held Device × Except String (Session × Bytes) :=
  match peer_route s.memory.store args.peer_id with
  | .error e => (s, .error e)
  | .ok (peer_pk, addrs) =>
    match with_write (fun d => d.ensure "" "" out)
        (fun d fs => d.store.save umask fs (store_path app_data_dir) stop) s with
    | (s, .error e) => (s, .error e)
    | (s, .ok own) => (s, send_vault route own peer_pk addrs (args.message route.timestamp))

end Sender

/-! ## The responder -/

/-- The message that came off the channel, if one did, and the result. -/
structure Accepted where
  received : Option QevMessage
  result : Except String PairedPeer

/-- From the handshake on: the own identity goes out first. `io` is all that the
initiator sends. -/
def accept_one_pairing (ciborium : QevMessage.Ciborium) (blake2b : Bytes → Bytes)
    (own_public : FixedBytes 32) (own_name own_device : String) (session : Session) (io : Bytes) :
    Accepted :=
  match Channel.send_msg ⟨session.to_initiator, session.to_responder, 0, 0⟩
      (.Identity own_name own_device) with
  | .error e => ⟨none, .error ("send identity: " ++ e)⟩
  | .ok (ch, _) =>
    match ch.recv_msg ciborium io with
    | .error e => ⟨none, .error ("recv identity: " ++ e)⟩
    | .ok (_, _, their_identity) =>
      ⟨some their_identity, paired_peer blake2b own_public session.initiator_static their_identity⟩

/-! ## When the sender succeeds -/

section Sendable

variable {Addr : Type} {route : Route Addr} {app_data_dir : String} {s : Held Device}
  {args : SendArgs} {out : Outside} {umask : Mode} {stop : Option Nat}

theorem connect_any_ok {addrs : List String} {last_err : Option String} :
    (∃ sa, connect_any route addrs last_err = .ok sa) ↔
      ∃ a ∈ addrs, ∃ sa, route.parse a = .ok sa ∧ route.connect sa = .ok () := by
  induction addrs generalizing last_err with
  | nil => simp [connect_any]
  | cons a addrs ih =>
    simp only [connect_any, List.mem_cons, exists_eq_or_imp]
    cases parsed : route.parse a with
    | error e => simp [ih]
    | ok sa =>
      cases connected : route.connect sa with
      | error e => simp [ih, connected]
      | ok u => simp [connected]

theorem peer_route_ok {s : PeerStore} {peer_id : String} {peer_pk : FixedBytes 32}
    {addrs : List String} : peer_route s peer_id = .ok (peer_pk, addrs) ↔
      ∃ peer, s.find peer_id = some peer ∧
        Base64.decodeCanonical peer.static_pk.toList = some peer_pk.val ∧
        peer.last_addrs = addrs := by
  unfold peer_route
  cases found : s.find peer_id with
  | none => simp
  | some peer =>
    cases read : Base64.decodeCanonical peer.static_pk.toList with
    | none => simp [read]
    | some pk_bytes =>
      by_cases whole : pk_bytes.length = 32
      · simp [read, whole, Subtype.ext_iff]
      · have other : pk_bytes ≠ peer_pk.val := by
          rintro rfl
          exact whole peer_pk.property
        simp [read, whole, other]

/-- The peer is known by a whole key and can be reached, there is an own
identity and it is saved, the handshake completes in `session`, and the message
is not too large. -/
def SendableIn (session : Session) (route : Route Addr) (app_data_dir : String) (s : Held Device)
    (args : SendArgs) (out : Outside) (stop : Option Nat) : Prop :=
  ∃ (peer : StoredPeer) (peer_pk : FixedBytes 32) (own : StaticKeypair),
    s.memory.store.find args.peer_id = some peer ∧
    Base64.decodeCanonical peer.static_pk.toList = some peer_pk.val ∧
    (s.memory.ensure "" "" out).2 = .ok own ∧
    ¬ (s.memory.ensure "" "" out).1.store.SaveFails (store_path app_data_dir) stop ∧
    (∃ a ∈ peer.last_addrs, ∃ sa, route.parse a = .ok sa ∧ route.connect sa = .ok ()) ∧
    route.handshake own peer_pk = .ok session ∧
    (args.message route.timestamp).into_writer.length ≤ MAX_MESSAGE_BYTES

theorem send_msg_eq_ok {ch ch' : Channel} {msg : QevMessage} {io : Bytes} :
    ch.send_msg msg = .ok (ch', io) ↔ msg.into_writer.length ≤ MAX_MESSAGE_BYTES ∧
      ch' = ch.sent (n_frags msg.into_writer) ∧
      io = ch.sending.frames ch.sending_nonce (fragments msg.into_writer) := by
  by_cases small : msg.into_writer.length ≤ MAX_MESSAGE_BYTES
  · rw [ch.send_msg_ok small, Except.ok.injEq, Prod.mk.injEq]
    simp only [small, true_and, eq_comm]
  · obtain ⟨e, failed⟩ := ch.send_msg_too_large (Nat.not_le.mp small)
    simp [failed, small]

theorem send_vault_ok {own : StaticKeypair} {peer_pk : FixedBytes 32} {addrs : List String}
    {msg : QevMessage} {session : Session} {io : Bytes} :
    send_vault route own peer_pk addrs msg = .ok (session, io) ↔
      (∃ a ∈ addrs, ∃ sa, route.parse a = .ok sa ∧ route.connect sa = .ok ()) ∧
      route.handshake own peer_pk = .ok session ∧
      msg.into_writer.length ≤ MAX_MESSAGE_BYTES ∧
      io = session.to_responder.frames 0 (fragments msg.into_writer) := by
  rw [← @connect_any_ok Addr route addrs none]
  constructor
  · intro h
    obtain ⟨sa, connected, h⟩ := bind_eq_ok.mp h
    obtain ⟨session', shaken, h⟩ := bind_eq_ok.mp h
    obtain ⟨⟨ch, io'⟩, sent, h⟩ := bind_eq_ok.mp h
    obtain ⟨small, -, stream⟩ := send_msg_eq_ok.mp sent
    cases h
    exact ⟨⟨sa, connected⟩, shaken, small, stream⟩
  · rintro ⟨⟨sa, connected⟩, shaken, small, rfl⟩
    rw [send_vault, connected, ok_bind, shaken, ok_bind, send_msg_eq_ok.mpr ⟨small, rfl, rfl⟩]
    rfl

/-- The command returns `Ok` with the whole message on the stream. -/
theorem pairing_send_vault_ok {session : Session} {io : Bytes} :
    (pairing_send_vault route app_data_dir s args out umask stop).2 = .ok (session, io) ↔
      SendableIn session route app_data_dir s args out stop ∧
      io = session.to_responder.frames 0
        (fragments (args.message route.timestamp).into_writer) := by
  unfold pairing_send_vault SendableIn
  constructor
  · intro h
    split at h
    · cases h
    · rename_i peer_pk addrs routed
      obtain ⟨peer, found, read, rfl⟩ := peer_route_ok.mp routed
      split at h
      · cases h
      · rename_i s' own written
        obtain ⟨ensured, saved⟩ := with_write_eq_ok.mp (congrArg Prod.snd written)
        obtain ⟨reached, shaken, small, stream⟩ := send_vault_ok.mp h
        exact ⟨⟨peer, peer_pk, own, found, read, ensured, PeerStore.save_succeeds.mp saved, reached,
          shaken, small⟩, stream⟩
  · rintro ⟨⟨peer, peer_pk, own, found, read, ensured, saved, reached, shaken, small⟩, stream⟩
    have routed := peer_route_ok.mpr ⟨peer, found, read, rfl⟩
    have written : (with_write (fun d => d.ensure "" "" out)
        (fun d fs => d.store.save umask fs (store_path app_data_dir) stop) s).2 = .ok own :=
      with_write_eq_ok.mpr ⟨ensured, PeerStore.save_succeeds.mpr saved⟩
    simp only [routed]
    split
    · rename_i s' e failed
      rw [failed] at written
      cases written
    · rename_i s' own' done
      rw [done] at written
      cases written
      exact send_vault_ok.mpr ⟨reached, shaken, small, stream⟩

end Sendable

/-! ## What becomes of the vault -/

section Delivery

variable {ciborium : QevMessage.Ciborium} {blake2b : Bytes → Bytes} {own_public : FixedBytes 32}
  {own_name own_device : String}

/-- The responder has the vault and its file name, and has not given it up. -/
def Delivered (args : SendArgs) (accepted : Accepted) : Prop :=
  (∃ note timestamp, accepted.received =
    some (.VaultTransfer args.filename args.vault_bytes note timestamp)) ∧
  ∃ peer, accepted.result = .ok peer

theorem accept_of_received {session : Session} {io out rest : Bytes} {ch ch' : Channel}
    {msg : QevMessage}
    (sent : Channel.send_msg ⟨session.to_initiator, session.to_responder, 0, 0⟩
      (.Identity own_name own_device) = .ok (ch, out))
    (came : ch.recv_msg ciborium io = .ok (ch', rest, msg)) :
    accept_one_pairing ciborium blake2b own_public own_name own_device session io =
      ⟨some msg, paired_peer blake2b own_public session.initiator_static msg⟩ := by
  simp only [accept_one_pairing, sent, came]

/-- The result is made of the message that came. -/
theorem accepted_result {session : Session} {io : Bytes} {msg : QevMessage}
    (received : (accept_one_pairing ciborium blake2b own_public own_name own_device session
      io).received = some msg) :
    (accept_one_pairing ciborium blake2b own_public own_name own_device session io).result =
      paired_peer blake2b own_public session.initiator_static msg := by
  cases sent : Channel.send_msg ⟨session.to_initiator, session.to_responder, 0, 0⟩
      (.Identity own_name own_device) with
  | error e =>
    simp only [accept_one_pairing, sent] at received
    cases received
  | ok after =>
    cases came : after.1.recv_msg ciborium io with
    | error e =>
      simp only [accept_one_pairing, sent, came] at received
      cases received
    | ok rest =>
      have accepted :
          accept_one_pairing ciborium blake2b own_public own_name own_device session io =
          ⟨some rest.2.2, paired_peer blake2b own_public session.initiator_static rest.2.2⟩ :=
        accept_of_received sent came
      rw [accepted] at received ⊢
      rw [Option.some.inj received]

/-- A responder takes only an `Identity`. -/
theorem not_delivered (args : SendArgs) (session : Session) (io : Bytes) : ¬ Delivered args
    (accept_one_pairing ciborium blake2b own_public own_name own_device session io) := by
  rintro ⟨⟨note, timestamp, received⟩, peer, result⟩
  rw [accepted_result received] at result
  cases result

/-- The vault comes off the channel whole, and is taken for an error. -/
theorem vault_received_and_discarded (args : SendArgs) (timestamp : UInt64) (session : Session)
    (small : (args.message timestamp).into_writer.length ≤ MAX_MESSAGE_BYTES)
    (labels : (QevMessage.Identity own_name own_device).into_writer.length ≤ MAX_MESSAGE_BYTES) :
    accept_one_pairing ciborium blake2b own_public own_name own_device session
      (session.to_responder.frames 0 (fragments (args.message timestamp).into_writer)) =
        ⟨some (args.message timestamp), .error "expected Identity"⟩ := by
  have sent := Channel.send_msg_ok ⟨session.to_initiator, session.to_responder, 0, 0⟩ labels
  have came := Channel.recv_msg_sent
    (Channel.sent ⟨session.to_initiator, session.to_responder, 0, 0⟩
      (n_frags (QevMessage.Identity own_name own_device).into_writer)) ciborium small []
  rw [List.append_nil, Channel.sent_receiving, Channel.sent_receiving_nonce] at came
  exact accept_of_received sent came

end Delivery

/-- The run of a direct send: if the command returns `Ok`, the responder that it
reached has the vault. -/
def ReceivedIfSent {Addr : Type} (ciborium : QevMessage.Ciborium) (blake2b : Bytes → Bytes)
    (route : Route Addr) (app_data_dir : String) (s : Held Device) (args : SendArgs)
    (out : Outside) (umask : Mode) (stop : Option Nat) (own_public : FixedBytes 32)
    (own_name own_device : String) : Prop :=
  ∀ session io,
    (pairing_send_vault route app_data_dir s args out umask stop).2 = .ok (session, io) →
    Delivered args
      (accept_one_pairing ciborium blake2b own_public own_name own_device session io)

/-- The vault is received if the send returns `Ok`, if and only if the send
cannot return `Ok`. -/
theorem direct_send_received_iff {Addr : Type} (ciborium : QevMessage.Ciborium)
    (blake2b : Bytes → Bytes) (route : Route Addr) (app_data_dir : String) (s : Held Device)
    (args : SendArgs) (out : Outside) (umask : Mode) (stop : Option Nat)
    (own_public : FixedBytes 32) (own_name own_device : String) :
    ReceivedIfSent ciborium blake2b route app_data_dir s args out umask stop own_public own_name
        own_device ↔
      ¬ ∃ session, SendableIn session route app_data_dir s args out stop := by
  constructor
  · rintro received ⟨session, sendable⟩
    have sent : (pairing_send_vault route app_data_dir s args out umask stop).2 =
        .ok (session, session.to_responder.frames 0
          (fragments (args.message route.timestamp).into_writer)) :=
      pairing_send_vault_ok.mpr ⟨sendable, rfl⟩
    exact not_delivered args session _ (received session _ sent)
  · intro never session io sent
    exact absurd ⟨session, (pairing_send_vault_ok.mp sent).1⟩ never

/-- The peer of a paired device, at the address of its invite. -/
def listener : StoredPeer where
  id := Hex.hex (FixedBytes.fill 32 2).val
  name := "bob"
  device := "phone"
  static_pk := base64 (FixedBytes.fill 32 2).val
  paired_at := "2026-04-15"
  last_seen_at := "2026-04-15"
  trust := .Verified
  last_addrs := ["192.168.1.42:7891"]

def open_route : Route String where
  parse := .ok
  connect _ := .ok ()
  handshake own _ := .ok ⟨.counting, .counting, own.public_key⟩
  timestamp := 0

def small_vault : SendArgs := ⟨listener.id, [1, 2, 3], "vault.json", none⟩

def own_keys : StaticKeypair := ⟨FixedBytes.fill 32 1, FixedBytes.fill 32 4⟩

def own_identity : OwnIdentity :=
  (OwnIdentity.from_keypair own_keys "alice" "laptop" "2026-04-15" ⟨false, none⟩ .all).1

/-- What a device keeps that has paired with the listener. -/
def paired_store : PeerStore :=
  { PeerStore.empty with own_identity := some own_identity, peers := [listener] }

def sender : Held Device :=
  ⟨⟨paired_store, ⟨false, none⟩⟩,
    (paired_store.save 0o022#9 (fun _ => none) (store_path "/data") none).1⟩

def sent_at : Outside := ⟨.error "rng", "2026-04-16", .all⟩

theorem direct_send_lost : ¬ ReceivedIfSent .definite (fun bytes => bytes) open_route "/data" sender
    small_vault sent_at 0o022#9 none (FixedBytes.fill 32 2) "bob" "phone" := by
  have ensured : own_identity.to_keypair ⟨false, none⟩ .all = .ok own_keys :=
    OwnIdentity.to_keypair_eq_ok.mpr ⟨rfl, .inl rfl⟩
  have saves : ¬ (sender.memory.ensure "" "" sent_at).1.store.SaveFails (store_path "/data")
      none := by
    rintro (other | ⟨n, stopped, -⟩)
    · exact other rfl
    · cases stopped
  have sendable : SendableIn ⟨.counting, .counting, FixedBytes.fill 32 1⟩ open_route "/data" sender
      small_vault sent_at none :=
    ⟨listener, FixedBytes.fill 32 2, own_keys, by decide, OwnIdentity.base64_eq.mpr rfl, ensured,
      saves, ⟨_, List.mem_cons_self, _, rfl, rfl⟩, rfl, by decide⟩
  intro received
  apply not_delivered small_vault
  exact received _ _ (pairing_send_vault_ok.mpr ⟨sendable, rfl⟩)

end Qev.Desktop.Commands
