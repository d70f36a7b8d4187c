import Qev.Desktop.WithWrite
import Qev.Pairing.Invite
import Qev.Pairing.Transport

/-! The pairing commands of the desktop: what the responder and the initiator
make of each other's messages, and the record of the peer that each writes to
its store. -/

namespace Qev.Desktop.Commands

open Pairing

structure PairedPeer where
  id : String
  peer_name : String
  peer_device : String
  safety_number : String
  peer_addrs : List String
  deriving DecidableEq, Repr

def hex_to_32 (hex : String) : Except Failure (FixedBytes 32) :=
  let bytes := utf8 hex
  if bytes.length ≠ 64 then
    .error (.err s!"public_hex wrong length: {bytes.length} (expected 64)")
  else do
    let out ← parse_hex "hex byte" 0 bytes
    if h : out.length = 32 then .ok ⟨out, h⟩ else .error .panic

theorem hex_to_32_hex (pk : FixedBytes 32) : hex_to_32 (Hex.hex pk.val) = .ok pk := by
  have whole : pk.val.length = 32 := pk.property
  have length : (utf8 (Hex.hex pk.val)).length = 64 := by
    rw [utf8, Hex.encode_hex, List.length_flatMap]
    simp [whole]
  have parsed : parse_hex "hex byte" 0 (utf8 (Hex.hex pk.val)) = .ok pk.val := by
    rw [utf8, Hex.encode_hex, parse_hex_hex]
  simp [hex_to_32, length, parsed, pk.property]

/-! ## The responder -/

/-- The end of `accept_one_pairing`: what it returns on the message that it
takes for the identity of the peer whose key is `peer_pk`. -/
def paired_peer (blake2b : Bytes → Bytes) (own_public peer_pk : FixedBytes 32) :
    QevMessage → Except String PairedPeer
  | .Identity name device =>
    .ok {
      id := Hex.hex peer_pk.val
      peer_name := name
      peer_device := device
      safety_number := safety_number blake2b own_public peer_pk
      peer_addrs := [] }
  | _ => .error "expected Identity"

/-- The record that the task of `pairing_show_qr` makes of it. -/
def responder_record (peer : PairedPeer) (paired_at last_seen_at : String) :
    Except Failure StoredPeer := do
  let pk_bytes ← hex_to_32 peer.id
  return {
    id := peer.id
    name := peer.peer_name
    device := peer.peer_device
    static_pk := base64 pk_bytes.val
    paired_at
    last_seen_at
    trust := .Unverified
    last_addrs := peer.peer_addrs }

/-- What a pairing writes as the responder. -/
def responder_write (blake2b : Bytes → Bytes) (own_public peer_pk : FixedBytes 32)
    (their_identity : QevMessage) (paired_at last_seen_at : String) : Option PeerWrite :=
  match paired_peer blake2b own_public peer_pk their_identity with
  | .error _ => none
  | .ok peer =>
    match responder_record peer paired_at last_seen_at with
    | .error _ => none
    | .ok stored => some (.upsert stored)

/-! ## The initiator -/

section Initiator

variable {Addr : Type} (parsers : Parsers Addr)

/-- What `pairing_accept_invite` takes from the QR code before it connects. -/
def read_invite (qr_text : String) (now : Nat) :
    Except String (PairingInvite × FixedBytes 32 × List Addr) := do
  let invite ← PairingInvite.decode_qr parsers qr_text
  invite.check_expiry parsers now
  let peer_pk ← invite.static_pk_array
  let addrs ← invite.addrs_parsed parsers
  return (invite, peer_pk, addrs)

def initiator_record (invite : PairingInvite) (paired_at last_seen_at : String) : StoredPeer where
  id := Hex.hex invite.static_pk
  name := invite.name
  device := invite.device
  static_pk := base64 invite.static_pk
  paired_at := paired_at
  last_seen_at := last_seen_at
  trust := .Unverified
  last_addrs := invite.addrs

/-- What a pairing writes as the initiator. The peer's own labels are not read. -/
def initiator_write (qr_text : String) (now : Nat) (their_identity : QevMessage)
    (paired_at last_seen_at : String) : Option PeerWrite :=
  match read_invite parsers qr_text now, their_identity with
  | .ok (invite, _), .Identity _ _ =>
    some (.upsert (initiator_record invite paired_at last_seen_at))
  | _, _ => none

end Initiator

/-! ## The records -/

section Records

variable {blake2b : Bytes → Bytes} {own_public peer_pk : FixedBytes 32}
  {their_identity : QevMessage}
  {paired_at last_seen_at qr_text : String} {now : Nat} {w : PeerWrite} {Addr : Type}
  {parsers : Parsers Addr}

/-- The responder writes on an `Identity` message, and takes its labels from it. -/
theorem responder_write_eq : responder_write blake2b own_public peer_pk their_identity paired_at
    last_seen_at = some w ↔ ∃ name device, their_identity = .Identity name device ∧ w = .upsert {
      id := Hex.hex peer_pk.val, name, device, static_pk := base64 peer_pk.val, paired_at,
      last_seen_at, trust := .Unverified, last_addrs := [] } := by
  cases their_identity with
  | Identity name device =>
    simp only [responder_write, paired_peer, responder_record, hex_to_32_hex, ok_bind]
    constructor
    · intro h
      exact ⟨name, device, rfl, (Option.some.inj h).symm⟩
    · rintro ⟨name', device', same, rfl⟩
      cases same
      rfl
  | VaultTransfer filename vault_bytes note timestamp => simp [responder_write, paired_peer]
  | Ping => simp [responder_write, paired_peer]
  | Pong => simp [responder_write, paired_peer]

/-- The initiator writes what an invite says that has passed the checks. -/
theorem initiator_write_eq (h : initiator_write parsers qr_text now their_identity paired_at
    last_seen_at = some w) : ∃ invite : PairingInvite,
      w = .upsert (initiator_record invite paired_at last_seen_at) ∧
      invite.static_pk.length = 32 ∧ PairingInvite.ValidLabels invite.name invite.device := by
  unfold initiator_write at h
  split at h
  · rename_i invite rest _ _ read
    cases h
    obtain ⟨invite', decoded, rest⟩ := bind_eq_ok.mp read
    obtain ⟨_, -, rest⟩ := bind_eq_ok.mp rest
    obtain ⟨_, -, rest⟩ := bind_eq_ok.mp rest
    obtain ⟨_, -, rest⟩ := bind_eq_ok.mp rest
    cases rest
    exact ⟨invite, rfl, PairingInvite.labels_of_validate (PairingInvite.decode_qr_eq_ok decoded)⟩
  · cases h

theorem keyed_of_pk (pk : FixedBytes 32) {p : StoredPeer} (id : p.id = Hex.hex pk.val)
    (static_pk : p.static_pk = base64 pk.val) : p.Keyed :=
  ⟨pk, OwnIdentity.base64_eq.mpr static_pk, id⟩

/-- Both paths write a record whose id is that of its key, not verified. -/
theorem responder_record_keyed (h : responder_write blake2b own_public peer_pk their_identity
    paired_at last_seen_at = some w) :
    ∃ stored : StoredPeer, w = .upsert stored ∧ stored.Keyed ∧ stored.trust = .Unverified := by
  obtain ⟨name, device, -, rfl⟩ := responder_write_eq.mp h
  exact ⟨_, rfl, keyed_of_pk peer_pk rfl rfl, rfl⟩

theorem initiator_record_keyed (h : initiator_write parsers qr_text now their_identity paired_at
    last_seen_at = some w) :
    ∃ stored : StoredPeer, w = .upsert stored ∧ stored.Keyed ∧ stored.trust = .Unverified := by
  obtain ⟨invite, rfl, whole, -⟩ := initiator_write_eq h
  exact ⟨_, rfl, keyed_of_pk ⟨invite.static_pk, whole⟩ rfl rfl, rfl⟩

end Records

end Qev.Desktop.Commands
