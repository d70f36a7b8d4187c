import Qev.Bry.Transforms
import Qev.Lib.Aead

/-! Packets: a turned message as bytes under the AEAD, with a header that the
AEAD authenticates and that says nothing of the configuration. -/

namespace Qev.Bry

open Py (Str py)
open Sha256 (hmac)

def SUPPORTED_PACKET_VERSION : ℤ := 1

def SUPPORTED_PACKET_ALG : Str := py "ChaCha20-Poly1305"

def SUPPORTED_BRY_MODE : Str := py "token_ids_v1"

structure PacketHeader where
  version : ℤ
  alg : Str
  bry_mode : Str
  context : Str
  packet_nonce : Str
  token_count : ℤ
  deriving DecidableEq, Repr

structure Packet where
  header : PacketHeader
  ciphertext_b64 : Str

/-- `packet_json` is the packet again, as text. -/
structure PacketBuildResult where
  header : PacketHeader
  packet : Packet
  transformed_human : Str
  transformed_token_count : Nat

structure PacketOpenResult where
  header : PacketHeader
  transformed_human : Str
  recovered_plaintext : Str
  recovered_human : Str
  token_count_ok : Bool

def validate_header (header : PacketHeader) : Except Exc Unit :=
  if header.version ≠ SUPPORTED_PACKET_VERSION then
    .error (.UnsupportedHeader "version" (py (toString header.version)))
  else if header.alg ≠ SUPPORTED_PACKET_ALG then .error (.UnsupportedHeader "alg" header.alg)
  else if header.bry_mode ≠ SUPPORTED_BRY_MODE then
    .error (.UnsupportedHeader "bry_mode" header.bry_mode)
  else if header.context = [] then .error (.ValueError "Packet context must be non-empty.")
  else if header.packet_nonce = [] then .error (.ValueError "Packet nonce must be non-empty.")
  else if header.token_count < 1 then .error (.ValueError "Packet token_count must be at least 1.")
  else .ok ()

def PacketHeader.asdict (header : PacketHeader) : Py.Value := .obj [
  (py "version", .num header.version), (py "alg", .str header.alg),
  (py "bry_mode", .str header.bry_mode), (py "context", .str header.context),
  (py "packet_nonce", .str header.packet_nonce), (py "token_count", .num header.token_count)]

def header_bytes (header : PacketHeader) : Except Exc Bytes := encode (Py.dumps header.asdict)

def derive_aead_key (master_key context : Bytes) : Bytes :=
  hmac master_key (b "BRY-NFET-SX|AEAD|KEY|" ++ context)

def derive_aead_nonce (aead_key packet_nonce context : Bytes) : Bytes :=
  (hmac aead_key (b "BRY-NFET-SX|AEAD|NONCE|" ++ packet_nonce ++ b "|" ++ context)).take 12

variable (aead : Aead)

def encrypt_bytes (master_key packet_nonce context : Str) (plaintext aad : Bytes) :
    Except Exc Bytes := do
  let key := derive_aead_key (← encode master_key) (← encode context)
  let nonce := derive_aead_nonce key (← encode packet_nonce) (← encode context)
  return aead.encrypt key nonce aad plaintext

def decrypt_bytes (master_key packet_nonce context : Str) (ciphertext aad : Bytes) :
    Except Exc Bytes := do
  let key := derive_aead_key (← encode master_key) (← encode context)
  let nonce := derive_aead_nonce key (← encode packet_nonce) (← encode context)
  (aead.decrypt key nonce aad ciphertext).elim (.error .InvalidTag) .ok

def build_packet_from_plaintext (plaintext master_key packet_nonce context : Str)
    (config : NFETConfig) : Except Exc PacketBuildResult := do
  let transformed ← apply_transform_from_plaintext plaintext master_key packet_nonce context config
  let transformed_tokens := Py.split HUMAN_SEPARATOR transformed.transformed_human
  let payload ← tokens_to_bytes transformed_tokens
  let header : PacketHeader := {
    version := SUPPORTED_PACKET_VERSION, alg := SUPPORTED_PACKET_ALG
    bry_mode := SUPPORTED_BRY_MODE, context, packet_nonce
    token_count := transformed_tokens.length }
  validate_header header
  let aad ← header_bytes header
  let ciphertext ← encrypt_bytes aead master_key packet_nonce context payload aad
  return {
    header, packet := ⟨header, Py.b64encode ciphertext⟩
    transformed_human := transformed.transformed_human
    transformed_token_count := transformed_tokens.length }

def open_packet_to_plaintext (packet : Packet) (master_key : Str) (config : NFETConfig) :
    Except Exc PacketOpenResult := do
  let header := packet.header
  validate_header header
  let ciphertext ← (Py.b64decode packet.ciphertext_b64).mapError .Base64Error
  let aad ← header_bytes header
  let payload ← decrypt_bytes aead master_key header.packet_nonce header.context ciphertext aad
  let tokens ← bytes_to_tokens payload
  if (tokens.length : ℤ) ≠ header.token_count then
    throw (.TokenCountMismatch header.token_count tokens.length)
  let transformed_human ← render_human_bry tokens
  let reversed_result ← reverse_transform_from_bry transformed_human master_key header.packet_nonce
    header.context config
  return {
    header, transformed_human
    recovered_plaintext := reversed_result.recovered_plaintext
    recovered_human := reversed_result.original_human
    token_count_ok := true }

variable {aead}

theorem decrypt_encrypt_bytes {master_key packet_nonce context : Str}
    {plaintext aad ciphertext : Bytes}
    (h : encrypt_bytes aead master_key packet_nonce context plaintext aad = .ok ciphertext) :
    decrypt_bytes aead master_key packet_nonce context ciphertext aad = .ok plaintext := by
  obtain ⟨key, encoded, h⟩ := bind_eq_ok.mp h
  obtain ⟨place, encoded', h⟩ := bind_eq_ok.mp h
  obtain ⟨nonce, encoded'', h⟩ := bind_eq_ok.mp h
  rw [encoded', ok_bind] at h
  cases h
  rw [decrypt_bytes, encoded, ok_bind, encoded', ok_bind, encoded'', ok_bind, ok_bind]
  dsimp only
  rw [aead.opens_sealed]
  rfl

theorem not_bar {tokens : List Str} (h : Spelled tokens) : ∀ t ∈ tokens, HUMAN_SEPARATOR ∉ t :=
  fun t here inside => (mem_token (h t here) inside).2 rfl

/-- A packet that was built opens up to the turning back of its tokens. -/
theorem open_built {plaintext master_key packet_nonce context : Str} {config : NFETConfig}
    {built : PacketBuildResult}
    (h : build_packet_from_plaintext aead plaintext master_key packet_nonce context config =
      .ok built) :
    ∃ trace, build_trace plaintext master_key packet_nonce context config = .ok trace ∧
      turned trace.tokens trace.rows ≠ [] ∧
      built.transformed_human = Py.join HUMAN_SEPARATOR (turned trace.tokens trace.rows) ∧
      ∀ receiver : NFETConfig,
        open_packet_to_plaintext aead built.packet master_key receiver = (do
          let reversed_result ← reverse_transform_from_bry built.transformed_human master_key
            packet_nonce context receiver
          return {
            header := built.header, transformed_human := built.transformed_human
            recovered_plaintext := reversed_result.recovered_plaintext
            recovered_human := reversed_result.original_human
            token_count_ok := true }) := by
  obtain ⟨transformed, applied, h⟩ := bind_eq_ok.mp h
  obtain ⟨trace, traced, human⟩ := apply_transform_eq_ok applied
  obtain ⟨-, -, -, -, -, spelled_, -⟩ := trace_spelled traced
  have known := spelled_turned spelled_ trace.rows
  obtain ⟨payload, serialized, h⟩ := bind_eq_ok.mp h
  -- a message of no tokens has one empty part, which is no token
  have nonempty : turned trace.tokens trace.rows ≠ [] := by
    intro empty
    obtain ⟨⟨⟩, valid, -⟩ := bind_eq_ok.mp serialized
    rw [human, empty] at valid
    exact (spelled [] (known_eq_ok.mp valid [] (by simp [Py.join, Py.split]))).1 rfl
  rw [human, Py.split_join (not_bar known) nonempty] at serialized h
  obtain ⟨⟨⟩, header_valid, h⟩ := bind_eq_ok.mp h
  obtain ⟨aad, header_encoded, h⟩ := bind_eq_ok.mp h
  obtain ⟨ciphertext, encrypted, h⟩ := bind_eq_ok.mp h
  cases h
  refine ⟨trace, traced, nonempty, rfl, fun receiver => ?_⟩
  rw [open_packet_to_plaintext]
  dsimp only
  rw [header_valid, ok_bind, Py.b64decode_b64encode]
  simp only [Except.mapError, ok_bind, header_encoded, decrypt_encrypt_bytes encrypted,
    bytes_to_tokens_of serialized, ne_eq, not_true_eq_false, if_false,
    render_spelled known]

/-- It opens under every valid configuration, to the plaintext that the drift
between the two schedules leaves, and under no other. -/
theorem open_built_iff {plaintext master_key packet_nonce context : Str} {config : NFETConfig}
    {built : PacketBuildResult}
    (h : build_packet_from_plaintext aead plaintext master_key packet_nonce context config =
      .ok built) :
    ∃ trace, build_trace plaintext master_key packet_nonce context config = .ok trace ∧
      ∀ (receiver : NFETConfig) (recovered : Str),
        (∃ opened, open_packet_to_plaintext aead built.packet master_key receiver = .ok opened ∧
          opened.recovered_plaintext = recovered) ↔
        ∃ schedule, build_schedule trace.tokens.length master_key packet_nonce context receiver =
            .ok schedule ∧
          decode_from_bry (drifted trace.tokens trace.rows schedule.rows).flatten =
            .ok recovered := by
  obtain ⟨trace, traced, nonempty, human, opens⟩ := open_built h
  refine ⟨trace, traced, fun receiver recovered => ?_⟩
  obtain ⟨-, -, -, -, -, spelled_, -⟩ := trace_spelled traced
  have known := spelled_turned spelled_ trace.rows
  have length : (turned trace.tokens trace.rows).length = trace.tokens.length := by
    rw [turned, List.length_map, List.length_zip, length_trace traced, Nat.min_self]
  rw [opens receiver, human]
  constructor
  · rintro ⟨opened, done, rfl⟩
    obtain ⟨reversed_result, reversed, done⟩ := bind_eq_ok.mp done
    obtain ⟨schedule, there⟩ := reverse_transform_eq_ok known reversed
    obtain ⟨result, reversed', -, decoded⟩ := reverse_transform_rendered known there
    cases reversed.symm.trans reversed'
    cases done
    rw [turnedBack_turned spelled_] at decoded
    rw [length] at there
    exact ⟨schedule, there, decoded⟩
  · rintro ⟨schedule, there, decoded⟩
    rw [← length] at there
    obtain ⟨result, reversed, -, decoded'⟩ := reverse_transform_rendered known there
    rw [turnedBack_turned spelled_, decoded] at decoded'
    rw [reversed, ok_bind]
    exact ⟨_, rfl, (Except.ok.inj decoded').symm⟩

end Qev.Bry
