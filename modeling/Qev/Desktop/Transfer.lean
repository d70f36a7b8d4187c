import Qev.Desktop.Inbox
import Qev.Lib.Aead
import Qev.Lib.Base64
import Qev.Relay.Deliver

/-! A vault sent to a peer through the relay: `sendToPeer` of `pairing.js` with
`relay_send_to_peer`, and at the other end `relay_fetch_inbox` and the button
that opens a row of the inbox. -/

namespace Qev.Desktop

open Relay (InMemoryStore Moment Pk RelayClient RelayService)

def utf8 (s : String) : Bytes := Utf8.encode s.toList

def base64 (bs : Bytes) : String := String.ofList (Base64.encode bs)

/-! ## The seal

Errors are given without the detail that a library appends to them. -/

/-- XChaCha20-Poly1305 and BLAKE2b-256. -/
structure SealCrypto where
  aead : Aead
  blake2b : Bytes → Bytes

def seal_key (crypto : SealCrypto) (seal_phrase : String) : Bytes :=
  crypto.blake2b (utf8 "QEV-SEAL-V1-KEY-DERIVATION:" ++ utf8 seal_phrase)

/-- `nonce` is what the system's random source fills in. -/
def seal_vault (crypto : SealCrypto) (inner_vault_json seal_phrase : String) (nonce : Bytes) :
    Except String String :=
  if seal_phrase = "" then .error "internal bug: seal phrase must not be empty"
  else
    let ciphertext := crypto.aead.encrypt (seal_key crypto seal_phrase) nonce (utf8 "QEV-SEAL-V1")
      (utf8 inner_vault_json)
    .ok (Value.json [("schema", .str "QEV-SEAL-V1"), ("nonce", .str (base64 nonce)),
      ("ciphertext", .str (base64 ciphertext))]).to_string

def is_sealed (serde : SerdeJson) (json_str : String) : Bool :=
  match serde.from_str json_str with
  | none => false
  | some v => ((v.get "schema").bind Value.as_str).any fun s => s = "QEV-SEAL-V1"

def str_field (v : Value) (name : String) : Except String String :=
  match (v.get name).bind Value.as_str with
  | some s => .ok s
  | none => .error ("internal bug: missing " ++ name ++ " in sealed json")

def decode_b64 (what s : String) : Except String Bytes :=
  match Base64.decodeCanonical s.toList with
  | some bs => .ok bs
  | none => .error ("internal bug: " ++ what ++ " b64")

def unseal_vault (serde : SerdeJson) (crypto : SealCrypto) (sealed_json seal_phrase : String) :
    Except String String :=
  if seal_phrase = "" then .error "internal bug: seal phrase must not be empty"
  else
    match serde.from_str sealed_json with
    | none => .error "internal bug: sealed json parse"
    | some parsed => do
      let schema ← str_field parsed "schema"
      if schema ≠ "QEV-SEAL-V1" then throw ("internal bug: unsupported seal schema: " ++ schema)
      let nonce_b64 ← str_field parsed "nonce"
      let ct_b64 ← str_field parsed "ciphertext"
      let nonce ← decode_b64 "nonce" nonce_b64
      let ciphertext ← decode_b64 "ciphertext" ct_b64
      if nonce.length ≠ 24 then
        throw ("internal bug: seal nonce wrong length: " ++ toString nonce.length)
      match crypto.aead.decrypt (seal_key crypto seal_phrase) nonce (utf8 "QEV-SEAL-V1")
          ciphertext with
      | none => throw "internal bug: seal decrypt failed: wrong phrase or tampered"
      | some plaintext =>
        match Utf8.decode plaintext with
        | none => throw "internal bug: sealed plaintext not UTF-8"
        | some cs => return String.ofList cs

/-! ## The sender -/

structure PairedPeer where
  id : String
  static_pk : String
  deriving DecidableEq, Repr

/-- The sender's choice of an extra seal: its phrase, and the nonce drawn. -/
structure Seal where
  phrase : String
  nonce : Bytes

/-- What `sendToPeer` sends of a locked vault. -/
def final_payload (crypto : SealCrypto) (vault_json : String) : Option Seal → Except String String
  | none => .ok vault_json
  | some extra => seal_vault crypto vault_json extra.phrase extra.nonce

def peer_pk (peers : List PairedPeer) (peer_id : String) : Except String Pk :=
  match peers.find? fun p => p.id = peer_id with
  | none => .error ("unknown peer: " ++ peer_id)
  | some peer =>
    match Base64.decodeCanonical peer.static_pk.toList with
    | none => .error "bad peer static_pk"
    | some pk_bytes =>
      if h : pk_bytes.length = 32 then .ok ⟨pk_bytes, h⟩
      else .error ("peer static_pk wrong length: " ++ toString pk_bytes.length)

def envelope_value (vault_bytes : Bytes) (filename : String) (note : Option String)
    (ts : UInt64) : Value :=
  Value.json [("type", .str "vault-transfer"), ("filename", .str filename),
    ("note", (note.map Json.str).getD .null), ("vault_bytes_b64", .str (base64 vault_bytes)),
    ("timestamp", .num (.u64 ts))]

def relay_send_to_peer (client : RelayClient) (svc : RelayService) (peers : List PairedPeer)
    (peer_id : String) (vault_bytes : Bytes) (filename : String) (note : Option String)
    (ts : UInt64) (at_ : Moment) : RelayService × Except String String :=
  match peer_pk peers peer_id with
  | .error e => (svc, .error e)
  | .ok pk =>
    let envelope_payload := utf8 (envelope_value vault_bytes filename note ts).to_string
    match client.deliver svc pk envelope_payload at_ with
    | (svc, .error e) => (svc, .error ("relay deliver: " ++ e.display))
    | (svc, .ok id) => (svc, .ok (Hex.hex id.val))

/-! ## The recipient -/

/-- The rows that `relay_fetch_inbox` returns when its fetch succeeds. -/
def relay_fetch_inbox (svc : RelayService) (own : Pk) : List RelayEnvelope :=
  ((svc.store.get_pending own FETCH_LIMIT).1.map RelayClient.toFetched).map relay_envelope

/-- The text that the Open button of a row puts into the vault-opening form,
if any; `sealPhrase` is what the user types when asked. -/
def open_row (serde : SerdeJson) (crypto : SealCrypto) (env : RelayEnvelope) (sealPhrase : String) :
    Option String :=
  if is_sealed serde env.payload then
    if sealPhrase = "" then none
    else (unseal_vault serde crypto env.payload sealPhrase).toOption
  else some env.payload

/-- The recipient's form is given `vault_json` out of the row with that id. -/
def HandsOver (serde : SerdeJson) (crypto : SealCrypto) (svc : RelayService) (own : Pk)
    (id vault_json : String) : Prop :=
  ∃ row ∈ relay_fetch_inbox svc own, row.id = id ∧
    ∃ sealPhrase, open_row serde crypto row sealPhrase = some vault_json

/-! ## What the recipient gets -/

theorem wrapper_fields (vault_bytes : Bytes) (filename : String) (note : Option String)
    (ts : UInt64) : envelope_value vault_bytes filename note ts =
      .obj [("filename", .str filename), ("note", (note.map Json.str).getD .null),
        ("timestamp", .num (.u64 ts)), ("type", .str "vault-transfer"),
        ("vault_bytes_b64", .str (base64 vault_bytes))] := by
  have order : ("filename" < "note") ∧ ("note" < "timestamp") ∧ ("filename" < "timestamp") ∧
      ("timestamp" < "vault_bytes_b64") ∧ ¬ ("vault_bytes_b64" < "timestamp") ∧
      ("note" < "vault_bytes_b64") ∧ ¬ ("type" < "filename") ∧ ¬ ("type" < "note") ∧
      ¬ ("type" < "timestamp") ∧ ("type" < "vault_bytes_b64") := by
    decide
  simp only [envelope_value, Value.json, List.foldr_cons, List.foldr_nil, Json.insertField, order,
    if_true, if_false]

theorem wrapper_reads_back (serde : SerdeJson) (vault_bytes : Bytes) (filename : String)
    (note : Option String) (ts : UInt64) :
    serde.from_str (envelope_value vault_bytes filename note ts).to_string =
      some (envelope_value vault_bytes filename note ts) := by
  apply serde.from_str_to_string
  · rw [wrapper_fields]
    cases note <;> simp [Value.Plain, Json.Numbers, Json.NumbersFields]
  · have order : ["filename", "note", "timestamp", "type", "vault_bytes_b64"].Pairwise (· < ·) := by
      decide +kernel
    rw [wrapper_fields]
    cases note <;> exact ⟨order, trivial, trivial, trivial, trivial, trivial, trivial⟩
  · rw [wrapper_fields]
    cases note <;> simp [Json.depth, Json.depthFields]

/-- The wrapper is not taken for a sealed vault, whatever it carries. -/
theorem wrapper_not_sealed (serde : SerdeJson) (vault_bytes : Bytes) (filename : String)
    (note : Option String) (ts : UInt64) :
    is_sealed serde (envelope_value vault_bytes filename note ts).to_string = false := by
  rw [is_sealed, wrapper_reads_back, wrapper_fields]
  simp [Json.get]

/-- An object that has some bytes as a base64 field is longer than these bytes. -/
theorem length_json {fields : List (String × Value)} {name : String} {bs : Bytes}
    (field : (name, Json.str (base64 bs)) ∈ fields) :
    bs.length < (utf8 (Value.json fields).to_string).length := by
  calc bs.length
      ≤ (Base64.encode bs).length := Base64.length_le_encode bs
    _ < (Value.quote (base64 bs)).length := by
        have quoted := Value.length_quote (base64 bs)
        rw [base64, String.toList_ofList] at quoted
        rw [base64]
        omega
    _ < (Json.print Value.printer (Value.json fields)).length :=
        Json.length_print_lt_obj Value.printer (Value.mem_json.mpr field)
    _ ≤ (utf8 (Value.json fields).to_string).length := by
        rw [Value.to_string, utf8, String.toList_ofList]
        exact Utf8.length_le_encode _

theorem length_envelope_value (vault_bytes : Bytes) (filename : String) (note : Option String)
    (ts : UInt64) :
    vault_bytes.length < (utf8 (envelope_value vault_bytes filename note ts).to_string).length := by
  have field : ("vault_bytes_b64", Json.str (base64 vault_bytes)) ∈
      [("type", .str "vault-transfer"), ("filename", .str filename),
        ("note", (note.map Json.str).getD .null), ("vault_bytes_b64", .str (base64 vault_bytes)),
        ("timestamp", .num (Number.u64 ts))] := by
    simp
  exact length_json field

/-- Sealing only adds to the vault's bytes. -/
theorem length_final_payload {crypto : SealCrypto} {vault_json final : String}
    {extra : Option Seal} (sealing : final_payload crypto vault_json extra = .ok final) :
    (utf8 vault_json).length ≤ (utf8 final).length := by
  cases extra with
  | none =>
    cases sealing
    exact Nat.le_refl _
  | some extra =>
    rw [final_payload, seal_vault] at sealing
    split at sealing
    · cases sealing
    · rw [Except.ok.injEq] at sealing
      subst sealing
      generalize ct : crypto.aead.encrypt _ _ _ _ = ciphertext
      have tagged : ciphertext.length = (utf8 vault_json).length + 16 := by
        rw [← ct, crypto.aead.encrypt_length]
      have field : ("ciphertext", Json.str (base64 ciphertext)) ∈
          [("schema", .str "QEV-SEAL-V1"), ("nonce", .str (base64 extra.nonce)),
            (("ciphertext", .str (base64 ciphertext)) : String × Value)] := by
        simp
      have longer := length_json field
      omega

/-- The row of an envelope whose bytes are text. -/
theorem payload_relay_envelope (id : Relay.EnvelopeId) (to_ from_ : Pk) (text : String)
    (now : UInt64) :
    (relay_envelope (RelayClient.toFetched ⟨id, to_, from_, utf8 text, now⟩)).payload = text := by
  simp only [relay_envelope, RelayClient.toFetched, from_utf8_lossy, utf8, Utf8.decodeLossy_encode,
    String.ofList_toList]

section Sent

variable {client : RelayClient} {svc svc' : RelayService} {peers : List PairedPeer}
  {peer_id : String} {pk : Pk} {vault_bytes : Bytes} {filename : String} {note : Option String}
  {ts : UInt64} {at_ : Moment} {id : String}

/-- What the recipient's inbox shows of a send that succeeds: the row with the
id that the sender was given carries the wrapper. -/
theorem row_of_sent (peer : peer_pk peers peer_id = .ok pk)
    (sent : relay_send_to_peer client svc peers peer_id vault_bytes filename note ts at_ =
      (svc', .ok id))
    (fresh : ∀ e ∈ svc.store.pending pk, e.id ≠ at_.drawn)
    {row : RelayEnvelope} (listed : row ∈ relay_fetch_inbox svc' pk) (same : row.id = id) :
    row.payload = (envelope_value vault_bytes filename note ts).to_string := by
  simp only [relay_send_to_peer, peer] at sent
  split at sent
  · cases sent
  · rename_i drawn delivered
    cases sent
    obtain ⟨rfl, queue⟩ := RelayClient.deliver_eq_ok delivered
    simp only [relay_fetch_inbox, InMemoryStore.get_pending_eq, queue, InMemoryStore.popOver_eq,
      List.mem_map] at listed
    obtain ⟨_, ⟨e, queued, rfl⟩, rfl⟩ := listed
    have mem := List.mem_of_mem_drop (List.mem_of_mem_take queued)
    rcases List.mem_append.mp mem with old | new
    · exact absurd (Subtype.ext (Hex.hex_injective same)) (fresh e old)
    · rw [List.mem_singleton] at new
      subst new
      exact payload_relay_envelope _ _ _ _ _

/-- What Open hands on of it is the whole wrapper, whatever phrase is typed. -/
theorem open_row_of_sent (serde : SerdeJson) (crypto : SealCrypto)
    (peer : peer_pk peers peer_id = .ok pk)
    (sent : relay_send_to_peer client svc peers peer_id vault_bytes filename note ts at_ =
      (svc', .ok id))
    (fresh : ∀ e ∈ svc.store.pending pk, e.id ≠ at_.drawn)
    {row : RelayEnvelope} (listed : row ∈ relay_fetch_inbox svc' pk) (same : row.id = id)
    (sealPhrase : String) :
    open_row serde crypto row sealPhrase =
      some (envelope_value vault_bytes filename note ts).to_string := by
  have payload := row_of_sent peer sent fresh listed same
  have unsealed := wrapper_not_sealed serde vault_bytes filename note ts
  rw [open_row, payload, unsealed, if_neg Bool.false_ne_true]

/-- No vault that is sent through the relay, sealed or not, comes out of the
recipient's inbox as the text that the sender had. -/
theorem sent_vault_never_opens (serde : SerdeJson) (crypto : SealCrypto) {vault_json final : String}
    {extra : Option Seal} (sealing : final_payload crypto vault_json extra = .ok final)
    (peer : peer_pk peers peer_id = .ok pk)
    (sent : relay_send_to_peer client svc peers peer_id (utf8 final) filename note ts at_ =
      (svc', .ok id))
    (fresh : ∀ e ∈ svc.store.pending pk, e.id ≠ at_.drawn) :
    ¬ HandsOver serde crypto svc' pk id vault_json := by
  rintro ⟨row, listed, same, sealPhrase, opened⟩
  rw [open_row_of_sent serde crypto peer sent fresh listed same sealPhrase] at opened
  have text := Option.some.inj opened
  have wrapped := length_envelope_value (utf8 final) filename note ts
  have kept := length_final_payload sealing
  rw [text] at wrapped
  omega

end Sent

/-- A send of few bytes succeeds. -/
theorem sends {client : RelayClient} {svc : RelayService} {peers : List PairedPeer}
    {peer_id : String} {pk : Pk} {at_ : Moment} (vault_bytes : Bytes) (filename : String)
    (note : Option String) (ts : UInt64) (peer : peer_pk peers peer_id = .ok pk)
    (admits : svc.deliver_limiter.Admits client.own at_.instant)
    (small : (utf8 (envelope_value vault_bytes filename note ts).to_string).length ≤
      Relay.MAX_DELIVERED) :
    ∃ svc', relay_send_to_peer client svc peers peer_id vault_bytes filename note ts at_ =
      (svc', .ok (Hex.hex at_.drawn.val)) := by
  have delivered := RelayClient.deliver_fits admits pk small
  rw [relay_send_to_peer, peer]
  dsimp only
  rw [delivered]
  exact ⟨_, rfl⟩

def samplePeer : PairedPeer := ⟨"bob", base64 (List.replicate 32 2)⟩

def sampleVault : String := "\x7b\"schema\":\"BRY-NFET-SX-VAULT-V2\"\x7d"

def sampleFilename : String := "vault-2026-01-01.vault.json"

theorem samplePeer_pk : peer_pk [samplePeer] "bob" = .ok (FixedBytes.fill _ 2) := by
  decide +kernel

theorem sample_fresh : ∀ e ∈ RelayClient.sampleService.store.pending (FixedBytes.fill _ 2),
    e.id ≠ RelayClient.sampleMoment.drawn := by
  have none : RelayClient.sampleService.store.pending (FixedBytes.fill _ 2) = [] :=
    InMemoryStore.pending_new 100 _
  rw [none]
  nofun

/-- A vault goes out to a fresh relay. -/
theorem sample_sent : ∃ svc', relay_send_to_peer RelayClient.sample RelayClient.sampleService
    [samplePeer] "bob" (utf8 sampleVault) sampleFilename none 0 RelayClient.sampleMoment =
      (svc', .ok (Hex.hex RelayClient.sampleMoment.drawn.val)) := by
  have small : (utf8 (envelope_value (utf8 sampleVault) sampleFilename none 0).to_string).length ≤
      Relay.MAX_DELIVERED := by
    decide +kernel
  exact sends _ _ _ _ samplePeer_pk (Relay.RateLimiter.admits_new 30 (by decide) _ _) small

theorem sent_vault_never_opens_sample : ∃ svc', relay_send_to_peer RelayClient.sample
      RelayClient.sampleService [samplePeer] "bob" (utf8 sampleVault) sampleFilename none 0
      RelayClient.sampleMoment = (svc', .ok (Hex.hex RelayClient.sampleMoment.drawn.val)) ∧
    ¬ HandsOver SerdeJson.compact ⟨.plain, id⟩ svc' (FixedBytes.fill _ 2)
      (Hex.hex RelayClient.sampleMoment.drawn.val) sampleVault := by
  obtain ⟨svc', sent⟩ := sample_sent
  have unsealed : final_payload ⟨.plain, id⟩ sampleVault none = .ok sampleVault := rfl
  exact ⟨svc', sent, sent_vault_never_opens SerdeJson.compact ⟨.plain, id⟩ unsealed samplePeer_pk
    sent sample_fresh⟩

/-- Not every vault that is sent arrives as the text it was. -/
theorem sent_vault_arrives_wrapped : ¬ ∀ (serde : SerdeJson) (crypto : SealCrypto)
    (client : RelayClient) (svc svc' : RelayService) (peers : List PairedPeer) (peer_id : String)
    (pk : Pk) (vault_json final : String) (extra : Option Seal) (filename : String)
    (note : Option String) (ts : UInt64) (at_ : Moment) (id : String),
    final_payload crypto vault_json extra = .ok final → peer_pk peers peer_id = .ok pk →
    relay_send_to_peer client svc peers peer_id (utf8 final) filename note ts at_ =
      (svc', .ok id) →
    (∀ e ∈ svc.store.pending pk, e.id ≠ at_.drawn) →
    HandsOver serde crypto svc' pk id vault_json := by
  intro all
  obtain ⟨svc', sent⟩ := sample_sent
  obtain ⟨row, listed, same, sealPhrase, opened⟩ := all SerdeJson.compact ⟨.plain, id⟩ _ _ svc' _ _
    _ sampleVault _ none _ _ _ _ _ rfl samplePeer_pk sent sample_fresh
  rw [open_row_of_sent _ _ samplePeer_pk sent sample_fresh listed same] at opened
  have wrapped := length_envelope_value (utf8 sampleVault) sampleFilename none 0
  rw [Option.some.inj opened] at wrapped
  exact lt_irrefl _ wrapped

end Qev.Desktop
