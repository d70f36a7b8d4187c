import Qev.Cli.Vault

/-! Locking a message and opening the vault again with the same phrase. -/

namespace Qev.Cli

open Js (JsString js)
open Utf16 (WellFormed)

namespace Settings

variable (s : Settings) (aead : Aead) (wrapKey : Bytes)

theorem lock_aad : buildAADV2 (s.lock aead wrapKey) = buildAADV2 s.skeleton := rfl

theorem b64urlEncode_ne_nil {bytes : Bytes} (h : bytes ≠ []) : b64urlEncode bytes ≠ [] := by
  intro empty
  have back := b64urlDecode_b64urlEncode bytes
  rw [empty] at back
  have none : b64urlDecode [] = .ok [] := by decide
  rw [none] at back
  exact h (Except.ok.inj back).symm

theorem fixed_ne_nil {n : Nat} (b : FixedBytes (n + 1)) : b.val ≠ [] := by
  intro empty
  have length := b.property
  rw [empty] at length
  cases length

theorem encrypt_ne_nil (k n a p : Bytes) : aead.encrypt k n a p ≠ [] := by
  intro empty
  have length := aead.encrypt_length k n a p
  rw [empty] at length
  cases length

/-- Every vault that is made passes validation. -/
theorem lock_valid : (s.lock aead wrapKey).Valid where
  schema := rfl
  mode := s.mode_known
  kdf_algorithm := rfl
  opslimit := s.opslimit_in
  memlimit := s.memlimit_in
  salt := b64urlEncode_ne_nil (fixed_ne_nil s.salt)
  wrap_algorithm := rfl
  wrap_nonce := b64urlEncode_ne_nil (fixed_ne_nil s.wrapNonce)
  wrapped_key := b64urlEncode_ne_nil (encrypt_ne_nil aead _ _ _ _)
  content_algorithm := rfl
  content_nonce := b64urlEncode_ne_nil (fixed_ne_nil s.contentNonce)
  ciphertext := b64urlEncode_ne_nil (encrypt_ne_nil aead _ _ _ _)

/-- The bytes that the vault's fields stand for. -/
def decoded : Decoded where
  salt := s.salt.val
  wrapNonce := s.wrapNonce.val
  wrappedKey := aead.encrypt wrapKey s.wrapNonce.val (buildAADV2 s.skeleton) s.vaultKey.val
  contentNonce := s.contentNonce.val
  contentCt := aead.encrypt s.vaultKey.val s.contentNonce.val (buildAADV2 s.skeleton) s.ptBytes

theorem decodeFields_lock : decodeFields (s.lock aead wrapKey) = .ok (s.decoded aead wrapKey) := by
  have salt : (s.decoded aead wrapKey).salt.length = SALT_BYTES := s.salt.property
  have wrapNonce : (s.decoded aead wrapKey).wrapNonce.length = NONCE_BYTES := s.wrapNonce.property
  have contentNonce : (s.decoded aead wrapKey).contentNonce.length = NONCE_BYTES :=
    s.contentNonce.property
  have wrapped : (s.decoded aead wrapKey).wrappedKey.length = KEY_BYTES + TAG_BYTES := by
    rw [decoded, aead.encrypt_length, s.vaultKey.property]
    rfl
  have content : (s.decoded aead wrapKey).contentCt.length = s.ptBytes.length + 16 := by
    rw [decoded, aead.encrypt_length]
  have nonempty : (s.decoded aead wrapKey).contentCt.length ≠ 0 := by omega
  have small : ¬ (s.decoded aead wrapKey).contentCt.length > MAX_CIPHERTEXT_BYTES := by
    have bound := s.ptBytes_small
    simp only [MAX_PLAINTEXT_BYTES, MAX_CIPHERTEXT_BYTES] at *
    omega
  have fits : lengthError (s.decoded aead wrapKey) = none := by
    simp only [lengthError, salt, wrapNonce, contentNonce, wrapped, nonempty, small, ne_eq,
      not_true_eq_false, if_false]
  simp only [decoded, skeleton] at fits
  simp only [decodeFields, lock, skeleton, b64urlDecode_b64urlEncode, ok_bind, fits]
  rfl

theorem unlock_decoded :
    unlock aead (buildAADV2 s.skeleton) (s.decoded aead wrapKey) wrapKey = .ok s.ptBytes := by
  have length : s.vaultKey.val.length = KEY_BYTES := s.vaultKey.property
  simp only [unlock, decoded, aead.opens_sealed, length, ne_eq, not_true_eq_false, if_false]

end Settings

/-- Opening a vault with a phrase that is stretched to its wrap key comes down to
reading the plaintext bytes as text. -/
theorem decrypt_lock_with {sodium : Sodium} {s : Settings} {phrase : JsString} {wrapKey : Bytes}
    (nonempty : phrase ≠ [])
    (stretched : sodium.crypto_pwhash KEY_BYTES (utf8 phrase) s.salt.val s.opslimit s.memlimit =
      .ok wrapKey) :
    decryptVaultV2 sodium (s.lock sodium.aead wrapKey).toValue phrase =
      readPlaintext s.ptBytes := by
  have again : sodium.crypto_pwhash KEY_BYTES (utf8 phrase)
      (s.decoded sodium.aead wrapKey).salt (s.lock sodium.aead wrapKey).kdf.opslimit
      (s.lock sodium.aead wrapKey).kdf.memlimit = .ok wrapKey := stretched
  have opened := s.unlock_decoded sodium.aead wrapKey
  rw [decryptVaultV2, validate_toValue (s.lock_valid sodium.aead wrapKey), ok_bind, if_neg nonempty]
  simp only [s.decodeFields_lock, ok_bind, again, s.lock_aad, opened]

theorem decrypt_lock {sodium : Sodium} {s : Settings} {wrapKey : Bytes}
    (stretched : sodium.crypto_pwhash KEY_BYTES (utf8 s.password) s.salt.val s.opslimit s.memlimit =
      .ok wrapKey) :
    decryptVaultV2 sodium (s.lock sodium.aead wrapKey).toValue s.password =
      readPlaintext s.ptBytes :=
  decrypt_lock_with s.password_nonempty stretched

/-- The plaintext as text: the string itself, or the string whose encoding the
bytes are. -/
def Plaintext.Is (plaintext : Plaintext) (t : JsString) : Prop :=
  plaintext = .text t ∨ plaintext = .bytes (utf8 t)

theorem Plaintext.Is.bytes {plaintext : Plaintext} {t : JsString} (h : plaintext.Is t) :
    plaintextBytes plaintext = utf8 t := by
  rcases h with rfl | rfl <;> rfl

theorem settings_eq_ok {opts : EncryptOptions} {draw : Draw} {s : Settings}
    (h : settings opts draw = .ok s) :
    s.password = opts.password ∧ s.ptBytes = plaintextBytes opts.plaintext ∧
      s.opslimit = numberOr opts.opslimit DEFAULT_OPSLIMIT ∧
      s.memlimit = numberOr opts.memlimit DEFAULT_MEMLIMIT := by
  unfold settings at h
  dsimp only at h
  split_ifs at h
  obtain ⟨salt, -, h⟩ := bind_eq_ok.mp h
  obtain ⟨wrapNonce, -, h⟩ := bind_eq_ok.mp h
  obtain ⟨contentNonce, -, h⟩ := bind_eq_ok.mp h
  obtain ⟨vaultKey, -, h⟩ := bind_eq_ok.mp h
  cases h
  exact ⟨rfl, rfl, rfl, rfl⟩

theorem utf8_length_ne_zero {s : JsString} (h : s ≠ []) : (utf8 s).length ≠ 0 := by
  obtain ⟨u, s, rfl⟩ := List.exists_cons_of_ne_nil h
  have chars : Utf16.decodeLossy (u :: s) ≠ [] := by
    cases s with
    | nil => simp [Utf16.decodeLossy]
    | cons v s =>
      rw [Utf16.decodeLossy]
      split <;> simp
  have longer := Utf8.length_le_encode (Utf16.decodeLossy (u :: s))
  have positive := List.length_pos_of_ne_nil chars
  rw [utf8, Js.textEncode]
  omega

/-- Encoded text without a byte order mark in front decodes to itself. -/
theorem fromUtf8_utf8 {t : JsString} (wf : WellFormed t) (mark : t.head? ≠ some 0xFEFF) :
    fromUtf8 (utf8 t) = some t := by
  obtain ⟨cs, rfl⟩ := wf
  have kept : Js.dropBom cs = cs := by
    unfold Js.dropBom
    split
    · exact absurd rfl mark
    · rfl
  rw [fromUtf8, Js.textDecode, utf8, Js.textEncode, Utf16.decodeLossy_encode, Utf8.decode_encode,
    Option.map_some, kept]

theorem decrypt_made {sodium : Sodium} {opts : EncryptOptions} {draw : Draw} {vault : Js.Value}
    (made : encryptVaultV2 sodium opts draw = .ok vault) :
    decryptVaultV2 sodium vault opts.password = readPlaintext (plaintextBytes opts.plaintext) := by
  obtain ⟨s, accepted, made⟩ := bind_eq_ok.mp made
  obtain ⟨wrapKey, stretched, made⟩ := bind_eq_ok.mp made
  cases made
  obtain ⟨password, ptBytes, -⟩ := settings_eq_ok accepted
  rw [← password, ← ptBytes]
  exact decrypt_lock stretched

/-- What opening gives back, with the phrase that the vault was locked with:
text, and an error for bytes that are no text. -/
theorem decrypt_encrypt {sodium : Sodium} {opts : EncryptOptions} {draw : Draw} {vault : Js.Value}
    (made : encryptVaultV2 sodium opts draw = .ok vault) :
    (∀ t, opts.plaintext.Is t → WellFormed t → t.head? ≠ some 0xFEFF →
      decryptVaultV2 sodium vault opts.password = .ok t) ∧
    (¬ Utf8.Valid (plaintextBytes opts.plaintext) →
      decryptVaultV2 sodium vault opts.password =
        .error (js "Decrypted bytes are not valid UTF-8 (vault may be corrupted)")) := by
  have opened := decrypt_made made
  constructor
  · intro t is wf mark
    rw [opened, is.bytes, readPlaintext, fromUtf8_utf8 wf mark]
  · intro invalid
    have undecodable := (Utf8.decode_eq_none_iff _).mpr invalid
    rw [opened, readPlaintext, fromUtf8, Js.textDecode, undecodable]
    rfl

def sampleSodium : Sodium := ⟨fun n _ _ _ _ => .ok (List.replicate n 0), .plain⟩

def sampleOptions (plaintext : Plaintext) : EncryptOptions :=
  ⟨plaintext, js "correct horse", none, none, none, none, none, none, none, none, none⟩

def sampleDraw : Draw :=
  ⟨FixedBytes.fill _ 1, FixedBytes.fill _ 2, FixedBytes.fill _ 3, FixedBytes.fill _ 4,
    js "2026-01-01T00:00:00.000Z"⟩

theorem decrypt_encrypt_text : ∃ vault,
    encryptVaultV2 sampleSodium (sampleOptions (.text (js "hello"))) sampleDraw = .ok vault ∧
    decryptVaultV2 sampleSodium vault (js "correct horse") = .ok (js "hello") := by
  obtain ⟨vault, made⟩ := exists_of_isOk (x := encryptVaultV2 sampleSodium
    (sampleOptions (.text (js "hello"))) sampleDraw) (by decide +kernel)
  exact ⟨vault, made, (decrypt_encrypt made).1 (js "hello") (.inl rfl) ⟨_, rfl⟩ (by decide)⟩

/-- A byte that is no UTF-8 is accepted and does not come back. -/
theorem invalid_bytes_not_returned : ¬ ∀ (sodium : Sodium) (opts : EncryptOptions) (draw : Draw)
    (vault : Js.Value), encryptVaultV2 sodium opts draw = .ok vault →
    ∃ t, opts.plaintext.Is t ∧ decryptVaultV2 sodium vault opts.password = .ok t := by
  intro all
  obtain ⟨vault, made⟩ := exists_of_isOk (x := encryptVaultV2 sampleSodium
    (sampleOptions (.bytes [0xFF])) sampleDraw) (by decide +kernel)
  obtain ⟨t, -, opened⟩ := all _ _ _ vault made
  rw [decrypt_made made] at opened
  have error : readPlaintext (plaintextBytes (.bytes [0xFF])) =
      .error (js "Decrypted bytes are not valid UTF-8 (vault may be corrupted)") := rfl
  rw [show (sampleOptions (.bytes [0xFF])).plaintext = .bytes [0xFF] from rfl, error] at opened
  cases opened

end Qev.Cli
