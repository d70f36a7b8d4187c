import Qev.Cli.Vault

/-! `decryptVaultV2` of the desktop's interface (`chat.js`). Its constants, its
`utf8` and `fromUtf8`, `canonicalJSON` and `buildAADV2` are those of the command
line word for word. -/

namespace Qev.Ui

open Js (JsString js)
open Cli (AEAD_ALG Content Decoded KDF_ALG KEY_BYTES Kdf MAX_CIPHERTEXT_BYTES MAX_MEMLIMIT
  MAX_OPSLIMIT MIN_MEMLIMIT MIN_OPSLIMIT NONCE_BYTES SALT_BYTES SCHEMA_V2 Sodium Vault Wrap
  buildAADV2 constant displayed fromUtf8 get isB64url numberIn object string utf8)

/-- `sodium.from_base64` in its variant without padding: it stops at the first
character that is not of the alphabet, and takes no bits left over but zeros. -/
def b64urlDecode (str : JsString) : Except JsString Bytes :=
  let body := str.takeWhile isB64url
  match Base64.decodeCanonical (body.map fun u => Char.ofNat u.toNat) with
  | none => .error (js "invalid input")
  | some bytes => if body.length = str.length then .ok bytes else .error (js "incomplete input")

theorem b64urlDecode_b64urlEncode (bytes : Bytes) :
    b64urlDecode (Cli.b64urlEncode bytes) = .ok bytes := by
  have body : (Cli.b64urlEncode bytes).takeWhile isB64url = Cli.b64urlEncode bytes := by
    rw [List.takeWhile_eq_self_iff]
    exact fun u mem => (Cli.b64urlEncode_alphabet mem).1
  rw [b64urlDecode, body, Cli.b64urlEncode_chars, Base64.decodeCanonical_encode]
  exact if_pos rfl

/-! ## Validation -/

def enforceKdfCaps (kdf : Option Js.Value) : Except JsString Kdf := do
  let kdf ← object kdf "Vault malformed: missing kdf section"
  let algorithm ← constant (get kdf "algorithm") KDF_ALG (js "Unsupported KDF algorithm: " ++ ·)
  let opslimit ← numberIn (get kdf "opslimit") MIN_OPSLIMIT MAX_OPSLIMIT
    "KDF opslimit out of range (1-10)"
  let memlimit ← numberIn (get kdf "memlimit") MIN_MEMLIMIT MAX_MEMLIMIT
    "KDF memlimit out of range (8-256 MiB)"
  let salt ← string (get kdf "salt") "Vault malformed: kdf.salt must be a string"
  return { algorithm, opslimit, memlimit, salt }

def modeOf (v : Option Js.Value) : Except JsString JsString :=
  match v with
  | some (.str mode) =>
    if mode = js "self" ∨ mode = js "share" then .ok mode
    else .error (js "Vault malformed: mode must be \"self\" or \"share\"")
  | _ => .error (js "Vault malformed: mode must be \"self\" or \"share\"")

structure Common where
  version : JsString
  created_at : JsString
  mode : JsString
  kdf : Kdf

def validateCommonVaultFields (vault : Js.Value) : Except JsString Common := do
  let vault ← object (some vault) "Vault malformed: not an object"
  let version ← string (get vault "version") "Vault malformed: missing version"
  let created_at ← string (get vault "created_at") "Vault malformed: missing created_at"
  let mode ← modeOf (get vault "mode")
  let kdf ← enforceKdfCaps (get vault "kdf")
  return { version, created_at, mode, kdf }

/-- A part of the vault whose algorithm is the AEAD; `unsupported` is the error
with the algorithm, or with the part itself where it is falsy. -/
def partOf (part : Option Js.Value) (unsupported : String) : Except JsString Js.Value :=
  match part with
  | some v =>
    if Js.truthy (some v) then do
      let _ ← constant (get v "algorithm") AEAD_ALG (js unsupported ++ ·)
      return v
    else .error (js unsupported ++ Js.display v)
  | none => .error (js unsupported ++ js "undefined")

def validateVaultSchemaV2 (vault : Js.Value) : Except JsString Vault := do
  let common ← validateCommonVaultFields vault
  let schema ← constant (get vault "schema") SCHEMA_V2 fun found =>
    js "Unsupported vault schema: \"" ++ found ++ js "\" (expected " ++ SCHEMA_V2 ++ js ")"
  let wrap ← partOf (get vault "wrap") "Unsupported wrap algorithm: "
  let wrapNonce ← string (get wrap "nonce") "Vault malformed: missing wrap.nonce"
  let wrapped_key ← string (get wrap "wrapped_key") "Vault malformed: missing wrap.wrapped_key"
  let content ← partOf (get vault "content") "Unsupported content algorithm: "
  let contentNonce ← string (get content "nonce") "Vault malformed: missing content.nonce"
  let ciphertext ← string (get content "ciphertext") "Vault malformed: missing content.ciphertext"
  return {
    schema, version := common.version, created_at := common.created_at, mode := common.mode,
    kdf := common.kdf, wrap := ⟨AEAD_ALG, wrapNonce, wrapped_key⟩,
    content := ⟨AEAD_ALG, contentNonce, ciphertext⟩ }

/-! ## Decryption -/

def lengthError (d : Decoded) : Option JsString :=
  if d.salt.length ≠ SALT_BYTES then some (js "Vault malformed: salt length")
  else if d.wrapNonce.length ≠ NONCE_BYTES then some (js "Vault malformed: wrap nonce length")
  else if d.contentNonce.length ≠ NONCE_BYTES then some (js "Vault malformed: content nonce length")
  else if d.wrappedKey.length ≠ KEY_BYTES + 16 then
    some (js ("Vault malformed: wrapped_key length (got " ++ toString d.wrappedKey.length ++ ")"))
  else if d.contentCt.length = 0 then some (js "Vault malformed: empty ciphertext")
  else if d.contentCt.length > MAX_CIPHERTEXT_BYTES then some (js "Vault too large (max 1024 KiB)")
  else none

def decodeFields (vault : Vault) : Except JsString Decoded := do
  let salt ← b64urlDecode vault.kdf.salt
  let wrapNonce ← b64urlDecode vault.wrap.nonce
  let wrappedKey ← b64urlDecode vault.wrap.wrapped_key
  let contentNonce ← b64urlDecode vault.content.nonce
  let contentCt ← b64urlDecode vault.content.ciphertext
  let d : Decoded := { salt, wrapNonce, wrappedKey, contentNonce, contentCt }
  match lengthError d with
  | some e => throw e
  | none => return d

def unlock (aead : Aead) (aad : Bytes) (d : Decoded) (wrapKey : Bytes) : Except JsString Bytes :=
  match aead.decrypt wrapKey d.wrapNonce aad d.wrappedKey with
  | none => .error (js "Could not decrypt: wrong phrase or tampered vault")
  | some vaultKey =>
    if vaultKey.length ≠ KEY_BYTES then
      .error (js "Vault malformed: unwrapped vault_key is not 32 bytes")
    else
      match aead.decrypt vaultKey d.contentNonce aad d.contentCt with
      | none => .error (js "Could not decrypt: vault content was tampered with")
      | some plaintextBytes => .ok plaintextBytes

def decryptVaultV2 (sodium : Sodium) (vault : Js.Value) (password : JsString) :
    Except JsString JsString := do
  let vault ← validateVaultSchemaV2 vault
  if password = [] then throw (js "Type the phrase")
  let d ← decodeFields vault
  let wrapKey ← sodium.crypto_pwhash KEY_BYTES (utf8 password) d.salt vault.kdf.opslimit
    vault.kdf.memlimit
  let plaintextBytes ← unlock sodium.aead (buildAADV2 vault) d wrapKey
  match fromUtf8 plaintextBytes with
  | none => throw (js "Decrypted bytes are not valid UTF-8 (vault may be corrupted)")
  | some text => return text

end Qev.Ui
