import Qev.Cli.Vault

/-! `decryptVaultV2` of the web lock (`qev.ts`). Its constants, its `utf8` and
`fromUtf8` and `canonicalJSON` are those of the command line word for word. The
texts of the errors that the engine throws are its own. -/

namespace Qev.Web

open Js (JsString js)
open Cli (AEAD_ALG Decoded KDF_ALG KEY_BYTES MAX_CIPHERTEXT_BYTES NONCE_BYTES SALT_BYTES SCHEMA_V2
  Sodium TAG_BYTES b64urlChars canonicalJSON displayed fromUtf8 get isB64url utf8)

/-! ## Base64url -/

/-- One character of padding off the end. -/
def dropPadding (data : JsString) : JsString :=
  if data.getLast? = some (Js.ascii '=') then data.dropLast else data

/-- `atob`, in the URL-safe alphabet, of text without white space. -/
def atob (data : JsString) : Option Bytes :=
  let data := if data.length % 4 = 0 then dropPadding (dropPadding data) else data
  if data.length % 4 = 1 then none else (b64urlChars data).bind Base64.decode

/-- `/^[A-Za-z0-9_-]*=*$/`. -/
def allowed (s : JsString) : Bool := (s.rdropWhile (· = Js.ascii '=')).all isB64url

def padded (s : JsString) : JsString :=
  if s.length % 4 = 0 then s else s ++ List.replicate (4 - s.length % 4) (Js.ascii '=')

/-- The value is tested as text, and what is no text has no `replaceAll`. -/
def b64urlDecode (value : Js.Value) : Except JsString Bytes :=
  if ¬ allowed (Js.display value) then .error (js "base64url: invalid character")
  else
    match value with
    | .str s =>
      match atob (padded s) with
      | none => .error (js "The string to be decoded is not correctly encoded.")
      | some bytes => .ok bytes
    | _ => .error (js "value.replaceAll is not a function")

/-! ## Validation -/

/-- What is read of a vault that passed validation. -/
structure Checked where
  version : JsString
  created_at : JsString
  mode : JsString
  opslimit : Option Js.Value
  memlimit : Option Js.Value
  salt : Js.Value
  wrapNonce : Js.Value
  wrapped_key : Js.Value
  contentNonce : Js.Value
  ciphertext : Js.Value

def constant (v : Option Js.Value) (expected : JsString) (error : JsString) :
    Except JsString Unit :=
  match v with
  | some (.str s) => if s = expected then .ok () else .error error
  | _ => .error error

def string (v : Option Js.Value) (missing : String) : Except JsString JsString :=
  match v with
  | some (.str s) => .ok s
  | _ => .error (js missing)

def modeOf (v : Option Js.Value) : Except JsString JsString :=
  match v with
  | some (.str mode) =>
    if mode = js "self" ∨ mode = js "share" then .ok mode
    else .error (js "Vault malformed: mode must be self or share")
  | _ => .error (js "Vault malformed: mode must be self or share")

/-- A part of the vault that is truthy and has this algorithm. -/
def partOf (part : Option Js.Value) (algorithm : JsString) (unsupported : String) :
    Except JsString Js.Value :=
  match part with
  | some v =>
    if Js.truthy (some v) then do
      constant (get v "algorithm") algorithm (js unsupported)
      return v
    else .error (js unsupported)
  | none => .error (js unsupported)

def required (v : Option Js.Value) : Except JsString Js.Value :=
  match v with
  | some v =>
    if Js.truthy (some v) then .ok v else .error (js "Vault malformed: missing required field")
  | none => .error (js "Vault malformed: missing required field")

def validateVaultSchemaV2 (vault : Js.Value) : Except JsString Checked := do
  let vault ← Cli.object (some vault) "Vault malformed: not an object"
  constant (get vault "schema") SCHEMA_V2
    (js "Unsupported vault schema: " ++ displayed (get vault "schema"))
  let version ← string (get vault "version") "Vault malformed: missing version"
  let created_at ← string (get vault "created_at") "Vault malformed: missing created_at"
  let mode ← modeOf (get vault "mode")
  let kdf ← partOf (get vault "kdf") KDF_ALG "Vault malformed: unsupported kdf"
  let wrap ← partOf (get vault "wrap") AEAD_ALG "Vault malformed: unsupported wrap algorithm"
  let content ← partOf (get vault "content") AEAD_ALG
    "Vault malformed: unsupported content algorithm"
  let salt ← required (get kdf "salt")
  let wrapNonce ← required (get wrap "nonce")
  let wrapped_key ← required (get wrap "wrapped_key")
  let contentNonce ← required (get content "nonce")
  let ciphertext ← required (get content "ciphertext")
  return { version, created_at, mode, opslimit := get kdf "opslimit",
           memlimit := get kdf "memlimit", salt, wrapNonce, wrapped_key, contentNonce, ciphertext }

/-! ## Decryption -/

def aadObj (vault : Checked) (opslimit memlimit : Double) : Js.Value :=
  .obj [
    (js "content", .obj [
      (js "algorithm", .str AEAD_ALG),
      (js "nonce", vault.contentNonce)]),
    (js "created_at", .str vault.created_at),
    (js "kdf", .obj [
      (js "algorithm", .str KDF_ALG),
      (js "memlimit", .num memlimit),
      (js "opslimit", .num opslimit),
      (js "salt", vault.salt)]),
    (js "mode", .str vault.mode),
    (js "schema", .str SCHEMA_V2),
    (js "version", .str vault.version),
    (js "wrap", .obj [
      (js "algorithm", .str AEAD_ALG),
      (js "nonce", vault.wrapNonce)])]

def buildAADV2 (vault : Checked) (opslimit memlimit : Double) : Bytes :=
  utf8 (canonicalJSON (aadObj vault opslimit memlimit))

def lengthError (d : Decoded) : Option JsString :=
  if d.salt.length ≠ SALT_BYTES then some (js "Vault malformed: salt length")
  else if d.wrapNonce.length ≠ NONCE_BYTES then some (js "Vault malformed: wrap nonce length")
  else if d.contentNonce.length ≠ NONCE_BYTES then some (js "Vault malformed: content nonce length")
  else if d.wrappedKey.length ≠ KEY_BYTES + TAG_BYTES then
    some (js "Vault malformed: wrapped key length")
  else if d.contentCt.length = 0 then some (js "Vault malformed: empty ciphertext")
  else if d.contentCt.length > MAX_CIPHERTEXT_BYTES then some (js "Vault too large")
  else none

def decodeFields (vault : Checked) : Except JsString Decoded := do
  let salt ← b64urlDecode vault.salt
  let wrapNonce ← b64urlDecode vault.wrapNonce
  let wrappedKey ← b64urlDecode vault.wrapped_key
  let contentNonce ← b64urlDecode vault.contentNonce
  let contentCt ← b64urlDecode vault.ciphertext
  let d : Decoded := { salt, wrapNonce, wrappedKey, contentNonce, contentCt }
  match lengthError d with
  | some e => throw e
  | none => return d

/-- A limit as `crypto_pwhash` takes it; it checks the number itself. -/
def limit (v : Option Js.Value) (name : String) : Except JsString Double :=
  match v with
  | none | some .null => .error (js (name ++ " cannot be null or undefined"))
  | some (.num x) => .ok x
  | some _ => .error (js (name ++ " must be an unsigned integer"))

def unlock (aead : Aead) (aad : Bytes) (d : Decoded) (wrapKey : Bytes) : Except JsString Bytes :=
  match aead.decrypt wrapKey d.wrapNonce aad d.wrappedKey with
  | none => .error (js "Could not decrypt: wrong phrase or tampered vault")
  | some vaultKey =>
    match aead.decrypt vaultKey d.contentNonce aad d.contentCt with
    | none => .error (js "Could not decrypt: vault content has been tampered with")
    | some plaintextBytes => .ok plaintextBytes

def decryptVaultV2 (sodium : Sodium) (vault : Js.Value) (password : JsString) :
    Except JsString JsString := do
  let vault ← validateVaultSchemaV2 vault
  if password = [] then throw (js "password is required")
  let d ← decodeFields vault
  let opslimit ← limit vault.opslimit "opsLimit"
  let memlimit ← limit vault.memlimit "memLimit"
  let wrapKey ← sodium.crypto_pwhash KEY_BYTES (utf8 password) d.salt opslimit memlimit
  let plaintextBytes ← unlock sodium.aead (buildAADV2 vault opslimit memlimit) d wrapKey
  match fromUtf8 plaintextBytes with
  | none => throw (js "The encoded data was not valid for encoding utf-8")
  | some text => return text

end Qev.Web
