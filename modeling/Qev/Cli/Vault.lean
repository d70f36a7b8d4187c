import Qev.Cli.Canonical
import Qev.Lib.Aead
import Qev.Lib.Except

/-! `vault.js`: V2 vaults. -/

namespace Qev.Cli

open Js (JsString js)

def SCHEMA_V2 : JsString := js "BRY-NFET-SX-VAULT-V2"
def VERSION : JsString := js "0.30.0"
def KDF_ALG : JsString := js "argon2id"
def AEAD_ALG : JsString := js "XChaCha20-Poly1305"

def DEFAULT_OPSLIMIT : Nat := 4
def DEFAULT_MEMLIMIT : Nat := 96 * 1024 * 1024
def MIN_OPSLIMIT : Nat := 1
def MAX_OPSLIMIT : Nat := 10
def MIN_MEMLIMIT : Nat := 8 * 1024 * 1024
def MAX_MEMLIMIT : Nat := 256 * 1024 * 1024

def SALT_BYTES : Nat := 16
def NONCE_BYTES : Nat := 24
def KEY_BYTES : Nat := 32
def TAG_BYTES : Nat := 16

def MAX_PLAINTEXT_BYTES : Nat := 256 * 1024
def MAX_CIPHERTEXT_BYTES : Nat := 1024 * 1024

/-- libsodium: Argon2id, which may throw, and XChaCha20-Poly1305. -/
structure Sodium where
  crypto_pwhash : (keyLength : Nat) → (password salt : Bytes) → (opslimit memlimit : Double) →
    Except JsString Bytes
  aead : Aead

/-! ## Validation -/

def get (v : Js.Value) (name : String) : Option Js.Value := Json.get (js name) v

/-- A value of type object, other than null. -/
def object (v : Option Js.Value) (missing : String) : Except JsString Js.Value :=
  match v with
  | some (.obj fields) => .ok (.obj fields)
  | some (.arr items) => .ok (.arr items)
  | _ => .error (js missing)

def string (v : Option Js.Value) (missing : String) : Except JsString JsString :=
  match v with
  | some (.str s) => .ok s
  | _ => .error (js missing)

def nonEmptyString (v : Option Js.Value) (missing : String) : Except JsString JsString := do
  let s ← string v missing
  if s = [] then throw (js missing)
  return s

def displayed : Option Js.Value → JsString
  | some v => Js.display v
  | none => js "undefined"

/-- The string `expected`; `unsupported` is the error with what stands there. -/
def constant (v : Option Js.Value) (expected : JsString) (unsupported : JsString → JsString) :
    Except JsString JsString :=
  match v with
  | some (.str s) => if s = expected then .ok s else .error (unsupported s)
  | _ => .error (unsupported (displayed v))

def outOfRange (x : Double) (min max : Nat) : Prop := x.lt min ∨ x.gt max

instance (x : Double) (min max : Nat) : Decidable (outOfRange x min max) :=
  inferInstanceAs (Decidable (_ ∨ _))

def numberIn (v : Option Js.Value) (min max : Nat) (message : String) : Except JsString Double :=
  match v with
  | some (.num x) => if outOfRange x min max then .error (js message) else .ok x
  | _ => .error (js message)

def enforceKdfCaps (kdf : Option Js.Value) : Except JsString Kdf := do
  let kdf ← object kdf "Vault malformed: missing kdf section"
  let algorithm ← constant (get kdf "algorithm") KDF_ALG (js "Unsupported KDF algorithm: " ++ ·)
  let opslimit ← numberIn (get kdf "opslimit") MIN_OPSLIMIT MAX_OPSLIMIT
    "KDF opslimit out of range (1-10)"
  let memlimit ← numberIn (get kdf "memlimit") MIN_MEMLIMIT MAX_MEMLIMIT
    "KDF memlimit out of range (8-256 MiB)"
  let salt ← nonEmptyString (get kdf "salt") "Vault malformed: missing or invalid kdf.salt"
  return { algorithm, opslimit, memlimit, salt }

def modeOf (v : Option Js.Value) : Except JsString JsString :=
  match v with
  | some (.str mode) =>
    if mode = js "self" ∨ mode = js "share" then .ok mode
    else .error (js "Vault malformed: mode must be 'self' or 'share'")
  | _ => .error (js "Vault malformed: mode must be 'self' or 'share'")

def wrapOf (wrap : Option Js.Value) : Except JsString Wrap := do
  let wrap ← object wrap "Vault malformed: missing wrap section"
  let algorithm ← constant (get wrap "algorithm") AEAD_ALG
    (js "Unsupported wrap AEAD algorithm: " ++ ·)
  let nonce ← nonEmptyString (get wrap "nonce") "Vault malformed: missing wrap.nonce"
  let wrapped_key ← nonEmptyString (get wrap "wrapped_key")
    "Vault malformed: missing wrap.wrapped_key"
  return { algorithm, nonce, wrapped_key }

def contentOf (content : Option Js.Value) : Except JsString Content := do
  let content ← object content "Vault malformed: missing content section"
  let algorithm ← constant (get content "algorithm") AEAD_ALG
    (js "Unsupported content AEAD algorithm: " ++ ·)
  let nonce ← nonEmptyString (get content "nonce") "Vault malformed: missing content.nonce"
  let ciphertext ← nonEmptyString (get content "ciphertext")
    "Vault malformed: missing content.ciphertext"
  return { algorithm, nonce, ciphertext }

/-- The checks, with the fields that they read. -/
def validateVaultSchemaV2 (vault : Js.Value) : Except JsString Vault := do
  let vault ← object (some vault) "Vault malformed: not an object"
  let schema ← constant (get vault "schema") SCHEMA_V2 fun found =>
    js "Unsupported vault schema: \"" ++ found ++ js "\" (expected " ++ SCHEMA_V2 ++ js ")"
  let version ← string (get vault "version") "Vault malformed: missing version"
  let created_at ← string (get vault "created_at") "Vault malformed: missing created_at"
  let mode ← modeOf (get vault "mode")
  let kdf ← enforceKdfCaps (get vault "kdf")
  let wrap ← wrapOf (get vault "wrap")
  let content ← contentOf (get vault "content")
  return { schema, version, created_at, mode, kdf, wrap, content }

structure Vault.Valid (v : Vault) : Prop where
  schema : v.schema = SCHEMA_V2
  mode : v.mode = js "self" ∨ v.mode = js "share"
  kdf_algorithm : v.kdf.algorithm = KDF_ALG
  opslimit : ¬ outOfRange v.kdf.opslimit MIN_OPSLIMIT MAX_OPSLIMIT
  memlimit : ¬ outOfRange v.kdf.memlimit MIN_MEMLIMIT MAX_MEMLIMIT
  salt : v.kdf.salt ≠ []
  wrap_algorithm : v.wrap.algorithm = AEAD_ALG
  wrap_nonce : v.wrap.nonce ≠ []
  wrapped_key : v.wrap.wrapped_key ≠ []
  content_algorithm : v.content.algorithm = AEAD_ALG
  content_nonce : v.content.nonce ≠ []
  ciphertext : v.content.ciphertext ≠ []

section Checks

variable {v : Option Js.Value} {s : JsString} {x : Double} {message : String}

theorem string_iff : string v message = .ok s ↔ v = some (.str s) := by
  unfold string
  split
  · simp
  · rename_i other
    simp only [reduceCtorEq, false_iff]
    exact other s

theorem nonEmptyString_iff : nonEmptyString v message = .ok s ↔ v = some (.str s) ∧ s ≠ [] := by
  rw [nonEmptyString, bind_eq_ok]
  constructor
  · rintro ⟨found, read, h⟩
    by_cases empty : found = []
    · rw [if_pos empty] at h
      cases h
    · rw [if_neg empty] at h
      cases h
      exact ⟨string_iff.mp read, empty⟩
  · rintro ⟨read, nonempty⟩
    exact ⟨s, string_iff.mpr read, by rw [if_neg nonempty]; rfl⟩

/-- A test of a text, whatever the errors are. -/
theorem tested_iff {P : JsString → Prop} [DecidablePred P] {failed : JsString → JsString}
    {missing : JsString} :
    (match (motive := Option Js.Value → Except JsString JsString) v with
      | some (.str s) => if P s then .ok s else .error (failed s)
      | _ => .error missing) = .ok s ↔ v = some (.str s) ∧ P s := by
  split
  · rename_i found
    by_cases passed : P found
    · rw [if_pos passed, Except.ok.injEq, Option.some.injEq, Json.str.injEq]
      constructor
      · rintro rfl
        exact ⟨rfl, passed⟩
      · rintro ⟨rfl, -⟩
        rfl
    · rw [if_neg passed]
      apply iff_of_false nofun
      rintro ⟨same, passed'⟩
      cases same
      exact passed passed'
  · rename_i other
    exact iff_of_false nofun fun h => other s h.1

theorem constant_iff {expected : JsString} {unsupported : JsString → JsString} :
    constant v expected unsupported = .ok s ↔ v = some (.str s) ∧ s = expected :=
  tested_iff

theorem numberIn_iff {min max : Nat} :
    numberIn v min max message = .ok x ↔ v = some (.num x) ∧ ¬ outOfRange x min max := by
  unfold numberIn
  split
  · rename_i found
    split
    · rename_i out
      simp only [reduceCtorEq, Option.some.injEq, Json.num.injEq, false_iff, not_and, not_not]
      rintro rfl
      exact out
    · rename_i within
      simp only [Except.ok.injEq, Option.some.injEq, Json.num.injEq, iff_self_and]
      rintro rfl
      exact within
  · rename_i other
    simp only [reduceCtorEq, false_iff, not_and]
    exact fun found => absurd found (other x)

theorem modeOf_iff :
    modeOf v = .ok s ↔ v = some (.str s) ∧ (s = js "self" ∨ s = js "share") :=
  tested_iff

end Checks

/-- What validation accepts is valid. -/
theorem valid_of_validate {value : Js.Value} {v : Vault}
    (h : validateVaultSchemaV2 value = .ok v) : v.Valid := by
  obtain ⟨vault, -, h⟩ := bind_eq_ok.mp h
  obtain ⟨schema, schema_ok, h⟩ := bind_eq_ok.mp h
  obtain ⟨version, -, h⟩ := bind_eq_ok.mp h
  obtain ⟨created_at, -, h⟩ := bind_eq_ok.mp h
  obtain ⟨mode, mode_ok, h⟩ := bind_eq_ok.mp h
  obtain ⟨kdf, kdf_ok, h⟩ := bind_eq_ok.mp h
  obtain ⟨wrap, wrap_ok, h⟩ := bind_eq_ok.mp h
  obtain ⟨content, content_ok, h⟩ := bind_eq_ok.mp h
  cases h
  obtain ⟨_, _, kdf_ok⟩ := bind_eq_ok.mp kdf_ok
  obtain ⟨kdf_algorithm, kdf_algorithm_ok, kdf_ok⟩ := bind_eq_ok.mp kdf_ok
  obtain ⟨opslimit, opslimit_ok, kdf_ok⟩ := bind_eq_ok.mp kdf_ok
  obtain ⟨memlimit, memlimit_ok, kdf_ok⟩ := bind_eq_ok.mp kdf_ok
  obtain ⟨salt, salt_ok, kdf_ok⟩ := bind_eq_ok.mp kdf_ok
  cases kdf_ok
  obtain ⟨_, _, wrap_ok⟩ := bind_eq_ok.mp wrap_ok
  obtain ⟨wrap_algorithm, wrap_algorithm_ok, wrap_ok⟩ := bind_eq_ok.mp wrap_ok
  obtain ⟨wrap_nonce, wrap_nonce_ok, wrap_ok⟩ := bind_eq_ok.mp wrap_ok
  obtain ⟨wrapped_key, wrapped_key_ok, wrap_ok⟩ := bind_eq_ok.mp wrap_ok
  cases wrap_ok
  obtain ⟨_, _, content_ok⟩ := bind_eq_ok.mp content_ok
  obtain ⟨content_algorithm, content_algorithm_ok, content_ok⟩ := bind_eq_ok.mp content_ok
  obtain ⟨content_nonce, content_nonce_ok, content_ok⟩ := bind_eq_ok.mp content_ok
  obtain ⟨ciphertext, ciphertext_ok, content_ok⟩ := bind_eq_ok.mp content_ok
  cases content_ok
  exact {
    schema := (constant_iff.mp schema_ok).2
    mode := (modeOf_iff.mp mode_ok).2
    kdf_algorithm := (constant_iff.mp kdf_algorithm_ok).2
    opslimit := (numberIn_iff.mp opslimit_ok).2
    memlimit := (numberIn_iff.mp memlimit_ok).2
    salt := (nonEmptyString_iff.mp salt_ok).2
    wrap_algorithm := (constant_iff.mp wrap_algorithm_ok).2
    wrap_nonce := (nonEmptyString_iff.mp wrap_nonce_ok).2
    wrapped_key := (nonEmptyString_iff.mp wrapped_key_ok).2
    content_algorithm := (constant_iff.mp content_algorithm_ok).2
    content_nonce := (nonEmptyString_iff.mp content_nonce_ok).2
    ciphertext := (nonEmptyString_iff.mp ciphertext_ok).2 }

/-! ## Encryption -/

inductive Plaintext where
  | text (s : JsString)
  | bytes (b : Bytes)

/-- The options of `encryptVaultV2`; those that are `none` are not given. -/
structure EncryptOptions where
  plaintext : Plaintext
  password : JsString
  mode : Option JsString
  opslimit : Option Double
  memlimit : Option Double
  salt : Option Bytes
  wrapNonce : Option Bytes
  contentNonce : Option Bytes
  vaultKey : Option Bytes
  createdAt : Option JsString
  version : Option JsString

/-- What the random source and the clock give. -/
structure Draw where
  salt : FixedBytes SALT_BYTES
  wrapNonce : FixedBytes NONCE_BYTES
  contentNonce : FixedBytes NONCE_BYTES
  vaultKey : FixedBytes KEY_BYTES
  now : JsString

/-- `given || default` at a string. -/
def stringOr (given : Option JsString) (default : JsString) : JsString :=
  match given with
  | some s => if s = [] then default else s
  | none => default

/-- `given || default` at a number. -/
def numberOr (given : Option Double) (default : Nat) : Double :=
  match given with
  | some x => if Js.falsy x then .ofNat default else x
  | none => .ofNat default

def plaintextBytes : Plaintext → Bytes
  | .text s => utf8 s
  | .bytes b => b

/-- Options that passed every check, with the defaults filled in. -/
structure Settings where
  password : JsString
  mode : JsString
  opslimit : Double
  memlimit : Double
  ptBytes : Bytes
  salt : FixedBytes SALT_BYTES
  wrapNonce : FixedBytes NONCE_BYTES
  contentNonce : FixedBytes NONCE_BYTES
  vaultKey : FixedBytes KEY_BYTES
  version : JsString
  created_at : JsString
  password_nonempty : password ≠ []
  mode_known : mode = js "self" ∨ mode = js "share"
  opslimit_in : ¬ outOfRange opslimit MIN_OPSLIMIT MAX_OPSLIMIT
  memlimit_in : ¬ outOfRange memlimit MIN_MEMLIMIT MAX_MEMLIMIT
  ptBytes_nonempty : ptBytes.length ≠ 0
  ptBytes_small : ptBytes.length ≤ MAX_PLAINTEXT_BYTES

/-- `given`, or what was drawn, where it has the right length. -/
def bytesOr {n : Nat} (given : Option Bytes) (drawn : FixedBytes n) (invalid : String) :
    Except JsString (FixedBytes n) :=
  match given with
  | none => .ok drawn
  | some bytes => if h : bytes.length = n then .ok ⟨bytes, h⟩ else .error (js invalid)

def settings (opts : EncryptOptions) (draw : Draw) : Except JsString Settings :=
  let mode := stringOr opts.mode (js "self")
  let opslimit := numberOr opts.opslimit DEFAULT_OPSLIMIT
  let memlimit := numberOr opts.memlimit DEFAULT_MEMLIMIT
  let ptBytes := plaintextBytes opts.plaintext
  if password_nonempty : opts.password = [] then
    .error (js "encryptVaultV2: password must be a non-empty string")
  else if mode_known : ¬ (mode = js "self" ∨ mode = js "share") then
    .error (js "encryptVaultV2: mode must be 'self' or 'share'")
  else if opslimit_in : outOfRange opslimit MIN_OPSLIMIT MAX_OPSLIMIT then
    .error (js "opslimit out of range")
  else if memlimit_in : outOfRange memlimit MIN_MEMLIMIT MAX_MEMLIMIT then
    .error (js "memlimit out of range")
  else if ptBytes_nonempty : ptBytes.length = 0 then
    .error (js "encryptVaultV2: plaintext is empty")
  else if ptBytes_small : ptBytes.length > MAX_PLAINTEXT_BYTES then
    .error (js "plaintext too large (max 256 KiB)")
  else do
    let salt ← bytesOr opts.salt draw.salt "invalid salt (must be 16 bytes)"
    let wrapNonce ← bytesOr opts.wrapNonce draw.wrapNonce "invalid wrap nonce (must be 24 bytes)"
    let contentNonce ← bytesOr opts.contentNonce draw.contentNonce
      "invalid content nonce (must be 24 bytes)"
    let vaultKey ← bytesOr opts.vaultKey draw.vaultKey "invalid vault_key (must be 32 bytes)"
    let version := stringOr opts.version VERSION
    let created_at := stringOr opts.createdAt draw.now
    return { password := opts.password, mode, opslimit, memlimit, ptBytes, salt, wrapNonce,
             contentNonce, vaultKey, version, created_at, password_nonempty,
             mode_known := not_not.mp mode_known, opslimit_in, memlimit_in, ptBytes_nonempty,
             ptBytes_small := Nat.not_lt.mp ptBytes_small }

/-- The vault before anything is encrypted. -/
def Settings.skeleton (s : Settings) : Vault where
  schema := SCHEMA_V2
  version := s.version
  created_at := s.created_at
  mode := s.mode
  kdf := ⟨KDF_ALG, s.opslimit, s.memlimit, b64urlEncode s.salt.val⟩
  wrap := ⟨AEAD_ALG, b64urlEncode s.wrapNonce.val, []⟩
  content := ⟨AEAD_ALG, b64urlEncode s.contentNonce.val, []⟩

/-- The vault with the key and the plaintext encrypted, given the key that the
password is stretched to. -/
def Settings.lock (s : Settings) (aead : Aead) (wrapKey : Bytes) : Vault :=
  let vault := s.skeleton
  let aad := buildAADV2 vault
  let wrappedKey := aead.encrypt wrapKey s.wrapNonce.val aad s.vaultKey.val
  let contentCt := aead.encrypt s.vaultKey.val s.contentNonce.val aad s.ptBytes
  { vault with
    wrap := { vault.wrap with wrapped_key := b64urlEncode wrappedKey }
    content := { vault.content with ciphertext := b64urlEncode contentCt } }

/-- The vault as an object. -/
def Vault.toValue (v : Vault) : Js.Value :=
  .obj [
    (js "schema", .str v.schema),
    (js "version", .str v.version),
    (js "created_at", .str v.created_at),
    (js "mode", .str v.mode),
    (js "kdf", .obj [
      (js "algorithm", .str v.kdf.algorithm),
      (js "opslimit", .num v.kdf.opslimit),
      (js "memlimit", .num v.kdf.memlimit),
      (js "salt", .str v.kdf.salt)]),
    (js "wrap", .obj [
      (js "algorithm", .str v.wrap.algorithm),
      (js "nonce", .str v.wrap.nonce),
      (js "wrapped_key", .str v.wrap.wrapped_key)]),
    (js "content", .obj [
      (js "algorithm", .str v.content.algorithm),
      (js "nonce", .str v.content.nonce),
      (js "ciphertext", .str v.content.ciphertext)])]

@[simp] theorem get_obj_self (name : String) (v : Js.Value) (fields : List (JsString × Js.Value)) :
    get (.obj ((js name, v) :: fields)) name = some v := by
  simp [get, Json.get]

@[simp] theorem get_obj_other {name other : String} (h : other ≠ name) (v : Js.Value)
    (fields : List (JsString × Js.Value)) :
    get (.obj ((js other, v) :: fields)) name = get (.obj fields) name := by
  simp [get, Json.get, h]

theorem nonEmptyString_str {s : JsString} (h : s ≠ []) (missing : String) :
    nonEmptyString (some (.str s)) missing = .ok s := by
  rw [nonEmptyString, string, ok_bind, if_neg h]
  rfl

theorem constant_str {s expected : JsString} (h : s = expected)
    (unsupported : JsString → JsString) :
    constant (some (.str s)) expected unsupported = .ok s :=
  if_pos h

theorem numberIn_num {x : Double} {min max : Nat} (h : ¬ outOfRange x min max) (message : String) :
    numberIn (some (.num x)) min max message = .ok x :=
  if_neg h

/-- A valid vault passes validation as an object. -/
theorem validate_toValue {v : Vault} (h : v.Valid) : validateVaultSchemaV2 v.toValue = .ok v := by
  have mode : modeOf (some (.str v.mode)) = .ok v.mode := if_pos h.mode
  have kdf : enforceKdfCaps (get v.toValue "kdf") = .ok v.kdf := by
    simp [Vault.toValue, enforceKdfCaps, object, constant_str h.kdf_algorithm,
      numberIn_num h.opslimit, numberIn_num h.memlimit, nonEmptyString_str h.salt]
  have wrap : wrapOf (get v.toValue "wrap") = .ok v.wrap := by
    simp [Vault.toValue, wrapOf, object, constant_str h.wrap_algorithm,
      nonEmptyString_str h.wrap_nonce, nonEmptyString_str h.wrapped_key]
  have content : contentOf (get v.toValue "content") = .ok v.content := by
    simp [Vault.toValue, contentOf, object, constant_str h.content_algorithm,
      nonEmptyString_str h.content_nonce, nonEmptyString_str h.ciphertext]
  have whole : object (some v.toValue) "Vault malformed: not an object" = .ok v.toValue := rfl
  rw [validateVaultSchemaV2, whole, ok_bind]
  simp only [kdf, wrap, content, ok_bind]
  simp [Vault.toValue, string, constant_str h.schema, mode]

def encryptVaultV2 (sodium : Sodium) (opts : EncryptOptions) (draw : Draw) :
    Except JsString Js.Value := do
  let s ← settings opts draw
  let wrapKey ← sodium.crypto_pwhash KEY_BYTES (utf8 s.password) s.salt.val s.opslimit s.memlimit
  return (s.lock sodium.aead wrapKey).toValue

/-! ## Decryption -/

/-- The bytes of a vault's fields. -/
structure Decoded where
  salt : Bytes
  wrapNonce : Bytes
  wrappedKey : Bytes
  contentNonce : Bytes
  contentCt : Bytes

/-- The error for the first field that has a wrong length. -/
def lengthError (d : Decoded) : Option JsString :=
  if d.salt.length ≠ SALT_BYTES then some (js "Vault malformed: salt length")
  else if d.wrapNonce.length ≠ NONCE_BYTES then some (js "Vault malformed: wrap nonce length")
  else if d.contentNonce.length ≠ NONCE_BYTES then some (js "Vault malformed: content nonce length")
  else if d.wrappedKey.length ≠ KEY_BYTES + TAG_BYTES then
    some (js ("Vault malformed: wrapped_key length (got " ++ toString d.wrappedKey.length ++
      ", expected 48)"))
  else if d.contentCt.length = 0 then some (js "Vault malformed: empty ciphertext")
  else if d.contentCt.length > MAX_CIPHERTEXT_BYTES then some (js "Vault too large (max 1024 KiB)")
  else none

def decodeFields (vault : Vault) : Except JsString Decoded := do
  let salt ← b64urlDecode vault.kdf.salt
  let wrapNonce ← b64urlDecode vault.wrap.nonce
  let wrappedKey ← b64urlDecode vault.wrap.wrapped_key
  let contentNonce ← b64urlDecode vault.content.nonce
  let contentCt ← b64urlDecode vault.content.ciphertext
  let d : Decoded := { salt, wrapNonce, wrappedKey, contentNonce, contentCt }
  match lengthError d with
  | some e => throw e
  | none => return d

/-- The two decryptions, under the key that the password is stretched to. -/
def unlock (aead : Aead) (aad : Bytes) (d : Decoded) (wrapKey : Bytes) : Except JsString Bytes :=
  match aead.decrypt wrapKey d.wrapNonce aad d.wrappedKey with
  | none => .error (js "Could not decrypt: wrong phrase or tampered vault")
  | some vaultKey =>
    if vaultKey.length ≠ KEY_BYTES then
      .error (js "Vault malformed: unwrapped vault_key is not 32 bytes")
    else
      match aead.decrypt vaultKey d.contentNonce aad d.contentCt with
      | none =>
        .error (js "Could not decrypt: vault content has been tampered with (wrap was valid)")
      | some plaintextBytes => .ok plaintextBytes

def readPlaintext (plaintextBytes : Bytes) : Except JsString JsString :=
  match fromUtf8 plaintextBytes with
  | none => .error (js "Decrypted bytes are not valid UTF-8 (vault may be corrupted)")
  | some text => .ok text

def decryptVaultV2 (sodium : Sodium) (vault : Js.Value) (password : JsString) :
    Except JsString JsString := do
  let vault ← validateVaultSchemaV2 vault
  if password = [] then throw (js "decryptVaultV2: password must be a non-empty string")
  let d ← decodeFields vault
  let wrapKey ← sodium.crypto_pwhash KEY_BYTES (utf8 password) d.salt vault.kdf.opslimit
    vault.kdf.memlimit
  let plaintextBytes ← unlock sodium.aead (buildAADV2 vault) d wrapKey
  readPlaintext plaintextBytes

end Qev.Cli
