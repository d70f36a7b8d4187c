import Qev.Cli.CanonicalForm
import Qev.Ui.Encrypt
import Qev.Web.Agreement

/-! Vaults of the first schema (`chat.js`), which encrypt the plaintext under the
phrase's key itself, and the dispatch between the two schemas. -/

namespace Qev.Ui

open Js (JsString js)
open Cli (AEAD_ALG Content DEFAULT_MEMLIMIT DEFAULT_OPSLIMIT KDF_ALG KEY_BYTES Kdf
  MAX_CIPHERTEXT_BYTES MAX_MEMLIMIT MAX_OPSLIMIT MAX_PLAINTEXT_BYTES MIN_MEMLIMIT MIN_OPSLIMIT
  NONCE_BYTES SALT_BYTES SCHEMA_V2 Sodium Vault bytesOr canonicalJSON constant displayed fromUtf8
  get numberOr object outOfRange string utf8)

def SCHEMA_V1 : JsString := js "BRY-NFET-SX-VAULT-V1"

structure VaultV1 where
  schema : JsString
  version : JsString
  created_at : JsString
  mode : JsString
  kdf : Kdf
  aead : Content
  deriving DecidableEq

def VaultV1.toValue (v : VaultV1) : Js.Value :=
  .obj [
    (js "schema", .str v.schema),
    (js "version", .str v.version),
    (js "created_at", .str v.created_at),
    (js "mode", .str v.mode),
    (js "kdf", .obj [
      (js "algorithm", .str v.kdf.algorithm),
      (js "opslimit", .num v.kdf.opslimit),
      (js "memlimit", .num v.kdf.memlimit),
      (js "salt", .str v.kdf.salt)]),
    (js "aead", .obj [
      (js "algorithm", .str v.aead.algorithm),
      (js "nonce", .str v.aead.nonce),
      (js "ciphertext", .str v.aead.ciphertext)])]

def aadObjV1 (vault : VaultV1) : Js.Value :=
  .obj [
    (js "aead", .obj [
      (js "algorithm", .str vault.aead.algorithm),
      (js "nonce", .str vault.aead.nonce)]),
    (js "created_at", .str vault.created_at),
    (js "kdf", .obj [
      (js "algorithm", .str vault.kdf.algorithm),
      (js "memlimit", .num vault.kdf.memlimit),
      (js "opslimit", .num vault.kdf.opslimit),
      (js "salt", .str vault.kdf.salt)]),
    (js "mode", .str vault.mode),
    (js "schema", .str vault.schema),
    (js "version", .str vault.version)]

def buildAADV1 (vault : VaultV1) : Bytes := utf8 (canonicalJSON (aadObjV1 vault))

def validateVaultSchemaV1 (vault : Js.Value) : Except JsString VaultV1 := do
  let common ← validateCommonVaultFields vault
  let schema ← constant (get vault "schema") SCHEMA_V1 fun found =>
    js "Unsupported vault schema: \"" ++ found ++ js "\" (expected " ++ SCHEMA_V1 ++ js ")"
  let aead ← partOf (get vault "aead") "Unsupported AEAD algorithm: "
  let nonce ← string (get aead "nonce") "Vault malformed: missing aead.nonce"
  let ciphertext ← string (get aead "ciphertext") "Vault malformed: missing aead.ciphertext"
  return {
    schema, version := common.version, created_at := common.created_at, mode := common.mode,
    kdf := common.kdf, aead := ⟨AEAD_ALG, nonce, ciphertext⟩ }

/-! ## Encryption -/

/-- The options of `encryptVaultV1`; those that are `none` are not given. -/
structure EncryptOptionsV1 where
  plaintext : JsString
  password : JsString
  mode : JsString
  salt : Option Bytes
  nonce : Option Bytes
  opslimit : Option Double
  memlimit : Option Double

/-- Options that passed every check, with the defaults filled in. -/
structure SettingsV1 where
  password : JsString
  mode : JsString
  opslimit : Double
  memlimit : Double
  ptBytes : Bytes
  salt : FixedBytes SALT_BYTES
  nonce : FixedBytes NONCE_BYTES
  created_at : JsString
  password_nonempty : password ≠ []
  mode_known : mode = js "self" ∨ mode = js "share"
  opslimit_in : ¬ outOfRange opslimit MIN_OPSLIMIT MAX_OPSLIMIT
  memlimit_in : ¬ outOfRange memlimit MIN_MEMLIMIT MAX_MEMLIMIT
  ptBytes_small : ptBytes.length ≤ MAX_PLAINTEXT_BYTES

structure DrawV1 where
  salt : FixedBytes SALT_BYTES
  nonce : FixedBytes NONCE_BYTES
  now : JsString

def settingsV1 (opts : EncryptOptionsV1) (draw : DrawV1) : Except JsString SettingsV1 :=
  let opslimit := numberOr opts.opslimit DEFAULT_OPSLIMIT
  let memlimit := numberOr opts.memlimit DEFAULT_MEMLIMIT
  if opts.plaintext = [] then .error (js "Type a message before encrypting")
  else if password_nonempty : opts.password = [] then
    .error (js "Type a phrase before encrypting")
  else if mode_known : ¬ (opts.mode = js "self" ∨ opts.mode = js "share") then
    .error (js "Pick a mode first")
  else do
    let salt ← bytesOr opts.salt draw.salt "Invalid salt (must be 16 bytes)"
    let nonce ← bytesOr opts.nonce draw.nonce "Invalid nonce (must be 24 bytes)"
    if opslimit_in : outOfRange opslimit MIN_OPSLIMIT MAX_OPSLIMIT then
      throw (js "opslimit out of range")
    else if memlimit_in : outOfRange memlimit MIN_MEMLIMIT MAX_MEMLIMIT then
      throw (js "memlimit out of range")
    else if ptBytes_small : (utf8 opts.plaintext).length > MAX_PLAINTEXT_BYTES then
      throw (js "Message too large (max 256 KiB)")
    else
      return { password := opts.password, mode := opts.mode, opslimit, memlimit,
               ptBytes := utf8 opts.plaintext, salt, nonce, created_at := draw.now,
               password_nonempty, mode_known := not_not.mp mode_known, opslimit_in, memlimit_in,
               ptBytes_small := Nat.not_lt.mp ptBytes_small }

namespace SettingsV1

/-- The vault before anything is encrypted. -/
def skeleton (s : SettingsV1) : VaultV1 where
  schema := SCHEMA_V1
  version := VERSION
  created_at := s.created_at
  mode := s.mode
  kdf := ⟨KDF_ALG, s.opslimit, s.memlimit, Cli.b64urlEncode s.salt.val⟩
  aead := ⟨AEAD_ALG, Cli.b64urlEncode s.nonce.val, []⟩

def stretch (s : SettingsV1) (sodium : Sodium) (phrase : JsString) : Except JsString Bytes :=
  sodium.crypto_pwhash KEY_BYTES (utf8 phrase) s.salt.val s.opslimit s.memlimit

def ct (s : SettingsV1) (aead : Aead) (key : Bytes) : Bytes :=
  aead.encrypt key s.nonce.val (buildAADV1 s.skeleton) s.ptBytes

def lock (s : SettingsV1) (aead : Aead) (key : Bytes) : VaultV1 :=
  { s.skeleton with
    aead := { s.skeleton.aead with ciphertext := Cli.b64urlEncode (s.ct aead key) } }

end SettingsV1

def encryptVaultV1 (sodium : Sodium) (opts : EncryptOptionsV1) (draw : DrawV1) :
    Except JsString Js.Value := do
  let s ← settingsV1 opts draw
  let key ← s.stretch sodium s.password
  return (s.lock sodium.aead key).toValue

/-! ## Decryption -/

structure DecodedV1 where
  salt : Bytes
  nonce : Bytes
  ct : Bytes

def lengthErrorV1 (d : DecodedV1) : Option JsString :=
  if d.salt.length ≠ SALT_BYTES then some (js "Vault malformed: salt length")
  else if d.nonce.length ≠ NONCE_BYTES then some (js "Vault malformed: nonce length")
  else if d.ct.length = 0 then some (js "Vault malformed: empty ciphertext")
  else if d.ct.length > MAX_CIPHERTEXT_BYTES then some (js "Vault too large (max 1024 KiB)")
  else none

def decodeFieldsV1 (vault : VaultV1) : Except JsString DecodedV1 := do
  let salt ← b64urlDecode vault.kdf.salt
  let nonce ← b64urlDecode vault.aead.nonce
  let ct ← b64urlDecode vault.aead.ciphertext
  let d : DecodedV1 := { salt, nonce, ct }
  match lengthErrorV1 d with
  | some e => throw e
  | none => return d

def decryptVaultV1 (sodium : Sodium) (vault : Js.Value) (password : JsString) :
    Except JsString JsString := do
  let vault ← validateVaultSchemaV1 vault
  if password = [] then throw (js "Type the phrase")
  let d ← decodeFieldsV1 vault
  let key ← sodium.crypto_pwhash KEY_BYTES (utf8 password) d.salt vault.kdf.opslimit
    vault.kdf.memlimit
  match sodium.aead.decrypt key d.nonce (buildAADV1 vault) d.ct with
  | none => throw (js "Could not decrypt: wrong phrase or tampered vault")
  | some plaintextBytes =>
    match fromUtf8 plaintextBytes with
    | none => throw (js "Decrypted bytes are not valid UTF-8 (vault may be corrupted)")
    | some text => return text

def isText (v : Option Js.Value) (s : JsString) : Bool :=
  match v with
  | some (.str t) => t = s
  | _ => false

def decryptVault (sodium : Sodium) (vault : Js.Value) (password : JsString) :
    Except JsString JsString := do
  let vault ← object (some vault) "Vault malformed: not an object"
  if isText (get vault "schema") SCHEMA_V2 then decryptVaultV2 sodium vault password
  else if isText (get vault "schema") SCHEMA_V1 then decryptVaultV1 sodium vault password
  else
    throw (js "Unsupported vault schema: \"" ++ displayed (get vault "schema") ++
      js "\" (expected " ++ SCHEMA_V2 ++ js " or " ++ SCHEMA_V1 ++ js ")")

/-! ## The associated data -/

theorem sortKeys_writtenNumber (x : Double) :
    (Js.writtenNumber x).sortKeys = Js.writtenNumber x := by
  cases x with
  | nan => rfl
  | infinity negative => rfl
  | finite negative bits =>
    rw [Js.writtenNumber]
    split <;> rfl

/-- Within positive bounds every number is written as itself, but for `NaN`. -/
theorem writtenNumber_inRange {x y : Double} {min max : Nat} (positive : 0 < min)
    (hx : ¬ outOfRange x min max) (hy : ¬ outOfRange y min max)
    (same : Js.writtenNumber x = Js.writtenNumber y) : x = y := by
  have either {z : Double} (hz : ¬ outOfRange z min max) :
      z = .nan ∨ Js.writtenNumber z = .num z := by
    by_cases none : z = .nan
    · exact .inl none
    · exact .inr (Js.writtenNumber_plain (Cli.plain_of_inRange positive hz none))
  rcases either hx with rfl | plain <;> rcases either hy with rfl | plain'
  · rfl
  · rw [plain'] at same
    cases same
  · rw [plain] at same
    cases same
  · rw [plain, plain'] at same
    exact Json.num.inj same

/-- What the object is read back as; its keys stand in order already. -/
def writtenObjV1 (v : VaultV1) : Js.Value :=
  .obj [
    (js "aead", .obj [
      (js "algorithm", .str v.aead.algorithm),
      (js "nonce", .str v.aead.nonce)]),
    (js "created_at", .str v.created_at),
    (js "kdf", .obj [
      (js "algorithm", .str v.kdf.algorithm),
      (js "memlimit", Js.writtenNumber v.kdf.memlimit),
      (js "opslimit", Js.writtenNumber v.kdf.opslimit),
      (js "salt", .str v.kdf.salt)]),
    (js "mode", .str v.mode),
    (js "schema", .str v.schema),
    (js "version", .str v.version)]

theorem sortKeys_written_aadObjV1 (v : VaultV1) :
    (Js.written (aadObjV1 v)).sortKeys = writtenObjV1 v := by
  have order : js "aead" < js "created_at" ∧ js "created_at" < js "kdf" ∧ js "kdf" < js "mode" ∧
      js "mode" < js "schema" ∧ js "schema" < js "version" ∧ js "algorithm" < js "nonce" ∧
      js "algorithm" < js "memlimit" ∧ js "memlimit" < js "opslimit" ∧
      js "opslimit" < js "salt" := by
    decide
  simp only [aadObjV1, Js.written, Js.writtenFields, Json.sortKeys, Json.sortFields,
    Json.insertField, sortKeys_writtenNumber, order, if_true]
  rfl

/-- What passed validation as a vault of the first schema. -/
structure VaultV1.Valid (v : VaultV1) : Prop where
  schema : v.schema = SCHEMA_V1
  mode : v.mode = js "self" ∨ v.mode = js "share"
  kdf_algorithm : v.kdf.algorithm = KDF_ALG
  opslimit : ¬ outOfRange v.kdf.opslimit MIN_OPSLIMIT MAX_OPSLIMIT
  memlimit : ¬ outOfRange v.kdf.memlimit MIN_MEMLIMIT MAX_MEMLIMIT
  aead_algorithm : v.aead.algorithm = AEAD_ALG

/-- The vault without what was encrypted. -/
def VaultV1.bound (v : VaultV1) : VaultV1 := { v with aead := { v.aead with ciphertext := [] } }

theorem buildAADV1_eq_iff {v w : VaultV1} (hv : v.Valid) (hw : w.Valid) :
    buildAADV1 v = buildAADV1 w ↔ v.bound = w.bound := by
  constructor
  · intro same
    have text : canonicalJSON (aadObjV1 v) = canonicalJSON (aadObjV1 w) :=
      Js.textEncode_injective (Js.wellFormed_print _) (Js.wellFormed_print _) same
    rw [Cli.canonicalJSON_eq_iff, sortKeys_written_aadObjV1, sortKeys_written_aadObjV1] at text
    simp only [writtenObjV1, Json.obj.injEq, List.cons.injEq, Prod.mk.injEq, Json.str.injEq,
      true_and, and_true] at text
    obtain ⟨⟨algorithm, nonce⟩, created_at, ⟨kdf_algorithm, memlimit, opslimit, salt⟩, mode, schema,
      version⟩ := text
    have ops := writtenNumber_inRange (by decide) hv.opslimit hw.opslimit opslimit
    have mem := writtenNumber_inRange (by decide) hv.memlimit hw.memlimit memlimit
    have kdf : v.kdf = w.kdf := Kdf.ext kdf_algorithm ops mem salt
    simp only [VaultV1.bound, schema, version, created_at, mode, kdf, algorithm, nonce]
  · intro same
    have object : aadObjV1 v.bound = aadObjV1 w.bound := congrArg aadObjV1 same
    exact congrArg (fun obj => utf8 (canonicalJSON obj)) object

theorem VaultV1.eq_of_bound {v w : VaultV1} (bound : v.bound = w.bound)
    (ciphertext : v.aead.ciphertext = w.aead.ciphertext) : v = w := by
  obtain ⟨_, _, _, _, _, _, _, _⟩ := v
  obtain ⟨_, _, _, _, _, _, _, _⟩ := w
  simp only [VaultV1.bound, VaultV1.mk.injEq, Content.mk.injEq, and_true] at bound ciphertext
  obtain ⟨rfl, rfl, rfl, rfl, rfl, rfl, rfl⟩ := bound
  rw [ciphertext]

/-- The two schemas have no associated data in common. -/
theorem buildAADV1_ne_buildAADV2 (v : VaultV1) (w : Vault) : buildAADV1 v ≠ Cli.buildAADV2 w := by
  intro same
  have text : canonicalJSON (aadObjV1 v) = canonicalJSON (Cli.aadObj w) :=
    Js.textEncode_injective (Js.wellFormed_print _) (Js.wellFormed_print _) same
  rw [canonicalJSON, ← Js.print_written, Cli.written_sortKeys, sortKeys_written_aadObjV1,
    Cli.canonicalJSON_aadObj] at text
  have third := congrArg (fun text => text[2]?) text
  change some (Js.ascii 'a') = some (Js.ascii 'c') at third
  exact absurd third (by decide)

/-! ## What is read -/

section Reading

variable {sodium : Sodium} {value : Js.Value} {v : VaultV1} {d : DecodedV1} {password t : JsString}

theorem valid_of_validateV1 (h : validateVaultSchemaV1 value = .ok v) :
    v.Valid ∧ get value "schema" = some (.str SCHEMA_V1) := by
  obtain ⟨common, common_ok, h⟩ := bind_eq_ok.mp h
  obtain ⟨o, -, common_ok⟩ := bind_eq_ok.mp common_ok
  obtain ⟨version, -, common_ok⟩ := bind_eq_ok.mp common_ok
  obtain ⟨created_at, -, common_ok⟩ := bind_eq_ok.mp common_ok
  obtain ⟨mode, mode_ok, common_ok⟩ := bind_eq_ok.mp common_ok
  obtain ⟨kdf, kdf_ok, common_ok⟩ := bind_eq_ok.mp common_ok
  cases common_ok
  obtain ⟨k, -, kdf_ok⟩ := bind_eq_ok.mp kdf_ok
  obtain ⟨ka, ka_ok, kdf_ok⟩ := bind_eq_ok.mp kdf_ok
  obtain ⟨ko, ko_ok, kdf_ok⟩ := bind_eq_ok.mp kdf_ok
  obtain ⟨km, km_ok, kdf_ok⟩ := bind_eq_ok.mp kdf_ok
  obtain ⟨ks, -, kdf_ok⟩ := bind_eq_ok.mp kdf_ok
  cases kdf_ok
  obtain ⟨schema, schema_ok, h⟩ := bind_eq_ok.mp h
  obtain ⟨p, -, h⟩ := bind_eq_ok.mp h
  obtain ⟨pn, -, h⟩ := bind_eq_ok.mp h
  obtain ⟨pc, -, h⟩ := bind_eq_ok.mp h
  cases h
  obtain ⟨read, rfl⟩ := Cli.constant_iff.mp schema_ok
  exact ⟨⟨rfl, (uiMode_iff.mp mode_ok).2, (Cli.constant_iff.mp ka_ok).2,
    (Cli.numberIn_iff.mp ko_ok).2, (Cli.numberIn_iff.mp km_ok).2, rfl⟩, read⟩

theorem validateV1_toValue (valid : v.Valid) : validateVaultSchemaV1 v.toValue = .ok v := by
  have mode : modeOf (some (.str v.mode)) = .ok v.mode := if_pos valid.mode
  have kdf : enforceKdfCaps (get v.toValue "kdf") = .ok v.kdf := by
    simp [VaultV1.toValue, enforceKdfCaps, object, Cli.constant_str valid.kdf_algorithm,
      Cli.numberIn_num valid.opslimit, Cli.numberIn_num valid.memlimit, string]
  have part : partOf (get v.toValue "aead") "Unsupported AEAD algorithm: " =
      .ok (.obj [
        (js "algorithm", .str v.aead.algorithm),
        (js "nonce", .str v.aead.nonce),
        (js "ciphertext", .str v.aead.ciphertext)]) := by
    simp [VaultV1.toValue, partOf, Js.truthy, Cli.constant_str valid.aead_algorithm]
  have aead : (⟨AEAD_ALG, v.aead.nonce, v.aead.ciphertext⟩ : Content) = v.aead := by
    rw [← valid.aead_algorithm]
  have whole : object (some v.toValue) "Vault malformed: not an object" = .ok v.toValue := rfl
  rw [validateVaultSchemaV1, validateCommonVaultFields, whole, ok_bind]
  simp only [kdf, part, ok_bind]
  simp [VaultV1.toValue, string, Cli.constant_str valid.schema, mode, aead]

theorem decodeFieldsV1_eq_ok : decodeFieldsV1 v = .ok d ↔ b64urlDecode v.kdf.salt = .ok d.salt ∧
    b64urlDecode v.aead.nonce = .ok d.nonce ∧ b64urlDecode v.aead.ciphertext = .ok d.ct ∧
    lengthErrorV1 d = none := by
  rw [decodeFieldsV1]
  simp only [bind_eq_ok]
  constructor
  · rintro ⟨salt, salt_ok, nonce, nonce_ok, ct, ct_ok, h⟩
    split at h
    · cases h
    · rename_i fits
      cases h
      exact ⟨salt_ok, nonce_ok, ct_ok, fits⟩
  · rintro ⟨salt_ok, nonce_ok, ct_ok, fits⟩
    refine ⟨_, salt_ok, _, nonce_ok, _, ct_ok, ?_⟩
    rw [fits]
    rfl

/-- What a vault of the first schema opens to. -/
theorem decryptV1_eq_ok : decryptVaultV1 sodium value password = .ok t ↔ ∃ v d key bytes,
    validateVaultSchemaV1 value = .ok v ∧ password ≠ [] ∧ decodeFieldsV1 v = .ok d ∧
      sodium.crypto_pwhash KEY_BYTES (utf8 password) d.salt v.kdf.opslimit v.kdf.memlimit =
        .ok key ∧
      sodium.aead.decrypt key d.nonce (buildAADV1 v) d.ct = some bytes ∧
      fromUtf8 bytes = some t := by
  constructor
  · intro h
    obtain ⟨v, read, h⟩ := bind_eq_ok.mp h
    by_cases none : password = []
    · rw [if_pos none] at h
      cases h
    rw [if_neg none] at h
    obtain ⟨d, decoded, h⟩ := bind_eq_ok.mp h
    obtain ⟨key, stretched, h⟩ := bind_eq_ok.mp h
    cases opened : sodium.aead.decrypt key d.nonce (buildAADV1 v) d.ct with
    | none =>
      rw [opened] at h
      cases h
    | some bytes =>
      rw [opened] at h
      dsimp only at h
      cases text : fromUtf8 bytes with
      | none =>
        rw [text] at h
        cases h
      | some t' =>
        rw [text] at h
        cases h
        exact ⟨v, d, key, bytes, read, none, decoded, stretched, opened, text⟩
  · rintro ⟨v, d, key, bytes, read, nonempty, decoded, stretched, opened, text⟩
    rw [decryptVaultV1, read, ok_bind, if_neg nonempty, decoded, ok_bind, stretched, ok_bind,
      opened]
    dsimp only
    rw [text]
    rfl

theorem isText_self (s : JsString) : isText (some (.str s)) s = true := decide_eq_true rfl

theorem decryptVault_v1 (schema : get value "schema" = some (.str SCHEMA_V1)) :
    decryptVault sodium value password = decryptVaultV1 sodium value password := by
  have other : isText (get value "schema") SCHEMA_V2 = false := by
    rw [schema]
    decide +kernel
  have same : isText (get value "schema") SCHEMA_V1 = true := by
    rw [schema]
    exact isText_self _
  rw [decryptVault, object_of_get schema, ok_bind, other, if_neg Bool.false_ne_true, if_pos same]

theorem decryptVault_v2 (schema : get value "schema" = some (.str SCHEMA_V2)) :
    decryptVault sodium value password = decryptVaultV2 sodium value password := by
  have same : isText (get value "schema") SCHEMA_V2 = true := by
    rw [schema]
    exact isText_self _
  rw [decryptVault, object_of_get schema, ok_bind, if_pos same]

end Reading

/-! ## Locked -/

namespace SettingsV1

variable (s : SettingsV1) (aead : Aead) (key : Bytes)

theorem lock_valid : (s.lock aead key).Valid :=
  ⟨rfl, s.mode_known, rfl, s.opslimit_in, s.memlimit_in, rfl⟩

theorem lock_aad : buildAADV1 (s.lock aead key) = buildAADV1 s.skeleton := rfl

def decoded : DecodedV1 := ⟨s.salt.val, s.nonce.val, s.ct aead key⟩

theorem decodeFieldsV1_lock : decodeFieldsV1 (s.lock aead key) = .ok (s.decoded aead key) := by
  refine decodeFieldsV1_eq_ok.mpr ⟨b64urlDecode_b64urlEncode _, b64urlDecode_b64urlEncode _,
    b64urlDecode_b64urlEncode _, ?_⟩
  have ct : (s.decoded aead key).ct.length = s.ptBytes.length + 16 := aead.encrypt_length _ _ _ _
  have salt : (s.decoded aead key).salt.length = SALT_BYTES := s.salt.property
  have nonce : (s.decoded aead key).nonce.length = NONCE_BYTES := s.nonce.property
  have small : ¬ (s.decoded aead key).ct.length > MAX_CIPHERTEXT_BYTES := by
    have bound := s.ptBytes_small
    simp only [MAX_PLAINTEXT_BYTES, MAX_CIPHERTEXT_BYTES] at *
    omega
  have some_bytes : (s.decoded aead key).ct.length ≠ 0 := by omega
  rw [lengthErrorV1, if_neg (not_not_intro salt), if_neg (not_not_intro nonce), if_neg some_bytes,
    if_neg small]

end SettingsV1

theorem settingsV1_eq_ok {opts : EncryptOptionsV1} {draw : DrawV1} {s : SettingsV1}
    (h : settingsV1 opts draw = .ok s) :
    s.password = opts.password ∧ s.ptBytes = utf8 opts.plaintext := by
  unfold settingsV1 at h
  dsimp only at h
  split_ifs at h
  -- The limits are checked after the random values, so that each failure is behind them.
  all_goals
    obtain ⟨salt, -, h⟩ := bind_eq_ok.mp h
    obtain ⟨nonce, -, h⟩ := bind_eq_ok.mp h
    cases h
  exact ⟨rfl, rfl⟩

/-- The primitives are ideal as far as a vault and its phrase go: no other phrase
is stretched to the same key, and the ciphertext opens in one way only. -/
structure IdealV1 (sodium : Sodium) (v : VaultV1) (phrase : JsString) : Prop where
  kdf : ∀ salt key other, b64urlDecode v.kdf.salt = .ok salt →
    sodium.crypto_pwhash KEY_BYTES (utf8 phrase) salt v.kdf.opslimit v.kdf.memlimit = .ok key →
    sodium.crypto_pwhash KEY_BYTES (utf8 other) salt v.kdf.opslimit v.kdf.memlimit = .ok key →
      utf8 other = utf8 phrase
  aead : ∀ c, b64urlDecode v.aead.ciphertext = .ok c → sodium.aead.Commits c

/-- A vault that was made with the first schema opens with its phrase as one of
the second schema does; and whatever else opens and has its ciphertext is of the
first schema, with every other field and the phrase as they were, and opens to
the same text: no vault of the second schema has it, wrapped or as content. -/
theorem legacy_bound (sodium : Sodium) (opts : EncryptOptionsV1) (draw : DrawV1) (made : Js.Value)
    (encrypted : encryptVaultV1 sodium opts draw = .ok made) :
    (decryptVault sodium made opts.password).toOption = fromUtf8 (utf8 opts.plaintext) ∧
    ∃ v, validateVaultSchemaV1 made = .ok v ∧ (IdealV1 sodium v opts.password →
      ∀ value phrase t, decryptVault sodium value phrase = .ok t →
        (∀ w, validateVaultSchemaV1 value = .ok w → w.aead.ciphertext = v.aead.ciphertext →
          w = v ∧ utf8 phrase = utf8 opts.password ∧ fromUtf8 (utf8 opts.plaintext) = some t) ∧
        ∀ w, validateVaultSchemaV2 value = .ok w →
          w.wrap.wrapped_key ≠ v.aead.ciphertext ∧ w.content.ciphertext ≠ v.aead.ciphertext) := by
  obtain ⟨s, accepted, encrypted⟩ := bind_eq_ok.mp encrypted
  obtain ⟨key, stretched, encrypted⟩ := bind_eq_ok.mp encrypted
  cases encrypted
  obtain ⟨password, ptBytes⟩ := settingsV1_eq_ok accepted
  have own : sodium.aead.decrypt key s.nonce.val (buildAADV1 s.skeleton) (s.ct sodium.aead key) =
      some s.ptBytes := sodium.aead.opens_sealed _ _ _ _
  have written := b64urlDecode_b64urlEncode (s.ct sodium.aead key)
  have read := validateV1_toValue (s.lock_valid sodium.aead key)
  have schema := (valid_of_validateV1 read).2
  constructor
  · apply Option.ext
    intro t
    rw [toOption_eq_some, decryptVault_v1 schema, decryptV1_eq_ok, ← ptBytes, ← password]
    constructor
    · rintro ⟨v, d, key', bytes, read', -, decoded, stretched', opened, text⟩
      cases read.symm.trans read'
      cases (s.decodeFieldsV1_lock sodium.aead key).symm.trans decoded
      cases stretched.symm.trans stretched'
      cases own.symm.trans opened
      exact text
    · intro text
      exact ⟨_, _, key, _, read, s.password_nonempty, s.decodeFieldsV1_lock sodium.aead key,
        stretched, own, text⟩
  · refine ⟨_, read, fun ideal value phrase t opened => ⟨?_, ?_⟩⟩
    · intro w read' same
      obtain ⟨valid, schema'⟩ := valid_of_validateV1 read'
      rw [decryptVault_v1 schema'] at opened
      obtain ⟨w', d, key', bytes, again, -, decoded, stretched', opened, text⟩ :=
        decryptV1_eq_ok.mp opened
      cases read'.symm.trans again
      obtain ⟨-, -, ct, -⟩ := decodeFieldsV1_eq_ok.mp decoded
      rw [same] at ct
      rw [← Except.ok.inj (written.symm.trans ct)] at opened
      obtain ⟨keys, -, aads⟩ := ideal.aead _ written _ _ _ _ _ _ _ _ opened own
      obtain rfl := VaultV1.eq_of_bound
        ((buildAADV1_eq_iff valid (s.lock_valid sodium.aead key)).mp aads) same
      cases (s.decodeFieldsV1_lock sodium.aead key).symm.trans decoded
      rw [keys] at opened stretched'
      rw [password] at stretched
      have phrases := ideal.kdf _ key phrase (b64urlDecode_b64urlEncode _) stretched stretched'
      cases own.symm.trans opened
      rw [← ptBytes]
      exact ⟨rfl, phrases, text⟩
    · intro w read'
      obtain ⟨reads, supported, -⟩ := reads_of_ui read'
      rw [decryptVault_v2 (supported.schema ▸ reads.schema)] at opened
      obtain ⟨w', d, reads', -, -, -, decodes, opens⟩ := ui_decrypts.mp opened
      obtain ⟨wrapKey, vaultKey, bytes, -, unwrapped, content, -⟩ := opens
      cases reads.unique reads'
      constructor
      · intro same
        have wrapped := decodes.wrappedKey
        rw [same] at wrapped
        rw [← Except.ok.inj (written.symm.trans wrapped)] at unwrapped
        obtain ⟨-, -, aads⟩ := ideal.aead _ written _ _ _ _ _ _ _ _ own unwrapped
        exact buildAADV1_ne_buildAADV2 _ _ aads
      · intro same
        have ct := decodes.contentCt
        rw [same] at ct
        rw [← Except.ok.inj (written.symm.trans ct)] at content
        obtain ⟨-, -, aads⟩ := ideal.aead _ written _ _ _ _ _ _ _ _ own content
        exact buildAADV1_ne_buildAADV2 _ _ aads

def sampleV1 : EncryptOptionsV1 :=
  ⟨js "hello", js "correct horse", js "self", none, none, none, none⟩

def sampleDrawV1 : DrawV1 :=
  ⟨FixedBytes.fill _ 1, FixedBytes.fill _ 2, js "2026-01-01T00:00:00.000Z"⟩

theorem legacy_sample : ∃ sodium made, encryptVaultV1 sodium sampleV1 sampleDrawV1 = .ok made ∧
    decryptVault sodium made (js "correct horse") = .ok (js "hello") ∧
    ∀ phrase t, decryptVault sodium made phrase = .ok t →
      utf8 phrase = utf8 (js "correct horse") := by
  obtain ⟨s, accepted⟩ := exists_of_isOk (x := settingsV1 sampleV1 sampleDrawV1) (by decide +kernel)
  obtain ⟨password, -⟩ := settingsV1_eq_ok accepted
  let key : Bytes := .replicate KEY_BYTES 1
  let sodium : Sodium := ⟨Cli.keyOf (js "correct horse"),
    .marking key s.nonce.val (buildAADV1 s.skeleton)⟩
  have stretched : s.stretch sodium s.password = .ok key := by
    rw [password]
    exact congrArg Except.ok (congrArg (List.replicate KEY_BYTES) (if_pos rfl))
  have encrypted : encryptVaultV1 sodium sampleV1 sampleDrawV1 =
      .ok (s.lock sodium.aead key).toValue := by
    rw [encryptVaultV1, accepted, ok_bind, stretched]
    rfl
  obtain ⟨opened, v, read, bound⟩ := legacy_bound sodium sampleV1 sampleDrawV1 _ encrypted
  cases (validateV1_toValue (s.lock_valid sodium.aead key)).symm.trans read
  have ideal : IdealV1 sodium (s.lock sodium.aead key) (js "correct horse") := by
    constructor
    · intro salt key other _ stretched stretched'
      cases stretched
      by_contra different
      have keys := Except.ok.inj stretched'
      rw [if_neg different, if_pos rfl] at keys
      exact absurd keys (by decide)
    · intro c wrapped
      rw [← Except.ok.inj ((b64urlDecode_b64urlEncode _).symm.trans wrapped)]
      exact Aead.marking_commits _ _ _ _
  have text : fromUtf8 (utf8 sampleV1.plaintext) = some (js "hello") := by decide +kernel
  refine ⟨sodium, _, encrypted, toOption_eq_some.mp (opened.trans text), ?_⟩
  intro phrase t opened
  exact ((bound ideal _ phrase t opened).1 _ read rfl).2.1

end Qev.Ui
