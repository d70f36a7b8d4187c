import Qev.Cli.Binding
import Qev.Lib.JsObject

/-! `rewrap.js`: a new phrase for a vault, over chains of rewraps. -/

namespace Qev.Cli

open Js (JsString js)
open Utf16 (WellFormed)

def jsonParse (text : JsString) : Except JsString Js.Value :=
  match Js.parseJson text with
  | none => .error (js "not valid JSON")
  | some v => .ok v

/-- `vault.wrap.wrapped_key = wrapped_key`. -/
def setWrappedKey (wrapped_key : JsString) : Js.Value → Js.Value
  | .obj fields => .obj (fields.map fun f =>
      if f.1 = js "wrap" then
        match f.2 with
        | .obj wrap => (f.1, .obj (Js.assign (js "wrapped_key") (.str wrapped_key) wrap))
        | other => (f.1, other)
      else f)
  | v => v

/-- libsodium throws at a nonce of another length. -/
def openWrap (aead : Aead) (key nonce aad ciphertext : Bytes) : Option Bytes :=
  if nonce.length = NONCE_BYTES then aead.decrypt key nonce aad ciphertext else none

/-- What `rewrapVaultV2` encrypts, and with what. -/
def rewrapSeal (sodium : Sodium) (vault : Js.Value) (oldPassword newPassword : JsString) :
    Except JsString Sealed := do
  let vault ← validateVaultSchemaV2 vault
  if oldPassword = [] then throw (js "rewrapVaultV2: oldPassword must be a non-empty string")
  if newPassword = [] then throw (js "rewrapVaultV2: newPassword must be a non-empty string")
  if oldPassword = newPassword then
    throw (js "rewrapVaultV2: new phrase must be different from old phrase")
  let salt ← b64urlDecode vault.kdf.salt
  let wrapNonce ← b64urlDecode vault.wrap.nonce
  let wrappedKey ← b64urlDecode vault.wrap.wrapped_key
  if wrappedKey.length ≠ KEY_BYTES + TAG_BYTES then
    throw (js ("Vault malformed: wrapped_key length (got " ++ toString wrappedKey.length ++
      ", expected 48)"))
  let aad := buildAADV2 vault
  let oldWrapKey ← sodium.crypto_pwhash KEY_BYTES (utf8 oldPassword) salt vault.kdf.opslimit
    vault.kdf.memlimit
  match openWrap sodium.aead oldWrapKey wrapNonce aad wrappedKey with
  | none => throw (js "Could not rewrap: old phrase is wrong or vault wrap is tampered")
  | some vaultKey =>
    if vaultKey.length ≠ KEY_BYTES then
      throw (js "Vault malformed: unwrapped vault_key is not 32 bytes")
    let newWrapKey ← sodium.crypto_pwhash KEY_BYTES (utf8 newPassword) salt vault.kdf.opslimit
      vault.kdf.memlimit
    return ⟨newWrapKey, wrapNonce, aad, vaultKey⟩

def rewrapVaultV2 (sodium : Sodium) (vault : Js.Value) (oldPassword newPassword : JsString) :
    Except JsString Js.Value := do
  let e ← rewrapSeal sodium vault oldPassword newPassword
  let newWrappedKey := sodium.aead.encrypt e.key e.nonce e.aad e.plaintext
  let out ← jsonParse (Json.print Js.printer vault)
  return setWrappedKey (b64urlEncode newWrappedKey) out

/-- The vault after rewraps from `phrase` to each of the phrases in turn, with
what they encrypted. -/
def rewrapChain (sodium : Sodium) : Js.Value → JsString → List JsString →
    Except JsString (Js.Value × List Sealed)
  | vault, _, [] => .ok (vault, [])
  | vault, phrase, next :: later => do
    let e ← rewrapSeal sodium vault phrase next
    let vault ← rewrapVaultV2 sodium vault phrase next
    let (vault, log) ← rewrapChain sodium vault next later
    return (vault, e :: log)

/-- What `encryptVaultV2` encrypts: the vault key, and the plaintext under it. -/
def encryptSeals (sodium : Sodium) (opts : EncryptOptions) (draw : Draw) :
    Except JsString (Sealed × Sealed) := do
  let s ← settings opts draw
  let wrapKey ← sodium.crypto_pwhash KEY_BYTES (utf8 s.password) s.salt.val s.opslimit s.memlimit
  let aad := buildAADV2 s.skeleton
  return (⟨wrapKey, s.wrapNonce.val, aad, s.vaultKey.val⟩,
    ⟨s.vaultKey.val, s.contentNonce.val, aad, s.ptBytes⟩)

/-! ## One rewrap -/

theorem ordered_toValue (v : Vault) : Json.Keys Js.Ordered v.toValue := by
  have top : Js.Ordered (["schema", "version", "created_at", "mode", "kdf", "wrap",
      "content"].map js) := by
    decide
  have kdf : Js.Ordered (["algorithm", "opslimit", "memlimit", "salt"].map js) := by
    decide
  have wrap : Js.Ordered (["algorithm", "nonce", "wrapped_key"].map js) := by
    decide
  have content : Js.Ordered (["algorithm", "nonce", "ciphertext"].map js) := by
    decide
  simp only [Vault.toValue, Json.Keys, Json.KeysFields, and_true, true_and]
  exact ⟨top, kdf, wrap, content⟩

/-- The vault with another wrapped key. -/
def Vault.rewrapped (v : Vault) (wrapped_key : JsString) : Vault :=
  { v with wrap := { v.wrap with wrapped_key } }

theorem setWrappedKey_toValue (v : Vault) (wrapped_key : JsString) :
    setWrappedKey wrapped_key v.toValue = (v.rewrapped wrapped_key).toValue := by
  have other : js "algorithm" ≠ js "wrapped_key" ∧ js "nonce" ≠ js "wrapped_key" := by
    decide +kernel
  have place : Js.place (js "algorithm") = Js.place (js "wrapped_key") ∧
      Js.place (js "nonce") = Js.place (js "wrapped_key") := by
    decide +kernel
  simp only [setWrappedKey, Vault.toValue, Vault.rewrapped, List.map_cons, List.map_nil, Js.js_inj,
    String.reduceEq, if_false, if_true, Js.assign, other, place, lt_irrefl]

namespace Settings

variable {s : Settings} {aead : Aead} {wrapKey : Bytes}

/-- `NaN` is the one number within the limits that does not survive as JSON; it
is never taken for a setting. -/
theorem ofNat_ne_nan (n : Nat) : Double.ofNat n ≠ .nan := by
  rw [Double.ofNat, Double.ofMagnitude]
  split
  · intro no
    cases no
  · intro no
    cases no

theorem numberOr_ne_nan (given : Option Double) (default : Nat) :
    numberOr given default ≠ .nan := by
  cases given with
  | none => exact ofNat_ne_nan default
  | some x =>
    rw [numberOr]
    split
    · exact ofNat_ne_nan default
    · rename_i kept
      rintro rfl
      exact kept rfl

/-- Limits that were given, or else are the defaults. -/
theorem plain_of_numberOr {opslimit memlimit : Option Double}
    (ops : s.opslimit = numberOr opslimit DEFAULT_OPSLIMIT)
    (mem : s.memlimit = numberOr memlimit DEFAULT_MEMLIMIT) :
    Js.Plain s.opslimit ∧ Js.Plain s.memlimit := by
  refine ⟨plain_of_inRange (by decide) s.opslimit_in ?_,
    plain_of_inRange (by decide) s.memlimit_in ?_⟩
  · rw [ops]
    exact numberOr_ne_nan _ _
  · rw [mem]
    exact numberOr_ne_nan _ _

theorem plain_of_settings {opts : EncryptOptions} {draw : Draw} (h : settings opts draw = .ok s) :
    Js.Plain s.opslimit ∧ Js.Plain s.memlimit := by
  obtain ⟨-, -, opslimit, memlimit⟩ := settings_eq_ok h
  exact plain_of_numberOr opslimit memlimit

theorem jsonParse_lock (ops : Js.Plain s.opslimit) (mem : Js.Plain s.memlimit) :
    jsonParse (Json.print Js.printer (s.lock aead wrapKey).toValue) =
      .ok (s.lock aead wrapKey).toValue := by
  have plain : Json.Numbers Js.Plain (s.lock aead wrapKey).toValue := by
    simp only [Vault.toValue, Json.Numbers, Json.NumbersFields, true_and, and_true]
    exact ⟨ops, mem⟩
  rw [jsonParse, Js.parseJson_print (ordered_toValue _), Js.written_eq_self _ plain]

/-- The encryption of the vault key under a phrase's key. -/
def wrapSeal (s : Settings) (wrapKey : Bytes) : Sealed :=
  ⟨wrapKey, s.wrapNonce.val, buildAADV2 s.skeleton, s.vaultKey.val⟩

def contentSeal (s : Settings) : Sealed :=
  ⟨s.vaultKey.val, s.contentNonce.val, buildAADV2 s.skeleton, s.ptBytes⟩

/-- The key that a phrase is stretched to. -/
def stretch (s : Settings) (sodium : Sodium) (phrase : JsString) : Except JsString Bytes :=
  sodium.crypto_pwhash KEY_BYTES (utf8 phrase) s.salt.val s.opslimit s.memlimit

variable {sodium : Sodium} {phrase next : JsString}

theorem openWrap_lock (other : Bytes) : openWrap aead other s.wrapNonce.val (buildAADV2 s.skeleton)
      (s.decoded aead wrapKey).wrappedKey =
    aead.decrypt other s.wrapNonce.val (buildAADV2 s.skeleton)
      (s.decoded aead wrapKey).wrappedKey :=
  if_pos s.wrapNonce.property

/-- What rewrapping a vault comes down to. -/
theorem rewrapSeal_lock : rewrapSeal sodium (s.lock sodium.aead wrapKey).toValue phrase next = (do
    if phrase = [] then throw (js "rewrapVaultV2: oldPassword must be a non-empty string")
    if next = [] then throw (js "rewrapVaultV2: newPassword must be a non-empty string")
    if phrase = next then
      throw (js "rewrapVaultV2: new phrase must be different from old phrase")
    let oldWrapKey ← s.stretch sodium phrase
    match sodium.aead.decrypt oldWrapKey s.wrapNonce.val (buildAADV2 s.skeleton)
        (s.decoded sodium.aead wrapKey).wrappedKey with
    | none => throw (js "Could not rewrap: old phrase is wrong or vault wrap is tampered")
    | some vaultKey =>
      if vaultKey.length ≠ KEY_BYTES then
        throw (js "Vault malformed: unwrapped vault_key is not 32 bytes")
      let newWrapKey ← s.stretch sodium next
      return ⟨newWrapKey, s.wrapNonce.val, buildAADV2 s.skeleton, vaultKey⟩) := by
  have length : (s.decoded sodium.aead wrapKey).wrappedKey.length = KEY_BYTES + TAG_BYTES := by
    rw [decoded, sodium.aead.encrypt_length, s.vaultKey.property]
    rfl
  have salt : b64urlDecode (s.lock sodium.aead wrapKey).kdf.salt = .ok s.salt.val :=
    b64urlDecode_b64urlEncode _
  have nonce : b64urlDecode (s.lock sodium.aead wrapKey).wrap.nonce = .ok s.wrapNonce.val :=
    b64urlDecode_b64urlEncode _
  have wrapped : b64urlDecode (s.lock sodium.aead wrapKey).wrap.wrapped_key =
      .ok (s.decoded sodium.aead wrapKey).wrappedKey :=
    b64urlDecode_b64urlEncode _
  rw [rewrapSeal, validate_toValue (s.lock_valid sodium.aead wrapKey)]
  simp only [ok_bind, salt, nonce, wrapped, length, lock_aad, openWrap_lock]
  rfl

/-- A rewrap that succeeds encrypts the vault key under the new phrase's key. -/
theorem rewrapSeal_eq_ok_iff (stretched : s.stretch sodium phrase = .ok wrapKey) {e : Sealed} :
    rewrapSeal sodium (s.lock sodium.aead wrapKey).toValue phrase next = .ok e ↔
      phrase ≠ [] ∧ next ≠ [] ∧ phrase ≠ next ∧
        ∃ newKey, s.stretch sodium next = .ok newKey ∧ e = s.wrapSeal newKey := by
  have length : s.vaultKey.val.length = KEY_BYTES := s.vaultKey.property
  rw [rewrapSeal_lock, stretched]
  by_cases old : phrase = []
  · rw [if_pos old]
    exact iff_of_false nofun fun h => h.1 old
  by_cases new : next = []
  · rw [if_neg old, if_pos new]
    exact iff_of_false nofun fun h => h.2.1 new
  by_cases same : phrase = next
  · rw [if_neg old, if_neg new, if_pos same]
    exact iff_of_false nofun fun h => h.2.2.1 same
  rw [if_neg old, if_neg new, if_neg same]
  simp only [ok_bind, decoded, sodium.aead.opens_sealed, length, ne_eq, not_true_eq_false, if_false,
    bind_eq_ok, old, new, same, not_false_eq_true, true_and]
  constructor
  · rintro ⟨newKey, stretched', h⟩
    cases h
    exact ⟨newKey, stretched', rfl⟩
  · rintro ⟨newKey, stretched', rfl⟩
    exact ⟨newKey, stretched', rfl⟩

theorem rewrapVaultV2_lock (ops : Js.Plain s.opslimit) (mem : Js.Plain s.memlimit) {newKey : Bytes}
    (sealed : rewrapSeal sodium (s.lock sodium.aead wrapKey).toValue phrase next =
      .ok (s.wrapSeal newKey)) :
    rewrapVaultV2 sodium (s.lock sodium.aead wrapKey).toValue phrase next =
      .ok (s.lock sodium.aead newKey).toValue := by
  rw [rewrapVaultV2, sealed, ok_bind, jsonParse_lock ops mem, ok_bind, setWrappedKey_toValue]
  rfl

/-! ## Chains -/

/-- However often a vault is rewrapped, it is the vault locked with the key of
the latest phrase. -/
theorem rewrapChain_lock (ops : Js.Plain s.opslimit) (mem : Js.Plain s.memlimit)
    {phrases : List JsString} {vault : Js.Value} {log : List Sealed} (nonempty : phrase ≠ [])
    (stretched : s.stretch sodium phrase = .ok wrapKey)
    (chained : rewrapChain sodium (s.lock sodium.aead wrapKey).toValue phrase phrases =
      .ok (vault, log)) :
    phrases.getLastD phrase ≠ [] ∧ (∃ key, s.stretch sodium (phrases.getLastD phrase) = .ok key ∧
      vault = (s.lock sodium.aead key).toValue) ∧ ∀ e ∈ log, ∃ key, e = s.wrapSeal key := by
  induction phrases generalizing phrase wrapKey log with
  | nil =>
    cases chained
    exact ⟨nonempty, ⟨wrapKey, stretched, rfl⟩, List.forall_mem_nil _⟩
  | cons next later ih =>
    obtain ⟨e, sealed, chained⟩ := bind_eq_ok.mp chained
    obtain ⟨-, some_phrase, -, newKey, stretched', rfl⟩ :=
      (rewrapSeal_eq_ok_iff stretched).mp sealed
    rw [rewrapVaultV2_lock ops mem sealed, ok_bind] at chained
    obtain ⟨⟨vault', log'⟩, rest, chained⟩ := bind_eq_ok.mp chained
    cases chained
    obtain ⟨last, opened, logged⟩ := ih some_phrase stretched' rest
    rw [List.getLastD_cons]
    exact ⟨last, opened, List.forall_mem_cons.mpr ⟨⟨newKey, rfl⟩, logged⟩⟩

end Settings

/-- The primitives are ideal as far as a vault and its phrase go: no other phrase
is stretched to the same key, and the wrapped key opens in one way only. -/
structure Ideal (sodium : Sodium) (vault : Vault) (phrase : JsString) : Prop where
  kdf : ∀ salt key other, b64urlDecode vault.kdf.salt = .ok salt →
    sodium.crypto_pwhash KEY_BYTES (utf8 phrase) salt vault.kdf.opslimit vault.kdf.memlimit =
      .ok key →
    sodium.crypto_pwhash KEY_BYTES (utf8 other) salt vault.kdf.opslimit vault.kdf.memlimit =
      .ok key → utf8 other = utf8 phrase
  aead : ∀ c, b64urlDecode vault.wrap.wrapped_key = .ok c → sodium.aead.Commits c

section Wrong

variable {sodium : Sodium} {s : Settings} {wrapKey : Bytes} {phrase wrong : JsString}
  (ideal : Ideal sodium (s.lock sodium.aead wrapKey) phrase)
  (stretched : s.stretch sodium phrase = .ok wrapKey) (other : utf8 wrong ≠ utf8 phrase)

include ideal stretched other

/-- The key of another phrase does not open the wrapped key. -/
theorem wrong_key {key : Bytes} (stretched' : s.stretch sodium wrong = .ok key) :
    sodium.aead.decrypt key s.wrapNonce.val (buildAADV2 s.skeleton)
      (s.decoded sodium.aead wrapKey).wrappedKey = none := by
  by_contra opened
  obtain ⟨p, opened⟩ := Option.ne_none_iff_exists'.mp opened
  have own := sodium.aead.opens_sealed wrapKey s.wrapNonce.val (buildAADV2 s.skeleton)
    s.vaultKey.val
  have commits := ideal.aead _ (b64urlDecode_b64urlEncode _)
  obtain ⟨rfl, -, -⟩ := commits _ _ _ _ _ _ _ _ opened own
  exact other (ideal.kdf _ key wrong (b64urlDecode_b64urlEncode _) stretched stretched')

theorem decrypt_wrong :
    ∃ e, decryptVaultV2 sodium (s.lock sodium.aead wrapKey).toValue wrong = .error e := by
  rw [decryptVaultV2, validate_toValue (s.lock_valid sodium.aead wrapKey), ok_bind]
  by_cases empty : wrong = []
  · rw [if_pos empty]
    exact ⟨_, rfl⟩
  rw [if_neg empty]
  have stretches : sodium.crypto_pwhash KEY_BYTES (utf8 wrong) (s.decoded sodium.aead wrapKey).salt
      (s.lock sodium.aead wrapKey).kdf.opslimit (s.lock sodium.aead wrapKey).kdf.memlimit =
      s.stretch sodium wrong := rfl
  simp only [s.decodeFields_lock, ok_bind, stretches]
  cases stretched' : s.stretch sodium wrong with
  | error e => exact ⟨e, rfl⟩
  | ok key =>
    have failed : sodium.aead.decrypt key (s.decoded sodium.aead wrapKey).wrapNonce
        (buildAADV2 s.skeleton) (s.decoded sodium.aead wrapKey).wrappedKey = none :=
      wrong_key ideal stretched other stretched'
    rw [ok_bind, unlock, s.lock_aad, failed]
    exact ⟨js "Could not decrypt: wrong phrase or tampered vault", rfl⟩

theorem rewrap_wrong (next : JsString) :
    ∃ e, rewrapVaultV2 sodium (s.lock sodium.aead wrapKey).toValue wrong next = .error e := by
  rw [rewrapVaultV2, s.rewrapSeal_lock]
  by_cases old : wrong = []
  · rw [if_pos old]
    exact ⟨_, rfl⟩
  by_cases new : next = []
  · rw [if_neg old, if_pos new]
    exact ⟨_, rfl⟩
  by_cases same : wrong = next
  · rw [if_neg old, if_neg new, if_pos same]
    exact ⟨_, rfl⟩
  rw [if_neg old, if_neg new, if_neg same]
  cases stretched' : s.stretch sodium wrong with
  | error e => exact ⟨e, rfl⟩
  | ok key =>
    rw [ok_bind, wrong_key ideal stretched other stretched']
    exact ⟨js "Could not rewrap: old phrase is wrong or vault wrap is tampered", rfl⟩

end Wrong

/-- Of a vault that was made and rewrapped from phrase to phrase: nothing but the
wrapped key changes; the latest phrase opens it as the first one opened the
original, and no other does, nor can it be rewrapped with another; and two
encryptions under one key and nonce are of one plaintext, except where the vault
key is the key of a phrase and both nonces are the same. -/
theorem rewrap_chain {sodium : Sodium} {opts : EncryptOptions} {draw : Draw} {made vault : Js.Value}
    {phrases : List JsString} {wrap content : Sealed} {log : List Sealed}
    (encrypted : encryptVaultV2 sodium opts draw = .ok made)
    (sealed : encryptSeals sodium opts draw = .ok (wrap, content))
    (chained : rewrapChain sodium made opts.password phrases = .ok (vault, log)) :
    (∃ (v : Vault) (key : JsString), made = v.toValue ∧ vault = (v.rewrapped key).toValue) ∧
    ((∀ v, validateVaultSchemaV2 vault = .ok v →
        Ideal sodium v (phrases.getLastD opts.password)) →
      ∀ wrong, utf8 wrong ≠ utf8 (phrases.getLastD opts.password) →
        (∃ e, decryptVaultV2 sodium vault wrong = .error e) ∧
        ∀ next, ∃ e, rewrapVaultV2 sodium vault wrong next = .error e) ∧
    decryptVaultV2 sodium vault (phrases.getLastD opts.password) =
      decryptVaultV2 sodium made opts.password ∧
    (∀ t, opts.plaintext.Is t → WellFormed t → t.head? ≠ some 0xFEFF →
      decryptVaultV2 sodium vault (phrases.getLastD opts.password) = .ok t) ∧
    ∀ e ∈ wrap :: content :: log, ∀ e' ∈ wrap :: content :: log,
      e.key = e'.key → e.nonce = e'.nonce → e.plaintext = e'.plaintext ∨
        wrap.nonce = content.nonce ∧ ∃ r ∈ wrap :: log, r.key = content.key := by
  have opened := decrypt_made encrypted
  obtain ⟨s, accepted, encrypted⟩ := bind_eq_ok.mp encrypted
  obtain ⟨wrapKey, stretched, encrypted⟩ := bind_eq_ok.mp encrypted
  cases encrypted
  obtain ⟨password, ptBytes, -⟩ := settings_eq_ok accepted
  obtain ⟨ops, mem⟩ := Settings.plain_of_settings accepted
  have nonempty : opts.password ≠ [] := password ▸ s.password_nonempty
  rw [password] at stretched
  obtain ⟨last_nonempty, ⟨key, last_stretched, rfl⟩, logged⟩ :=
    Settings.rewrapChain_lock ops mem nonempty stretched chained
  have seals : wrap = s.wrapSeal wrapKey ∧ content = s.contentSeal := by
    rw [encryptSeals, accepted, ok_bind, password, stretched, ok_bind] at sealed
    cases sealed
    exact ⟨rfl, rfl⟩
  obtain ⟨rfl, rfl⟩ := seals
  have latest := decrypt_lock_with last_nonempty last_stretched
  rw [ptBytes] at latest
  refine ⟨⟨s.lock sodium.aead wrapKey, _, rfl, rfl⟩, ?_, latest.trans opened.symm, ?_, ?_⟩
  · intro all wrong other
    have ideal := all _ (validate_toValue (s.lock_valid sodium.aead key))
    exact ⟨decrypt_wrong ideal last_stretched other, rewrap_wrong ideal last_stretched other⟩
  · intro t is wf mark
    rw [latest, is.bytes, readPlaintext, fromUtf8_utf8 wf mark]
  · have wraps : ∀ e ∈ s.wrapSeal wrapKey :: log, ∃ key, e = s.wrapSeal key :=
      List.forall_mem_cons.mpr ⟨⟨wrapKey, rfl⟩, logged⟩
    have split {e : Sealed} (mem : e ∈ s.wrapSeal wrapKey :: s.contentSeal :: log) :
        e = s.contentSeal ∨ e ∈ s.wrapSeal wrapKey :: log := by
      rcases List.mem_cons.mp mem with rfl | later
      · exact .inr List.mem_cons_self
      · exact (List.mem_cons.mp later).imp_right (List.mem_cons_of_mem _)
    intro e mem e' mem' keys nonces
    rcases split mem with rfl | here <;> rcases split mem' with rfl | there
    · exact .inl rfl
    · obtain ⟨k, rfl⟩ := wraps e' there
      exact .inr ⟨nonces.symm, _, there, keys.symm⟩
    · obtain ⟨k, rfl⟩ := wraps e here
      exact .inr ⟨nonces, _, here, keys⟩
    · obtain ⟨k, rfl⟩ := wraps e here
      obtain ⟨k', rfl⟩ := wraps e' there
      exact .inl rfl

theorem bytesOr_given {n : Nat} {given : Option Bytes} {b : Bytes} {drawn x : FixedBytes n}
    {invalid : String} (h : bytesOr given drawn invalid = .ok x) (gave : given = some b) :
    x.val = b := by
  subst gave
  rw [bytesOr] at h
  split at h
  · cases h
    rfl
  · cases h

/-- What is given is used. -/
theorem settings_given {opts : EncryptOptions} {draw : Draw} {s : Settings}
    (h : settings opts draw = .ok s) :
    (∀ b, opts.wrapNonce = some b → s.wrapNonce.val = b) ∧
      (∀ b, opts.contentNonce = some b → s.contentNonce.val = b) ∧
      ∀ b, opts.vaultKey = some b → s.vaultKey.val = b := by
  unfold settings at h
  dsimp only at h
  split_ifs at h
  obtain ⟨salt, -, h⟩ := bind_eq_ok.mp h
  obtain ⟨wrapNonce, wrap, h⟩ := bind_eq_ok.mp h
  obtain ⟨contentNonce, content, h⟩ := bind_eq_ok.mp h
  obtain ⟨vaultKey, key, h⟩ := bind_eq_ok.mp h
  cases h
  exact ⟨fun _ => bytesOr_given wrap, fun _ => bytesOr_given content, fun _ => bytesOr_given key⟩

/-- One phrase has a key of its own. -/
def keyOf (phrase : JsString) (n : Nat) (password _salt : Bytes) (_opslimit _memlimit : Double) :
    Except JsString Bytes :=
  .ok (List.replicate n (if password = utf8 phrase then 1 else 0))

def markedSodium (s : Settings) (phrase : JsString) : Sodium where
  crypto_pwhash := keyOf phrase
  aead := .marking (.replicate KEY_BYTES 1) s.wrapNonce.val (buildAADV2 s.skeleton)

theorem ideal_marked (s : Settings) (phrase : JsString) : Ideal (markedSodium s phrase)
    (s.lock (markedSodium s phrase).aead (.replicate KEY_BYTES 1)) phrase where
  kdf salt key other _ stretched stretched' := by
    cases stretched
    by_contra different
    have keys := Except.ok.inj stretched'
    rw [if_neg different, if_pos rfl] at keys
    exact absurd keys (by decide)
  aead c wrapped := by
    have own := Except.ok.inj (wrapped.symm.trans (b64urlDecode_b64urlEncode _))
    rw [own]
    exact Aead.marking_commits _ _ _ _

theorem rewrap_chain_twice : ∃ (sodium : Sodium) (made vault : Js.Value) (log : List Sealed),
    encryptVaultV2 sodium (sampleOptions (.text (js "hello"))) sampleDraw = .ok made ∧
    rewrapChain sodium made (js "correct horse") [js "tin drum", js "battery staple"] =
      .ok (vault, log) ∧
    decryptVaultV2 sodium vault (js "battery staple") = .ok (js "hello") ∧
    ∃ e, decryptVaultV2 sodium vault (js "correct horse") = .error e := by
  obtain ⟨s, accepted⟩ := exists_of_isOk (x := settings (sampleOptions (.text (js "hello")))
    sampleDraw) (by decide +kernel)
  obtain ⟨password, -⟩ := settings_eq_ok accepted
  obtain ⟨ops, mem⟩ := Settings.plain_of_settings accepted
  have apart : utf8 (js "correct horse") ≠ utf8 (js "battery staple") := by decide
  have between : utf8 (js "tin drum") ≠ utf8 (js "battery staple") := by decide
  let sodium := markedSodium s (js "battery staple")
  have first : s.stretch sodium (js "correct horse") = .ok (.replicate KEY_BYTES 0) :=
    congrArg Except.ok (congrArg (List.replicate KEY_BYTES) (if_neg apart))
  have second : s.stretch sodium (js "tin drum") = .ok (.replicate KEY_BYTES 0) :=
    congrArg Except.ok (congrArg (List.replicate KEY_BYTES) (if_neg between))
  have third : s.stretch sodium (js "battery staple") = .ok (.replicate KEY_BYTES 1) :=
    congrArg Except.ok (congrArg (List.replicate KEY_BYTES) (if_pos rfl))
  have encrypted : encryptVaultV2 sodium (sampleOptions (.text (js "hello"))) sampleDraw =
      .ok (s.lock sodium.aead (.replicate KEY_BYTES 0)).toValue := by
    rw [encryptVaultV2, accepted, ok_bind, password]
    exact congrArg (· >>= fun key => .ok (s.lock sodium.aead key).toValue) first
  have sealed : encryptSeals sodium (sampleOptions (.text (js "hello"))) sampleDraw =
      .ok (s.wrapSeal (.replicate KEY_BYTES 0), s.contentSeal) := by
    rw [encryptSeals, accepted, ok_bind, password]
    exact congrArg (· >>= fun key => .ok (s.wrapSeal key, s.contentSeal)) first
  have once := (Settings.rewrapSeal_eq_ok_iff first).mpr
    ⟨by decide, by decide, by decide, _, second, rfl⟩
  have twice := (Settings.rewrapSeal_eq_ok_iff second).mpr
    ⟨by decide, by decide, by decide, _, third, rfl⟩
  have chained : rewrapChain sodium (s.lock sodium.aead (.replicate KEY_BYTES 0)).toValue
      (js "correct horse") [js "tin drum", js "battery staple"] =
      .ok ((s.lock sodium.aead (.replicate KEY_BYTES 1)).toValue,
        [s.wrapSeal (.replicate KEY_BYTES 0), s.wrapSeal (.replicate KEY_BYTES 1)]) := by
    rw [rewrapChain, once, ok_bind, Settings.rewrapVaultV2_lock ops mem once, ok_bind, rewrapChain,
      twice, ok_bind, Settings.rewrapVaultV2_lock ops mem twice]
    rfl
  obtain ⟨-, wrongs, -, returned, -⟩ := rewrap_chain encrypted sealed chained
  have ideal (v : Vault) (read : validateVaultSchemaV2
      (s.lock sodium.aead (.replicate KEY_BYTES 1)).toValue = .ok v) :
      Ideal sodium v (js "battery staple") := by
    rw [validate_toValue (s.lock_valid _ _)] at read
    cases read
    exact ideal_marked s _
  exact ⟨sodium, _, _, _, encrypted, chained, returned (js "hello") (.inl rfl) ⟨_, rfl⟩ (by decide),
    (wrongs ideal _ apart).1⟩

/-- A byte that is no UTF-8 does not come back; and with the same nonce given
twice and a phrase's key given as the vault key, one key and nonce encrypt two
plaintexts. -/
theorem rewrap_chain_limits :
    (¬ ∀ (sodium : Sodium) (opts : EncryptOptions) (draw : Draw) (made vault : Js.Value)
      (phrases : List JsString) (log : List Sealed), encryptVaultV2 sodium opts draw = .ok made →
      rewrapChain sodium made opts.password phrases = .ok (vault, log) →
      ∃ t, opts.plaintext.Is t ∧
        decryptVaultV2 sodium vault (phrases.getLastD opts.password) = .ok t) ∧
    ¬ ∀ (sodium : Sodium) (opts : EncryptOptions) (draw : Draw) (made vault : Js.Value)
      (phrases : List JsString) (wrap content : Sealed) (log : List Sealed),
      encryptVaultV2 sodium opts draw = .ok made →
      encryptSeals sodium opts draw = .ok (wrap, content) →
      rewrapChain sodium made opts.password phrases = .ok (vault, log) →
      (∀ v, validateVaultSchemaV2 vault = .ok v →
        Ideal sodium v (phrases.getLastD opts.password)) →
      ∀ e ∈ wrap :: content :: log, ∀ e' ∈ wrap :: content :: log,
        e.key = e'.key → e.nonce = e'.nonce → e.plaintext = e'.plaintext := by
  constructor
  · intro all
    obtain ⟨made, encrypted⟩ := exists_of_isOk (x := encryptVaultV2 sampleSodium
      (sampleOptions (.bytes [0xFF])) sampleDraw) (by decide +kernel)
    obtain ⟨t, -, opened⟩ := all _ _ _ made made [] [] encrypted rfl
    have error : decryptVaultV2 sampleSodium made (js "correct horse") =
        .error (js "Decrypted bytes are not valid UTF-8 (vault may be corrupted)") :=
      (decrypt_made encrypted).trans rfl
    cases error.symm.trans opened
  · intro all
    let opts : EncryptOptions :=
      { sampleOptions (.text (js "hello")) with
        wrapNonce := some (.replicate NONCE_BYTES 5)
        contentNonce := some (.replicate NONCE_BYTES 5)
        vaultKey := some (.replicate KEY_BYTES 1) }
    obtain ⟨s, accepted⟩ := exists_of_isOk (x := settings opts sampleDraw) (by decide +kernel)
    obtain ⟨password, ptBytes, -⟩ := settings_eq_ok accepted
    obtain ⟨wrapNonce, contentNonce, vaultKey⟩ := settings_given accepted
    let sodium := markedSodium s (js "correct horse")
    have stretched : s.stretch sodium (js "correct horse") = .ok (.replicate KEY_BYTES 1) :=
      congrArg Except.ok (congrArg (List.replicate KEY_BYTES) (if_pos rfl))
    have encrypted : encryptVaultV2 sodium opts sampleDraw =
        .ok (s.lock sodium.aead (.replicate KEY_BYTES 1)).toValue := by
      rw [encryptVaultV2, accepted, ok_bind, password]
      exact congrArg (· >>= fun key => .ok (s.lock sodium.aead key).toValue) stretched
    have sealed : encryptSeals sodium opts sampleDraw =
        .ok (s.wrapSeal (.replicate KEY_BYTES 1), s.contentSeal) := by
      rw [encryptSeals, accepted, ok_bind, password]
      exact congrArg (· >>= fun key => .ok (s.wrapSeal key, s.contentSeal)) stretched
    have ideal (v : Vault) (read : validateVaultSchemaV2
        (s.lock sodium.aead (.replicate KEY_BYTES 1)).toValue = .ok v) :
        Ideal sodium v (js "correct horse") := by
      rw [validate_toValue (s.lock_valid _ _)] at read
      cases read
      exact ideal_marked s _
    have same := all sodium opts sampleDraw _ _ [] _ _ [] encrypted sealed rfl ideal
      (s.wrapSeal (.replicate KEY_BYTES 1)) (by simp) s.contentSeal (by simp)
      (vaultKey _ rfl).symm ((wrapNonce _ rfl).trans (contentNonce _ rfl).symm)
    have plaintexts : s.vaultKey.val = s.ptBytes := same
    rw [vaultKey _ rfl, ptBytes] at plaintexts
    exact absurd plaintexts (by decide)

end Qev.Cli
