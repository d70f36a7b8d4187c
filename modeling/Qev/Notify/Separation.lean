import Qev.Cli.Rewrap
import Qev.Ui.Encrypt

/-! Encrypted notifications (`notify.js`) and V2 vaults under one phrase: what a
notification opens, for every envelope that a server can present. -/

namespace Qev.Notify

open Js (JsString js)
open Cli (KEY_BYTES NONCE_BYTES SALT_BYTES Settings b64urlEncode buildAADV2 fromUtf8 get utf8)

/-- `sodium.crypto_pwhash` with Argon2id, which may throw. -/
abbrev Pwhash := (keyLength : Nat) → (password salt : Bytes) → (opslimit memlimit : Double) →
  Except JsString Bytes

/-! ## Encryption -/

def SCHEMA : JsString := js "QIRA-NOTIFY-V1"
def WRAP_AAD : JsString := js "QIRA-NOTIFY-V1-WRAP"
def CONTENT_AAD : JsString := js "QIRA-NOTIFY-V1-CONTENT"
def ALGORITHM : JsString := js "xchacha20poly1305-ietf"

def OPSLIMIT_INTERACTIVE : Double := .ofNat 2
def MEMLIMIT_INTERACTIVE : Double := .ofNat (64 * 1024 * 1024)

/-- One call of `encryptMessage`, with what the random source and the clock give. -/
structure MessageCall where
  plaintext : JsString
  phrase : JsString
  salt : FixedBytes SALT_BYTES
  wrapNonce : FixedBytes NONCE_BYTES
  contentNonce : FixedBytes NONCE_BYTES
  vaultKey : FixedBytes KEY_BYTES
  now : JsString

namespace MessageCall

def stretch (m : MessageCall) (pwhash : Pwhash) : Except JsString Bytes :=
  pwhash KEY_BYTES (utf8 m.phrase) m.salt.val OPSLIMIT_INTERACTIVE MEMLIMIT_INTERACTIVE

def wrapSeal (m : MessageCall) (wrapKey : Bytes) : Sealed :=
  ⟨wrapKey, m.wrapNonce.val, utf8 WRAP_AAD, m.vaultKey.val⟩

def contentSeal (m : MessageCall) : Sealed :=
  ⟨m.vaultKey.val, m.contentNonce.val, utf8 CONTENT_AAD, utf8 m.plaintext⟩

def envelope (m : MessageCall) (aead : IdealAead) (wrapKey : Bytes) : Js.Value :=
  .obj [
    (js "schema", .str SCHEMA),
    (js "created_at", .str m.now),
    (js "kdf", .obj [
      (js "algorithm", .str (js "argon2id")),
      (js "opslimit", .num OPSLIMIT_INTERACTIVE),
      (js "memlimit", .num MEMLIMIT_INTERACTIVE),
      (js "salt", .str (b64urlEncode m.salt.val))]),
    (js "wrap", .obj [
      (js "algorithm", .str ALGORITHM),
      (js "aad", .str WRAP_AAD),
      (js "nonce", .str (b64urlEncode m.wrapNonce.val)),
      (js "wrapped_key", .str (b64urlEncode (aead.ciphertext (m.wrapSeal wrapKey))))]),
    (js "content", .obj [
      (js "algorithm", .str ALGORITHM),
      (js "aad", .str CONTENT_AAD),
      (js "nonce", .str (b64urlEncode m.contentNonce.val)),
      (js "ciphertext", .str (b64urlEncode (aead.ciphertext m.contentSeal)))])]

end MessageCall

def encryptMessage (pwhash : Pwhash) (aead : IdealAead) (m : MessageCall) :
    Except JsString Js.Value := do
  if m.phrase = [] then throw (js "phrase required")
  let wrapKey ← m.stretch pwhash
  return m.envelope aead wrapKey

/-! ## Decryption -/

/-- A property of a value that may be missing; `undefined` and `null` have none. -/
def member (v : Option Js.Value) (name : String) : Except JsString (Option Js.Value) :=
  match v with
  | none | some .null => .error (js "TypeError")
  | some v => .ok (get v name)

/-- `sodium.from_base64`, which throws on what is not a string. -/
def from_base64 (v : Option Js.Value) : Except JsString Bytes :=
  match v with
  | some (.str s) => Ui.b64urlDecode s
  | _ => .error (js "unsupported input type for input")

/-- `sodium.from_string`: a `TextEncoder` makes text of anything. -/
def from_string (v : Option Js.Value) : Bytes :=
  match v with
  | some v => utf8 (Js.display v)
  | none => []

/-- What the decryption reads in an envelope. -/
structure Opening where
  salt : Bytes
  wrapNonce : Bytes
  wrappedKey : Bytes
  contentNonce : Bytes
  ciphertext : Bytes
  opslimit : Double
  memlimit : Double
  wrapAad : Bytes
  contentAad : Bytes

def limit (v : Option Js.Value) : Except JsString Double :=
  match v with
  | some (.num x) => .ok x
  | _ => .error (js "TypeError")

def readEnvelope (envelope : Js.Value) : Except JsString Opening := do
  let _ ← Cli.constant (get envelope "schema") SCHEMA fun _ => js "unrecognized envelope schema"
  let salt ← from_base64 (← member (get envelope "kdf") "salt")
  let wrapNonce ← from_base64 (← member (get envelope "wrap") "nonce")
  let wrappedKey ← from_base64 (← member (get envelope "wrap") "wrapped_key")
  let contentNonce ← from_base64 (← member (get envelope "content") "nonce")
  let ciphertext ← from_base64 (← member (get envelope "content") "ciphertext")
  let opslimit ← limit (← member (get envelope "kdf") "opslimit")
  let memlimit ← limit (← member (get envelope "kdf") "memlimit")
  let wrapAad := from_string (← member (get envelope "wrap") "aad")
  let contentAad := from_string (← member (get envelope "content") "aad")
  return { salt, wrapNonce, wrappedKey, contentNonce, ciphertext, opslimit, memlimit, wrapAad,
           contentAad }

/-- The key of the phrase, then the two decryptions. -/
def Opening.open_ (o : Opening) (pwhash : Pwhash)
    (decrypt : (key nonce aad ciphertext : Bytes) → Option Bytes) (phrase : JsString) :
    Except JsString Bytes := do
  let wrapKey ← pwhash KEY_BYTES (utf8 phrase) o.salt o.opslimit o.memlimit
  match decrypt wrapKey o.wrapNonce o.wrapAad o.wrappedKey with
  | none => throw (js "ciphertext cannot be decrypted using that key")
  | some vaultKey =>
    match decrypt vaultKey o.contentNonce o.contentAad o.ciphertext with
    | none => throw (js "ciphertext cannot be decrypted using that key")
    | some plain => return plain

def decryptMessage (pwhash : Pwhash)
    (decrypt : (key nonce aad ciphertext : Bytes) → Option Bytes) (envelope : Js.Value)
    (phrase : JsString) : Except JsString JsString := do
  let o ← readEnvelope envelope
  let plain ← o.open_ pwhash decrypt phrase
  match fromUtf8 plain with
  | none => throw (js "The encoded data was not valid for encoding utf-8")
  | some text => return text

/-! ## Everything that was encrypted -/

/-- A call of one of the two encryptors. -/
inductive Call where
  | message (m : MessageCall)
  | vault (opts : Ui.EncryptOptions) (draw : Cli.Draw)

/-- A call that returned, with the key its phrase was stretched to. -/
inductive Made where
  | message (m : MessageCall) (wrapKey : Bytes)
  | vault (s : Settings) (wrapKey : Bytes)

namespace Made

def vaultKey : Made → Bytes
  | message m _ => m.vaultKey.val
  | vault s _ => s.vaultKey.val

def wrapSeal : Made → Sealed
  | message m wrapKey => m.wrapSeal wrapKey
  | vault s wrapKey => s.wrapSeal wrapKey

def contentSeal : Made → Sealed
  | message m _ => m.contentSeal
  | vault s _ => s.contentSeal

def log (made : List Made) : List Sealed := made.flatMap fun x => [x.wrapSeal, x.contentSeal]

end Made

def Call.made (pwhash : Pwhash) : Call → Option Made
  | message m =>
    if m.phrase = [] then none
    else (m.stretch pwhash).toOption.map (.message m)
  | vault opts draw => do
    let s ← (Ui.settings opts draw).toOption
    let wrapKey ← (pwhash KEY_BYTES (utf8 s.password) s.salt.val s.opslimit s.memlimit).toOption
    return .vault s wrapKey

/-- What either call returns is made of what it seals. -/
theorem encryptMessage_eq_ok {pwhash : Pwhash} {aead : IdealAead} {m : MessageCall}
    {envelope : Js.Value} : encryptMessage pwhash aead m = .ok envelope ↔
      ∃ wrapKey, Call.made pwhash (.message m) = some (.message m wrapKey) ∧
        envelope = m.envelope aead wrapKey := by
  rw [encryptMessage, Call.made]
  by_cases empty : m.phrase = []
  · rw [if_pos empty, if_pos empty]
    refine iff_of_false ?_ ?_
    · intro returned
      cases returned
    · rintro ⟨wrapKey, made, -⟩
      cases made
  · rw [if_neg empty, if_neg empty]
    cases stretched : m.stretch pwhash with
    | error e => simp [Except.toOption]
    | ok wrapKey =>
      simp [Except.toOption, eq_comm]

theorem encryptVaultV2_eq_ok {sodium : Cli.Sodium} {opts : Ui.EncryptOptions} {draw : Cli.Draw}
    {vault : Js.Value} (returned : Ui.encryptVaultV2 sodium opts draw = .ok vault) :
    ∃ s wrapKey, Call.made sodium.crypto_pwhash (.vault opts draw) = some (.vault s wrapKey) ∧
      vault = (s.lock sodium.aead wrapKey).toValue := by
  obtain ⟨s, accepted, returned⟩ := bind_eq_ok.mp returned
  obtain ⟨wrapKey, stretched, returned⟩ := bind_eq_ok.mp returned
  refine ⟨s, wrapKey, ?_, (Except.ok.inj returned).symm⟩
  rw [Call.made, accepted]
  exact Option.bind_eq_some_iff.mpr ⟨s, rfl,
    Option.bind_eq_some_iff.mpr ⟨wrapKey, toOption_eq_some.mpr stretched, rfl⟩⟩

/-- The primitives are ideal: one key comes from one phrase, salt and limits;
the keys that are drawn are new; and one ciphertext is of one encryption. -/
structure Ideal (pwhash : Pwhash) (aead : IdealAead) (made : List Made) : Prop where
  kdf : ∀ n p s o m p' s' o' m' k, pwhash n p s o m = .ok k → pwhash n p' s' o' m' = .ok k →
    p = p' ∧ s = s' ∧ o = o' ∧ m = m'
  drawn : ∀ x ∈ made, ∀ n p s o m, pwhash n p s o m ≠ .ok x.vaultKey
  keys : ∀ x ∈ made, ∀ y ∈ made, x.vaultKey = y.vaultKey → x = y
  exact_ : ∀ e ∈ Made.log made, ∀ e' ∈ Made.log made,
    aead.ciphertext e = aead.ciphertext e' → e = e'

/-- What `decryptMessage` opens, both ciphertexts, was encrypted by
`encryptMessage`: one to wrap a key, the other as the content under it. -/
def Separated (pwhash : Pwhash) (aead : IdealAead) (made : List Made) (envelope : Js.Value)
    (phrase : JsString) : Prop :=
  ∀ t, decryptMessage pwhash (aead.decrypt (Made.log made)) envelope phrase = .ok t →
    ∃ o m wrapKey, readEnvelope envelope = .ok o ∧ .message m wrapKey ∈ made ∧
      o.wrappedKey = aead.ciphertext (m.wrapSeal wrapKey) ∧
      o.ciphertext = aead.ciphertext m.contentSeal

/-- The envelope is made of a vault of the phrase: its salt, limits, nonces and
ciphertexts, and as both strings of associated data the text that the vault's
own is derived to. -/
def Repackages (aead : IdealAead) (made : List Made) (envelope : Js.Value) (phrase : JsString) :
    Prop :=
  ∃ o s wrapKey, readEnvelope envelope = .ok o ∧ .vault s wrapKey ∈ made ∧
    utf8 s.password = utf8 phrase ∧ s.salt.val = o.salt ∧ s.opslimit = o.opslimit ∧
    s.memlimit = o.memlimit ∧ s.wrapNonce.val = o.wrapNonce ∧ buildAADV2 s.skeleton = o.wrapAad ∧
    aead.ciphertext (s.wrapSeal wrapKey) = o.wrappedKey ∧ s.contentNonce.val = o.contentNonce ∧
    buildAADV2 s.skeleton = o.contentAad ∧ aead.ciphertext s.contentSeal = o.ciphertext

/-! ## What an envelope opens -/

section Opens

variable {pwhash : Pwhash} {aead : IdealAead} {calls : List Call} {made : List Made}
  {envelope : Js.Value} {phrase : JsString} {o : Opening} {plain : Bytes}

/-- A call that returned has stretched its phrase, and a vault's content is text. -/
theorem made_vault {s : Settings} {wrapKey : Bytes}
    (mem : .vault s wrapKey ∈ calls.filterMap (Call.made pwhash)) :
    pwhash KEY_BYTES (utf8 s.password) s.salt.val s.opslimit s.memlimit = .ok wrapKey ∧
      ∃ plaintext, s.ptBytes = utf8 plaintext := by
  obtain ⟨call, -, made⟩ := List.mem_filterMap.mp mem
  cases call with
  | message m =>
    rw [Call.made] at made
    split at made
    · cases made
    · obtain ⟨k, -, other⟩ := Option.map_eq_some_iff.mp made
      cases other
  | vault opts draw =>
    obtain ⟨s', accepted, made⟩ := Option.bind_eq_some_iff.mp made
    obtain ⟨k, stretched, made⟩ := Option.bind_eq_some_iff.mp made
    cases made
    obtain ⟨-, ptBytes, -⟩ := Ui.settings_eq_ok (toOption_eq_some.mp accepted)
    exact ⟨toOption_eq_some.mp stretched, opts.plaintext, ptBytes⟩

theorem made_message {m : MessageCall} {wrapKey : Bytes}
    (mem : .message m wrapKey ∈ calls.filterMap (Call.made pwhash)) :
    m.stretch pwhash = .ok wrapKey := by
  obtain ⟨call, -, made⟩ := List.mem_filterMap.mp mem
  cases call with
  | message m' =>
    rw [Call.made] at made
    split at made
    · cases made
    · obtain ⟨k, stretched, same⟩ := Option.map_eq_some_iff.mp made
      cases same
      exact toOption_eq_some.mp stretched
  | vault opts draw =>
    obtain ⟨s', accepted, made⟩ := Option.bind_eq_some_iff.mp made
    obtain ⟨k, stretched, other⟩ := Option.bind_eq_some_iff.mp made
    cases other

/-- The key that a call wraps its own key with is a phrase's. -/
theorem exists_stretch {x : Made} (mem : x ∈ calls.filterMap (Call.made pwhash)) :
    ∃ p s o m, pwhash KEY_BYTES p s o m = .ok x.wrapSeal.key := by
  cases x with
  | message m wrapKey => exact ⟨_, _, _, _, made_message mem⟩
  | vault s wrapKey => exact ⟨_, _, _, _, (made_vault mem).1⟩

theorem Made.mem_log {e : Sealed} :
    e ∈ log made ↔ ∃ x ∈ made, e = x.wrapSeal ∨ e = x.contentSeal := by
  simp [log, List.mem_flatMap]

theorem Made.wrapSeal_plaintext (x : Made) : x.wrapSeal.plaintext = x.vaultKey := by
  cases x with
  | message m wrapKey => rfl
  | vault s wrapKey => rfl

theorem Made.contentSeal_key (x : Made) : x.contentSeal.key = x.vaultKey := by
  cases x with
  | message m wrapKey => rfl
  | vault s wrapKey => rfl

theorem open_eq_ok {log : List Sealed} : o.open_ pwhash (aead.decrypt log) phrase = .ok plain ↔
    ∃ wrapKey vaultKey,
      pwhash KEY_BYTES (utf8 phrase) o.salt o.opslimit o.memlimit = .ok wrapKey ∧
      (⟨wrapKey, o.wrapNonce, o.wrapAad, vaultKey⟩ ∈ log ∧
        o.wrappedKey = aead.encrypt wrapKey o.wrapNonce o.wrapAad vaultKey) ∧
      ⟨vaultKey, o.contentNonce, o.contentAad, plain⟩ ∈ log ∧
        o.ciphertext = aead.encrypt vaultKey o.contentNonce o.contentAad plain := by
  simp only [← IdealAead.decrypt_eq_some]
  rw [Opening.open_, bind_eq_ok]
  apply exists_congr
  intro wrapKey
  cases wrap : aead.decrypt log wrapKey o.wrapNonce o.wrapAad o.wrappedKey with
  | none => simp
  | some vaultKey =>
    cases content : aead.decrypt log vaultKey o.contentNonce o.contentAad o.ciphertext with
    | none => simp [content]
    | some bytes =>
      have returned : (pure bytes : Except JsString Bytes) = .ok bytes := rfl
      simp [content, returned]

/-- What opens was encrypted in one call: no phrase's key is a drawn one, and no
key was drawn twice. -/
theorem opened_in_one_call (ideal : Ideal pwhash aead (calls.filterMap (Call.made pwhash)))
    (opened : o.open_ pwhash (aead.decrypt (Made.log (calls.filterMap (Call.made pwhash)))) phrase =
      .ok plain) :
    ∃ x ∈ calls.filterMap (Call.made pwhash), ∃ wrapKey,
      pwhash KEY_BYTES (utf8 phrase) o.salt o.opslimit o.memlimit = .ok wrapKey ∧
      x.wrapSeal = ⟨wrapKey, o.wrapNonce, o.wrapAad, x.vaultKey⟩ ∧
      x.contentSeal = ⟨x.vaultKey, o.contentNonce, o.contentAad, plain⟩ ∧
      o.wrappedKey = aead.ciphertext x.wrapSeal ∧ o.ciphertext = aead.ciphertext x.contentSeal := by
  obtain ⟨wrapKey, vaultKey, stretched, ⟨wrap, wrapped⟩, content, sealed⟩ := open_eq_ok.mp opened
  obtain ⟨x, mem, here | other⟩ := Made.mem_log.mp wrap
  · have key : vaultKey = x.vaultKey := by rw [← x.wrapSeal_plaintext, ← here]
    subst key
    obtain ⟨y, mem', other | here'⟩ := Made.mem_log.mp content
    · -- A wrapped key is under a phrase's key.
      obtain ⟨p, s, o', m, stretched'⟩ := exists_stretch mem'
      rw [← other] at stretched'
      exact absurd stretched' (ideal.drawn x mem _ p s o' m)
    · have same : y = x := by
        apply ideal.keys y mem' x mem
        rw [← y.contentSeal_key, ← here']
      subst same
      refine ⟨y, mem, wrapKey, stretched, here.symm, here'.symm, ?_, ?_⟩
      · rw [wrapped, ← here]
        rfl
      · rw [sealed, ← here']
        rfl
  · -- Content is under a drawn key.
    have drawn := ideal.drawn x mem KEY_BYTES (utf8 phrase) o.salt o.opslimit o.memlimit
    rw [← x.contentSeal_key, ← other] at drawn
    exact absurd stretched drawn

theorem decryptMessage_eq_ok {decrypt : (key nonce aad ciphertext : Bytes) → Option Bytes}
    {t : JsString} : decryptMessage pwhash decrypt envelope phrase = .ok t ↔
      ∃ o plain, readEnvelope envelope = .ok o ∧ o.open_ pwhash decrypt phrase = .ok plain ∧
        fromUtf8 plain = some t := by
  rw [decryptMessage, bind_eq_ok]
  simp only [bind_eq_ok]
  constructor
  · rintro ⟨o, read, plain, opened, decoded⟩
    refine ⟨o, plain, read, opened, ?_⟩
    cases text : fromUtf8 plain with
    | none =>
      rw [text] at decoded
      cases decoded
    | some t' =>
      rw [text] at decoded
      exact congrArg some (Except.ok.inj decoded)
  · rintro ⟨o, plain, read, opened, decoded⟩
    refine ⟨o, read, plain, opened, ?_⟩
    rw [decoded]
    rfl

/-- A repackaged vault opens, to what is in the vault. -/
theorem decrypt_repackaged (repackages : Repackages aead (calls.filterMap (Call.made pwhash))
      envelope phrase) :
    ∃ o s wrapKey plaintext t, readEnvelope envelope = .ok o ∧
      .vault s wrapKey ∈ calls.filterMap (Call.made pwhash) ∧
      o.wrappedKey = aead.ciphertext (s.wrapSeal wrapKey) ∧
      s.ptBytes = utf8 plaintext ∧ fromUtf8 (utf8 plaintext) = some t ∧
      decryptMessage pwhash
        (aead.decrypt (Made.log (calls.filterMap (Call.made pwhash)))) envelope phrase = .ok t := by
  obtain ⟨o, s, wrapKey, read, mem, password, salt, ops, mems, wrapNonce, wrapAad, wrapped,
    contentNonce, contentAad, ciphertext⟩ := repackages
  obtain ⟨stretched, plaintext, text⟩ := made_vault mem
  obtain ⟨t, decoded⟩ : ∃ t, fromUtf8 (utf8 plaintext) = some t := by
    rw [fromUtf8, Js.textDecode, utf8, Js.textEncode, Utf8.decode_encode]
    exact ⟨_, rfl⟩
  refine ⟨o, s, wrapKey, plaintext, t, read, mem, wrapped.symm, text, decoded, ?_⟩
  rw [decryptMessage_eq_ok]
  refine ⟨o, s.ptBytes, read, ?_, text ▸ decoded⟩
  rw [open_eq_ok]
  refine ⟨wrapKey, s.vaultKey.val, ?_, ⟨?_, ?_⟩, ?_, ?_⟩
  · rw [← password, ← salt, ← ops, ← mems]
    exact stretched
  · rw [← wrapNonce, ← wrapAad]
    exact Made.mem_log.mpr ⟨_, mem, .inl rfl⟩
  · rw [← wrapped, ← wrapNonce, ← wrapAad, IdealAead.ciphertext, Settings.wrapSeal]
  · rw [← contentNonce, ← contentAad]
    exact Made.mem_log.mpr ⟨_, mem, .inr rfl⟩
  · rw [← ciphertext, ← contentNonce, ← contentAad, IdealAead.ciphertext, Settings.contentSeal]

end Opens

/-- Whatever was encrypted by either program, under whatever phrases, with ideal
primitives: a notification that opens is one that `encryptMessage` made, if and
only if the envelope is no repackaged vault. -/
theorem separated_iff (pwhash : Pwhash) (aead : IdealAead) (calls : List Call)
    (ideal : Ideal pwhash aead (calls.filterMap (Call.made pwhash))) (envelope : Js.Value)
    (phrase : JsString) :
    Separated pwhash aead (calls.filterMap (Call.made pwhash)) envelope phrase ↔
      ¬ Repackages aead (calls.filterMap (Call.made pwhash)) envelope phrase := by
  constructor
  · intro separated repackages
    obtain ⟨o, s, wrapKey, plaintext, t, read, mem, wrapped, -, -, decrypted⟩ :=
      decrypt_repackaged repackages
    obtain ⟨o', m, wrapKey', read', mem', wrapped', -⟩ := separated t decrypted
    obtain rfl := Except.ok.inj (read.symm.trans read')
    have same := ideal.exact_ _ (Made.mem_log.mpr ⟨_, mem, .inl rfl⟩) _
      (Made.mem_log.mpr ⟨_, mem', .inl rfl⟩) (wrapped.symm.trans wrapped')
    have keys : s.vaultKey.val = m.vaultKey.val := congrArg Sealed.plaintext same
    cases ideal.keys _ mem _ mem' keys
  · intro other t decrypted
    obtain ⟨o, plain, read, opened, -⟩ := decryptMessage_eq_ok.mp decrypted
    obtain ⟨x, mem, wrapKey, stretched, wrap, content, wrapped, sealed⟩ :=
      opened_in_one_call ideal opened
    cases x with
    | message m k => exact ⟨o, m, k, read, mem, wrapped, sealed⟩
    | vault s k =>
      exfalso
      apply other
      obtain ⟨made, -⟩ := made_vault mem
      obtain ⟨rfl, wrapNonce, wrapAad, -⟩ := Sealed.mk.inj
        (show (⟨k, s.wrapNonce.val, buildAADV2 s.skeleton, s.vaultKey.val⟩ : Sealed) = _ from wrap)
      obtain ⟨-, contentNonce, contentAad, -⟩ := Sealed.mk.inj
        (show (⟨s.vaultKey.val, s.contentNonce.val, buildAADV2 s.skeleton, s.ptBytes⟩ : Sealed) = _
          from content)
      obtain ⟨password, salt, ops, mems⟩ := ideal.kdf _ _ _ _ _ _ _ _ _ _ made stretched
      exact ⟨o, s, k, read, mem, password, salt, ops, mems, wrapNonce, wrapAad, wrapped.symm,
        contentNonce, contentAad, sealed.symm⟩

/-! ## A vault as a notification -/

/-- The envelope that anyone who has a vault can make of it. -/
def repackaged (aead : IdealAead) (s : Settings) (wrapKey : Bytes) : Js.Value :=
  .obj [
    (js "schema", .str SCHEMA),
    (js "kdf", .obj [
      (js "opslimit", .num s.opslimit),
      (js "memlimit", .num s.memlimit),
      (js "salt", .str (b64urlEncode s.salt.val))]),
    (js "wrap", .obj [
      (js "aad", .str (Cli.canonicalJSON (Cli.aadObj s.skeleton))),
      (js "nonce", .str (b64urlEncode s.wrapNonce.val)),
      (js "wrapped_key", .str (b64urlEncode (aead.ciphertext (s.wrapSeal wrapKey))))]),
    (js "content", .obj [
      (js "aad", .str (Cli.canonicalJSON (Cli.aadObj s.skeleton))),
      (js "nonce", .str (b64urlEncode s.contentNonce.val)),
      (js "ciphertext", .str (b64urlEncode (aead.ciphertext s.contentSeal)))])]

theorem repackages_repackaged (aead : IdealAead) {made : List Made} {s : Settings} {wrapKey : Bytes}
    (mem : .vault s wrapKey ∈ made) :
    Repackages aead made (repackaged aead s wrapKey) s.password := by
  have read : readEnvelope (repackaged aead s wrapKey) = .ok ⟨s.salt.val, s.wrapNonce.val,
      aead.ciphertext (s.wrapSeal wrapKey), s.contentNonce.val, aead.ciphertext s.contentSeal,
      s.opslimit, s.memlimit, buildAADV2 s.skeleton, buildAADV2 s.skeleton⟩ := by
    simp [repackaged, readEnvelope, Cli.constant_str, member, from_base64, limit, from_string,
      Js.display, Ui.b64urlDecode_b64urlEncode, buildAADV2]
  refine ⟨_, s, wrapKey, read, mem, ?_⟩
  simp only [and_self]

/-- The keys of some phrases, each with its salt and limits. -/
def keyTable (rows : List ((Bytes × Bytes × Double × Double) × Bytes)) : Pwhash :=
  fun _ p s o m =>
    match rows.find? (·.1 = (p, s, o, m)) with
    | some row => .ok row.2
    | none => .error (js "out of memory")

theorem keyTable_cons (row : Bytes × Bytes × Double × Double) (key : Bytes)
    (rows : List ((Bytes × Bytes × Double × Double) × Bytes)) (n : Nat) (p s : Bytes)
    (o m : Double) : keyTable ((row, key) :: rows) n p s o m =
      if row = (p, s, o, m) then .ok key else keyTable rows n p s o m := by
  rw [keyTable, keyTable, List.find?_cons]
  by_cases here : row = (p, s, o, m)
  · rw [if_pos here, decide_eq_true here]
  · rw [if_neg here, decide_eq_false here]

theorem mem_of_keyTable {rows : List ((Bytes × Bytes × Double × Double) × Bytes)} {n : Nat}
    {p s k : Bytes} {o m : Double} (h : keyTable rows n p s o m = .ok k) :
    ((p, s, o, m), k) ∈ rows := by
  rw [keyTable] at h
  split at h
  · rename_i row found
    have here := List.find?_some found
    obtain rfl := Except.ok.inj h
    rw [← of_decide_eq_true here]
    exact List.mem_of_find?_eq_some found
  · cases h

/-- Calls whose keys and plaintexts are all different, with primitives that are
ideal for them. -/
theorem ideal_clear {rows : List ((Bytes × Bytes × Double × Double) × Bytes)} {made : List Made}
    (apart : (rows.map Prod.snd).Nodup) (fresh : ∀ x ∈ made, x.vaultKey ∉ rows.map Prod.snd)
    (keys : (made.map Made.vaultKey).Nodup)
    (plaintexts : ((Made.log made).map Sealed.plaintext).Nodup) :
    Ideal (keyTable rows) .clear made where
  kdf n p s o m p' s' o' m' k first second := by
    have same := List.inj_on_of_nodup_map apart (mem_of_keyTable first) (mem_of_keyTable second) rfl
    simpa using same
  drawn x mem n p s o m stretched :=
    fresh x mem (List.mem_map_of_mem (mem_of_keyTable stretched))
  keys x mem y mem' same := List.inj_on_of_nodup_map keys mem mem' same
  exact_ e mem e' mem' same := List.inj_on_of_nodup_map plaintexts mem mem' same

/-! ## A notification and a vault of one phrase -/

theorem read_envelope (m : MessageCall) (aead : IdealAead) (wrapKey : Bytes) :
    ∃ o, readEnvelope (m.envelope aead wrapKey) = .ok o ∧ o.salt = m.salt.val := by
  simp [MessageCall.envelope, readEnvelope, Cli.constant_str, member, from_base64, limit,
    from_string, Js.display, Ui.b64urlDecode_b64urlEncode]

def sampleMessage : MessageCall :=
  ⟨js "hi", js "correct horse", FixedBytes.fill _ 8, FixedBytes.fill _ 5, FixedBytes.fill _ 6,
    FixedBytes.fill _ 7, js "2026-01-01T00:00:00.000Z"⟩

def sampleOptions : Ui.EncryptOptions :=
  ⟨js "hello", js "correct horse", js "self", none, none, none, none, none, none⟩

def sampleCalls : List Call := [.message sampleMessage, .vault sampleOptions Cli.sampleDraw]

/-- Both calls have the phrase, with a salt and limits of their own. -/
def sampleRows (s : Settings) : List ((Bytes × Bytes × Double × Double) × Bytes) :=
  [((utf8 sampleMessage.phrase, sampleMessage.salt.val, OPSLIMIT_INTERACTIVE,
      MEMLIMIT_INTERACTIVE), .replicate KEY_BYTES 9),
    ((utf8 s.password, s.salt.val, s.opslimit, s.memlimit), .replicate KEY_BYTES 10)]

def sampleKeys (s : Settings) : Pwhash := keyTable (sampleRows s)

theorem stretch_sample (s : Settings) :
    sampleMessage.stretch (sampleKeys s) = .ok (.replicate KEY_BYTES 9) := by
  rw [MessageCall.stretch, sampleKeys, sampleRows, keyTable_cons, if_pos rfl]

section Sample

variable {s : Settings} (accepted : Ui.settings sampleOptions Cli.sampleDraw = .ok s)

include accepted

theorem salts_sample : sampleMessage.salt.val ≠ s.salt.val := by
  rw [(Ui.settings_drawn accepted).1 rfl]
  decide

theorem made_sample : sampleCalls.filterMap (Call.made (sampleKeys s)) =
    [.message sampleMessage (.replicate KEY_BYTES 9), .vault s (.replicate KEY_BYTES 10)] := by
  have some_phrase : ¬ sampleMessage.phrase = [] := by decide
  have message : Call.made (sampleKeys s) (.message sampleMessage) =
      some (.message sampleMessage (.replicate KEY_BYTES 9)) := by
    rw [Call.made, if_neg some_phrase, stretch_sample s]
    rfl
  have stretched : sampleKeys s KEY_BYTES (utf8 s.password) s.salt.val s.opslimit s.memlimit =
      .ok (.replicate KEY_BYTES 10) := by
    have other : (utf8 sampleMessage.phrase, sampleMessage.salt.val, OPSLIMIT_INTERACTIVE,
        MEMLIMIT_INTERACTIVE) ≠ (utf8 s.password, s.salt.val, s.opslimit, s.memlimit) := by
      intro same
      exact salts_sample accepted (congrArg (fun row => row.2.1) same)
    rw [sampleKeys, sampleRows, keyTable_cons, if_neg other, keyTable_cons, if_pos rfl]
  have vault : Call.made (sampleKeys s) (.vault sampleOptions Cli.sampleDraw) =
      some (.vault s (.replicate KEY_BYTES 10)) := by
    rw [Call.made, accepted]
    refine Option.bind_eq_some_iff.mpr ⟨s, rfl, ?_⟩
    exact Option.bind_eq_some_iff.mpr ⟨_, toOption_eq_some.mpr stretched, rfl⟩
  rw [sampleCalls, List.filterMap_cons, message, List.filterMap_cons, vault, List.filterMap_nil]

theorem ideal_sample :
    Ideal (sampleKeys s) .clear (sampleCalls.filterMap (Call.made (sampleKeys s))) := by
  rw [made_sample accepted]
  have vaultKey := (Ui.settings_drawn accepted).2 rfl
  obtain ⟨-, ptBytes, -⟩ := Ui.settings_eq_ok accepted
  have keys : [Made.message sampleMessage (.replicate KEY_BYTES 9),
      .vault s (.replicate KEY_BYTES 10)].map Made.vaultKey =
      [sampleMessage.vaultKey.val, Cli.sampleDraw.vaultKey.val] := by
    rw [← vaultKey]
    rfl
  have plaintexts : (Made.log [.message sampleMessage (.replicate KEY_BYTES 9),
      .vault s (.replicate KEY_BYTES 10)]).map Sealed.plaintext =
      [sampleMessage.vaultKey.val, utf8 sampleMessage.plaintext, Cli.sampleDraw.vaultKey.val,
        utf8 sampleOptions.plaintext] := by
    rw [← vaultKey, ← ptBytes]
    rfl
  have rows : (sampleRows s).map Prod.snd =
      [.replicate KEY_BYTES 9, .replicate KEY_BYTES 10] := rfl
  have fresh : ([sampleMessage.vaultKey.val, Cli.sampleDraw.vaultKey.val] : List Bytes).all
      (· ∉ [.replicate KEY_BYTES 9, .replicate KEY_BYTES 10]) = true := by decide
  apply ideal_clear
  · rw [rows]
    decide
  · intro x mem
    rw [rows]
    apply of_decide_eq_true (List.all_eq_true.mp fresh _ _)
    rw [← keys]
    exact List.mem_map_of_mem mem
  · rw [keys]
    decide
  · rw [plaintexts]
    decide

end Sample

/-- The notification opens beside the vault. -/
theorem separated_sample : ∃ s wrapKey,
    Ui.settings sampleOptions Cli.sampleDraw = .ok s ∧
    sampleMessage.stretch (sampleKeys s) = .ok wrapKey ∧
    Separated (sampleKeys s) .clear (sampleCalls.filterMap (Call.made (sampleKeys s)))
      (sampleMessage.envelope .clear wrapKey) sampleMessage.phrase := by
  obtain ⟨s, accepted⟩ := exists_of_isOk (x := Ui.settings sampleOptions Cli.sampleDraw)
    (by decide +kernel)
  refine ⟨s, _, accepted, stretch_sample s,
    (separated_iff (sampleKeys s) .clear sampleCalls (ideal_sample accepted) _ _).mpr ?_⟩
  rintro ⟨o, s', k, read, mem, -, salt, -⟩
  rw [made_sample accepted, List.mem_cons, List.mem_singleton] at mem
  obtain ⟨o', read', salt'⟩ := read_envelope sampleMessage .clear (.replicate KEY_BYTES 9)
  cases read.symm.trans read'
  rcases mem with other | same
  · cases other
  · cases same
    exact salts_sample accepted (salt'.symm.trans salt.symm)

/-- A vault of the user, sent back as a notification. -/
theorem repackaged_vault_opens : ¬ ∀ (pwhash : Pwhash) (aead : IdealAead) (calls : List Call),
    Ideal pwhash aead (calls.filterMap (Call.made pwhash)) →
    ∀ (envelope : Js.Value) (phrase : JsString),
      Separated pwhash aead (calls.filterMap (Call.made pwhash)) envelope phrase := by
  intro all
  obtain ⟨s, accepted⟩ := exists_of_isOk (x := Ui.settings sampleOptions Cli.sampleDraw)
    (by decide +kernel)
  have vaultKey := (Ui.settings_drawn accepted).2 rfl
  have mem : .vault s (.replicate KEY_BYTES 10) ∈
      sampleCalls.filterMap (Call.made (sampleKeys s)) := by
    rw [made_sample accepted]
    exact List.mem_cons_of_mem _ (List.mem_singleton_self _)
  obtain ⟨o, s', k, -, t, read, here, wrapped, -, -, decrypted⟩ :=
    decrypt_repackaged (repackages_repackaged .clear mem)
  obtain ⟨o', m, k', read', there, wrapped', -⟩ :=
    all (sampleKeys s) .clear sampleCalls (ideal_sample accepted) _ _ t decrypted
  cases read.symm.trans read'
  rw [made_sample accepted, List.mem_cons, List.mem_singleton] at here there
  rcases here with other | same
  · cases other
  · cases same
    rcases there with same | other
    · cases same
      have keys : s.vaultKey.val = sampleMessage.vaultKey.val := wrapped.symm.trans wrapped'
      rw [vaultKey] at keys
      exact absurd keys (by decide)
    · cases other

end Qev.Notify
