import Qev.Cli.Rewrap
import Qev.Ui.Decrypt

/-! `encryptVaultV2` of the desktop's interface (`chat.js`). What it encrypts and
the object it returns are made as on the command line. -/

namespace Qev.Ui

open Js (JsString js)
open Cli (DEFAULT_MEMLIMIT DEFAULT_OPSLIMIT Draw KEY_BYTES MAX_MEMLIMIT MAX_OPSLIMIT
  MAX_PLAINTEXT_BYTES MIN_MEMLIMIT MIN_OPSLIMIT NONCE_BYTES SALT_BYTES Settings Sodium bytesOr
  numberOr outOfRange utf8)

def VERSION : JsString := js "0.28.1"

/-- The options of `encryptVaultV2`; those that are `none` are not given. -/
structure EncryptOptions where
  plaintext : JsString
  password : JsString
  mode : JsString
  salt : Option Bytes
  wrapNonce : Option Bytes
  contentNonce : Option Bytes
  vaultKey : Option Bytes
  opslimit : Option Double
  memlimit : Option Double

def settings (opts : EncryptOptions) (draw : Draw) : Except JsString Settings :=
  let opslimit := numberOr opts.opslimit DEFAULT_OPSLIMIT
  let memlimit := numberOr opts.memlimit DEFAULT_MEMLIMIT
  if some_text : opts.plaintext = [] then .error (js "Type a message before encrypting")
  else if password_nonempty : opts.password = [] then
    .error (js "Type a phrase before encrypting")
  else if mode_known : ¬ (opts.mode = js "self" ∨ opts.mode = js "share") then
    .error (js "Pick a mode first")
  else do
    let salt ← bytesOr opts.salt draw.salt "Invalid salt (must be 16 bytes)"
    let wrapNonce ← bytesOr opts.wrapNonce draw.wrapNonce "Invalid wrap nonce (must be 24 bytes)"
    let contentNonce ← bytesOr opts.contentNonce draw.contentNonce
      "Invalid content nonce (must be 24 bytes)"
    let vaultKey ← bytesOr opts.vaultKey draw.vaultKey "Invalid vault_key (must be 32 bytes)"
    if opslimit_in : outOfRange opslimit MIN_OPSLIMIT MAX_OPSLIMIT then
      throw (js "opslimit out of range")
    else if memlimit_in : outOfRange memlimit MIN_MEMLIMIT MAX_MEMLIMIT then
      throw (js "memlimit out of range")
    else if ptBytes_small : (utf8 opts.plaintext).length > MAX_PLAINTEXT_BYTES then
      throw (js "Message too large (max 256 KiB)")
    else
      return { password := opts.password, mode := opts.mode, opslimit, memlimit,
               ptBytes := utf8 opts.plaintext, salt, wrapNonce, contentNonce, vaultKey,
               version := VERSION, created_at := draw.now, password_nonempty,
               mode_known := not_not.mp mode_known, opslimit_in, memlimit_in,
               ptBytes_nonempty := Cli.utf8_length_ne_zero some_text,
               ptBytes_small := Nat.not_lt.mp ptBytes_small }

def encryptVaultV2 (sodium : Sodium) (opts : EncryptOptions) (draw : Draw) :
    Except JsString Js.Value := do
  let s ← settings opts draw
  let wrapKey ← s.stretch sodium s.password
  return (s.lock sodium.aead wrapKey).toValue

theorem settings_eq_ok {opts : EncryptOptions} {draw : Draw} {s : Settings}
    (h : settings opts draw = .ok s) :
    s.password = opts.password ∧ s.ptBytes = utf8 opts.plaintext ∧ s.mode = opts.mode ∧
      s.version = VERSION ∧ s.created_at = draw.now ∧
      s.opslimit = numberOr opts.opslimit DEFAULT_OPSLIMIT ∧
      s.memlimit = numberOr opts.memlimit DEFAULT_MEMLIMIT := by
  unfold settings at h
  dsimp only at h
  split_ifs at h
  -- The limits are checked after the random values, so that each failure is behind them.
  all_goals
    obtain ⟨salt, -, h⟩ := bind_eq_ok.mp h
    obtain ⟨wrapNonce, -, h⟩ := bind_eq_ok.mp h
    obtain ⟨contentNonce, -, h⟩ := bind_eq_ok.mp h
    obtain ⟨vaultKey, -, h⟩ := bind_eq_ok.mp h
    cases h
  exact ⟨rfl, rfl, rfl, rfl, rfl, rfl, rfl⟩

/-- What is not given is drawn. -/
theorem settings_drawn {opts : EncryptOptions} {draw : Draw} {s : Settings}
    (h : settings opts draw = .ok s) : (opts.salt = none → s.salt = draw.salt) ∧
      (opts.vaultKey = none → s.vaultKey = draw.vaultKey) := by
  unfold settings at h
  dsimp only at h
  split_ifs at h
  all_goals
    obtain ⟨salt, drawn, h⟩ := bind_eq_ok.mp h
    obtain ⟨wrapNonce, -, h⟩ := bind_eq_ok.mp h
    obtain ⟨contentNonce, -, h⟩ := bind_eq_ok.mp h
    obtain ⟨vaultKey, drawn', h⟩ := bind_eq_ok.mp h
    cases h
  constructor
  · intro none
    rw [none] at drawn
    exact (Except.ok.inj drawn).symm
  · intro none
    rw [none] at drawn'
    exact (Except.ok.inj drawn').symm

end Qev.Ui
