import Qev.Ui.Encrypt
import Qev.Web.Agreement

/-! `encryptVaultV2` of the web lock (`qev.ts`), and what each of the three copies
of it makes in each of the three copies of `decryptVaultV2`. -/

namespace Qev.Web

open Js (JsString js)
open Cli (Draw KEY_BYTES MAX_MEMLIMIT MAX_OPSLIMIT MAX_PLAINTEXT_BYTES MIN_MEMLIMIT MIN_OPSLIMIT
  Plaintext Settings Sodium VERSION outOfRange plaintextBytes utf8)

inductive PresetKey where
  | quick
  | strong
  | vault
  deriving DecidableEq

structure Preset where
  opslimit : Nat
  memlimit : Nat

def LOCK_PRESETS : PresetKey → Preset
  | .quick => ⟨1, 32 * 1024 * 1024⟩
  | .strong => ⟨4, 96 * 1024 * 1024⟩
  | .vault => ⟨6, 128 * 1024 * 1024⟩

theorem LOCK_PRESETS_in (key : PresetKey) :
    ¬ outOfRange (.ofNat (LOCK_PRESETS key).opslimit) MIN_OPSLIMIT MAX_OPSLIMIT ∧
      ¬ outOfRange (.ofNat (LOCK_PRESETS key).memlimit) MIN_MEMLIMIT MAX_MEMLIMIT := by
  cases key <;> decide +kernel

inductive Mode where
  | self
  | share
  deriving DecidableEq

def Mode.text : Mode → JsString
  | .self => js "self"
  | .share => js "share"

theorem Mode.text_known (mode : Mode) : mode.text = js "self" ∨ mode.text = js "share" := by
  cases mode with
  | self => exact .inl rfl
  | share => exact .inr rfl

/-- The options of `encryptVaultV2`; those that are `none` are not given. -/
structure EncryptOptions where
  plaintext : Plaintext
  password : JsString
  mode : Option Mode
  preset : Option PresetKey

def settings (opts : EncryptOptions) (draw : Draw) : Except JsString Settings :=
  let mode := opts.mode.getD .self
  let key := opts.preset.getD .strong
  let ptBytes := plaintextBytes opts.plaintext
  if password_nonempty : opts.password = [] then .error (js "password is required")
  else if ptBytes_nonempty : ptBytes.length = 0 then .error (js "plaintext is empty")
  else if ptBytes_small : ptBytes.length > MAX_PLAINTEXT_BYTES then
    .error (js "plaintext too large; max is 256 KiB")
  else
    .ok { password := opts.password, mode := mode.text,
          opslimit := .ofNat (LOCK_PRESETS key).opslimit,
          memlimit := .ofNat (LOCK_PRESETS key).memlimit, ptBytes, salt := draw.salt,
          wrapNonce := draw.wrapNonce, contentNonce := draw.contentNonce,
          vaultKey := draw.vaultKey, version := VERSION, created_at := draw.now,
          password_nonempty, mode_known := mode.text_known, opslimit_in := (LOCK_PRESETS_in key).1,
          memlimit_in := (LOCK_PRESETS_in key).2, ptBytes_nonempty,
          ptBytes_small := Nat.not_lt.mp ptBytes_small }

def encryptVaultV2 (sodium : Sodium) (opts : EncryptOptions) (draw : Draw) :
    Except JsString Js.Value := do
  let s ← settings opts draw
  let wrapKey ← s.stretch sodium s.password
  return (s.lock sodium.aead wrapKey).toValue

theorem settings_eq_ok {opts : EncryptOptions} {draw : Draw} {s : Settings}
    (h : settings opts draw = .ok s) :
    s.password = opts.password ∧ s.ptBytes = plaintextBytes opts.plaintext ∧ s.salt = draw.salt ∧
      s.opslimit = .ofNat (LOCK_PRESETS (opts.preset.getD .strong)).opslimit ∧
      s.memlimit = .ofNat (LOCK_PRESETS (opts.preset.getD .strong)).memlimit := by
  unfold settings at h
  dsimp only at h
  split_ifs at h
  cases h
  exact ⟨rfl, rfl, rfl, rfl, rfl⟩

/-- Nothing else is refused. -/
theorem settings_isOk {opts : EncryptOptions} (draw : Draw) (password : opts.password ≠ [])
    (some_bytes : (plaintextBytes opts.plaintext).length ≠ 0)
    (small : (plaintextBytes opts.plaintext).length ≤ MAX_PLAINTEXT_BYTES) :
    ∃ s, settings opts draw = .ok s := by
  unfold settings
  dsimp only
  rw [dif_neg password, dif_neg some_bytes, dif_neg (Nat.not_lt.mpr small)]
  exact ⟨_, rfl⟩

end Qev.Web

namespace Qev

open Js (JsString js)
open Cli (Draw Settings Sodium Vault plaintextBytes readPlaintext rewrapChain utf8)

/-! ## Made anywhere -/

/-- What one of the three made of some bytes, under a password. -/
inductive Made (sodium : Sodium) : Js.Value → JsString → Bytes → Prop
  | cli {opts : Cli.EncryptOptions} {draw : Draw} {vault : Js.Value}
      (encrypted : Cli.encryptVaultV2 sodium opts draw = .ok vault) :
      Made sodium vault opts.password (plaintextBytes opts.plaintext)
  | ui {opts : Ui.EncryptOptions} {draw : Draw} {vault : Js.Value}
      (encrypted : Ui.encryptVaultV2 sodium opts draw = .ok vault) :
      Made sodium vault opts.password (utf8 opts.plaintext)
  | web {opts : Web.EncryptOptions} {draw : Draw} {vault : Js.Value}
      (encrypted : Web.encryptVaultV2 sodium opts draw = .ok vault) :
      Made sodium vault opts.password (plaintextBytes opts.plaintext)

section Locked

variable {sodium : Sodium} {vault : Js.Value} {password : JsString} {bytes : Bytes}

theorem Made.settings (made : Made sodium vault password bytes) :
    ∃ (s : Settings) (wrapKey : Bytes), s.password = password ∧ s.ptBytes = bytes ∧
      Js.Plain s.opslimit ∧ Js.Plain s.memlimit ∧ s.stretch sodium s.password = .ok wrapKey ∧
      vault = (s.lock sodium.aead wrapKey).toValue := by
  cases made with
  | cli encrypted =>
    obtain ⟨s, accepted, encrypted⟩ := bind_eq_ok.mp encrypted
    obtain ⟨wrapKey, stretched, encrypted⟩ := bind_eq_ok.mp encrypted
    cases encrypted
    obtain ⟨password, ptBytes, -⟩ := Cli.settings_eq_ok accepted
    obtain ⟨ops, mem⟩ := Settings.plain_of_settings accepted
    exact ⟨s, wrapKey, password, ptBytes, ops, mem, stretched, rfl⟩
  | ui encrypted =>
    obtain ⟨s, accepted, encrypted⟩ := bind_eq_ok.mp encrypted
    obtain ⟨wrapKey, stretched, encrypted⟩ := bind_eq_ok.mp encrypted
    cases encrypted
    obtain ⟨password, ptBytes, -, -, -, opslimit, memlimit⟩ := Ui.settings_eq_ok accepted
    obtain ⟨ops, mem⟩ := Settings.plain_of_numberOr opslimit memlimit
    exact ⟨s, wrapKey, password, ptBytes, ops, mem, stretched, rfl⟩
  | web encrypted =>
    obtain ⟨s, accepted, encrypted⟩ := bind_eq_ok.mp encrypted
    obtain ⟨wrapKey, stretched, encrypted⟩ := bind_eq_ok.mp encrypted
    cases encrypted
    obtain ⟨password, ptBytes, -, opslimit, memlimit⟩ := Web.settings_eq_ok accepted
    refine ⟨s, wrapKey, password, ptBytes, ?_, ?_, stretched, rfl⟩
    · refine Cli.plain_of_inRange (by decide) s.opslimit_in ?_
      rw [opslimit]
      exact Settings.ofNat_ne_nan _
    · refine Cli.plain_of_inRange (by decide) s.memlimit_in ?_
      rw [memlimit]
      exact Settings.ofNat_ne_nan _

theorem reads_toValue (v : Vault) : Reads v.toValue v where
  schema := rfl
  version := rfl
  created_at := rfl
  mode := rfl
  kdf := ⟨_, rfl, rfl, rfl, rfl, rfl⟩
  wrap := ⟨_, rfl, rfl, rfl, rfl⟩
  content := ⟨_, rfl, rfl, rfl, rfl⟩

/-- Where the limits are kept and every field is canonical, the three are one. -/
theorem agree_of_canonical {v : Vault} (reads : Reads vault v) (caps : InCaps v)
    (canonical : Canonical v) (typed : JsString) : Agree sodium vault typed := by
  have cli_of_ui (s : JsString) (bytes : Bytes) (h : Ui.b64urlDecode s = .ok bytes) :
      Cli.b64urlDecode s = .ok bytes := cli_of_web (web_of_ui h)
  constructor
  · apply Option.ext
    intro t
    rw [toOption_eq_some, toOption_eq_some, ui_decrypts, cli_decrypts]
    constructor
    · rintro ⟨v', d, reads', supported, caps', nonempty, decodes, opens⟩
      exact ⟨v', d, reads', supported, caps', nonempty, decodes.widen cli_of_ui, opens⟩
    · rintro ⟨v', d, reads', supported, caps', nonempty, decodes, opens⟩
      cases reads.unique reads'
      exact ⟨v, d, reads, supported, caps, nonempty, decodes.narrow cli_of_ui canonical, opens⟩
  · apply Option.ext
    intro t
    rw [toOption_eq_some, toOption_eq_some, web_decrypts, cli_decrypts]
    constructor
    · rintro ⟨v', d, reads', supported, nonempty, decodes, opens⟩
      cases reads.unique reads'
      exact ⟨v, d, reads, supported, caps, nonempty, decodes.widen fun _ _ => cli_of_web, opens⟩
    · rintro ⟨v', d, reads', supported, caps', nonempty, decodes, opens⟩
      cases reads.unique reads'
      have narrow := decodes.narrow cli_of_ui canonical
      exact ⟨v, d, reads, supported, nonempty, narrow.widen fun _ _ => web_of_ui, opens⟩

/-- What libsodium writes it reads again. -/
theorem lock_canonical (s : Settings) (aead : Aead) (wrapKey : Bytes) :
    Canonical (s.lock aead wrapKey) := by
  have each (bytes : Bytes) : (Ui.b64urlDecode (Cli.b64urlEncode bytes)).isOk = true := by
    rw [Ui.b64urlDecode_b64urlEncode]
    rfl
  simp only [Canonical, encodedFields, List.forall_mem_cons]
  exact ⟨each _, each _, each _, each _, each _, fun _ mem => absurd mem List.not_mem_nil⟩

theorem lock_agree (s : Settings) (wrapKey : Bytes) (typed : JsString) :
    Agree sodium (s.lock sodium.aead wrapKey).toValue typed :=
  agree_of_canonical (reads_toValue _) ⟨s.opslimit_in, s.memlimit_in⟩ (lock_canonical s _ _) typed

/-- Its text is read back, indented or not. -/
theorem parseJson_toValue {v : Vault} (ops : Js.Plain v.kdf.opslimit)
    (mem : Js.Plain v.kdf.memlimit) :
    Js.parseJson (Json.print Js.printer v.toValue) = some v.toValue ∧
      Js.parseJson (Js.stringify v.toValue) = some v.toValue := by
  have plain : Json.Numbers Js.Plain v.toValue := by
    simp only [Vault.toValue, Json.Numbers, Json.NumbersFields, true_and, and_true]
    exact ⟨ops, mem⟩
  have ordered := Cli.ordered_toValue v
  have indented := Js.parseJson_stringify ordered (List.forall_mem_nil _)
  rw [List.append_nil] at indented
  rw [Js.parseJson_print ordered, indented, Js.written_eq_self _ plain]
  exact ⟨rfl, rfl⟩

end Locked

/-- A vault that any of the three made, rewrapped from phrase to phrase on the
command line, is read from its text as it was written, indented or not; each of
the three opens it with the latest phrase, to the text that the plaintext's bytes
are, or else finds them no text; and whatever is typed, all of them open it to the
same or none opens it, and this last for every other phrase. -/
theorem opens_everywhere {sodium : Sodium} {made vault : Js.Value} {password : JsString}
    {bytes : Bytes} {phrases : List JsString} {log : List Sealed}
    (encrypted : Made sodium made password bytes)
    (chained : rewrapChain sodium made password phrases = .ok (vault, log)) :
    Js.parseJson (Json.print Js.printer vault) = some vault ∧
    Js.parseJson (Js.stringify vault) = some vault ∧
    (∀ typed, Agree sodium vault typed) ∧
    Cli.decryptVaultV2 sodium vault (phrases.getLastD password) = readPlaintext bytes ∧
    ((∀ v, Cli.validateVaultSchemaV2 vault = .ok v →
        Cli.Ideal sodium v (phrases.getLastD password)) →
      ∀ wrong, utf8 wrong ≠ utf8 (phrases.getLastD password) →
        ∃ e, Cli.decryptVaultV2 sodium vault wrong = .error e) := by
  obtain ⟨s, wrapKey, rfl, rfl, ops, mem, stretched, rfl⟩ := encrypted.settings
  obtain ⟨nonempty, ⟨key, last_stretched, rfl⟩, -⟩ :=
    Settings.rewrapChain_lock ops mem s.password_nonempty stretched chained
  obtain ⟨compact, indented⟩ := parseJson_toValue (v := s.lock sodium.aead key) ops mem
  refine ⟨compact, indented, lock_agree s key, Cli.decrypt_lock_with nonempty last_stretched, ?_⟩
  intro all wrong other
  have ideal := all _ (Cli.validate_toValue (s.lock_valid sodium.aead key))
  exact Cli.decrypt_wrong ideal last_stretched other

def sampleLock : Web.EncryptOptions := ⟨.text (js "hello"), js "correct horse", none, none⟩

theorem web_vault_opens_everywhere : ∃ (sodium : Sodium) (vault : Js.Value),
    Web.encryptVaultV2 sodium sampleLock Cli.sampleDraw = .ok vault ∧
    Ui.decryptVaultV2 sodium vault (js "correct horse") = .ok (js "hello") ∧
    Web.decryptVaultV2 sodium vault (js "correct horse") = .ok (js "hello") ∧
    ∃ e, Cli.decryptVaultV2 sodium vault (js "battery staple") = .error e := by
  have other : utf8 (js "battery staple") ≠ utf8 (js "correct horse") := by decide
  obtain ⟨s, accepted⟩ : ∃ s, Web.settings sampleLock Cli.sampleDraw = .ok s :=
    Web.settings_isOk Cli.sampleDraw (by decide) (by decide) (by decide)
  obtain ⟨password, -⟩ := Web.settings_eq_ok accepted
  let sodium := Cli.markedSodium s (js "correct horse")
  have stretched : s.stretch sodium (js "correct horse") = .ok (.replicate Cli.KEY_BYTES 1) :=
    congrArg Except.ok (congrArg (List.replicate Cli.KEY_BYTES) (if_pos rfl))
  have encrypted : Web.encryptVaultV2 sodium sampleLock Cli.sampleDraw =
      .ok (s.lock sodium.aead (.replicate Cli.KEY_BYTES 1)).toValue := by
    rw [Web.encryptVaultV2, accepted, ok_bind, password]
    exact congrArg (· >>= fun key => .ok (s.lock sodium.aead key).toValue) stretched
  have ideal (v : Vault) (read : Cli.validateVaultSchemaV2
      (s.lock sodium.aead (.replicate Cli.KEY_BYTES 1)).toValue = .ok v) :
      Cli.Ideal sodium v (js "correct horse") := by
    rw [Cli.validate_toValue (s.lock_valid _ _)] at read
    cases read
    exact Cli.ideal_marked s _
  have chained : rewrapChain sodium (s.lock sodium.aead (.replicate Cli.KEY_BYTES 1)).toValue
      sampleLock.password [] = .ok (_, []) := rfl
  obtain ⟨-, -, agree, opened, wrongs⟩ := opens_everywhere (.web encrypted) chained
  have text : readPlaintext (plaintextBytes sampleLock.plaintext) = .ok (js "hello") := by
    decide +kernel
  have opened : Cli.decryptVaultV2 sodium _ (js "correct horse") = .ok (js "hello") :=
    opened.trans text
  obtain ⟨ui, web⟩ := agree (js "correct horse")
  rw [opened] at ui web
  exact ⟨sodium, _, encrypted, toOption_eq_some.mp ui, toOption_eq_some.mp web,
    wrongs ideal _ other⟩

end Qev
