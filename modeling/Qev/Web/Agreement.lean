import Qev.Web.Reading

/-! Which vaults the three copies of `decryptVaultV2` open alike. -/

namespace Qev

open Js (JsString js)
open Cli (AEAD_ALG Decoded KDF_ALG SCHEMA_V2 Sodium Vault constant_iff get
  nonEmptyString_iff numberIn_iff string_iff)

/-! ## The command line -/

section Readers

variable {value : Js.Value} {v : Vault} {d : Decoded} {sodium : Sodium} {password t : JsString}

theorem reads_of_cli (h : Cli.validateVaultSchemaV2 value = .ok v) : Reads value v := by
  obtain ⟨o, whole, h⟩ := bind_eq_ok.mp h
  obtain rfl := Option.some.inj (object_eq_ok whole)
  obtain ⟨schema, schema_ok, h⟩ := bind_eq_ok.mp h
  obtain ⟨version, version_ok, h⟩ := bind_eq_ok.mp h
  obtain ⟨created_at, created_ok, h⟩ := bind_eq_ok.mp h
  obtain ⟨mode, mode_ok, h⟩ := bind_eq_ok.mp h
  obtain ⟨kdf, kdf_ok, h⟩ := bind_eq_ok.mp h
  obtain ⟨wrap, wrap_ok, h⟩ := bind_eq_ok.mp h
  obtain ⟨content, content_ok, h⟩ := bind_eq_ok.mp h
  cases h
  obtain ⟨k, k_ok, kdf_ok⟩ := bind_eq_ok.mp kdf_ok
  obtain ⟨ka, ka_ok, kdf_ok⟩ := bind_eq_ok.mp kdf_ok
  obtain ⟨ko, ko_ok, kdf_ok⟩ := bind_eq_ok.mp kdf_ok
  obtain ⟨km, km_ok, kdf_ok⟩ := bind_eq_ok.mp kdf_ok
  obtain ⟨ks, ks_ok, kdf_ok⟩ := bind_eq_ok.mp kdf_ok
  cases kdf_ok
  obtain ⟨p, p_ok, wrap_ok⟩ := bind_eq_ok.mp wrap_ok
  obtain ⟨pa, pa_ok, wrap_ok⟩ := bind_eq_ok.mp wrap_ok
  obtain ⟨pn, pn_ok, wrap_ok⟩ := bind_eq_ok.mp wrap_ok
  obtain ⟨pk, pk_ok, wrap_ok⟩ := bind_eq_ok.mp wrap_ok
  cases wrap_ok
  obtain ⟨c, c_ok, content_ok⟩ := bind_eq_ok.mp content_ok
  obtain ⟨ca, ca_ok, content_ok⟩ := bind_eq_ok.mp content_ok
  obtain ⟨cn, cn_ok, content_ok⟩ := bind_eq_ok.mp content_ok
  obtain ⟨cc, cc_ok, content_ok⟩ := bind_eq_ok.mp content_ok
  cases content_ok
  exact {
    schema := (constant_iff.mp schema_ok).1
    version := string_iff.mp version_ok
    created_at := string_iff.mp created_ok
    mode := (Cli.modeOf_iff.mp mode_ok).1
    kdf := ⟨k, object_eq_ok k_ok, (constant_iff.mp ka_ok).1, (numberIn_iff.mp ko_ok).1,
      (numberIn_iff.mp km_ok).1, (nonEmptyString_iff.mp ks_ok).1⟩
    wrap := ⟨p, object_eq_ok p_ok, (constant_iff.mp pa_ok).1, (nonEmptyString_iff.mp pn_ok).1,
      (nonEmptyString_iff.mp pk_ok).1⟩
    content := ⟨c, object_eq_ok c_ok, (constant_iff.mp ca_ok).1, (nonEmptyString_iff.mp cn_ok).1,
      (nonEmptyString_iff.mp cc_ok).1⟩ }

theorem cli_of_reads (reads : Reads value v) (valid : v.Valid) :
    Cli.validateVaultSchemaV2 value = .ok v := by
  obtain ⟨k, kdf, ka, ko, km, ks⟩ := reads.kdf
  obtain ⟨p, wrap, pa, pn, pk⟩ := reads.wrap
  obtain ⟨c, content, ca, cn, cc⟩ := reads.content
  have kdf_ok : Cli.enforceKdfCaps (some k) = .ok v.kdf := by
    rw [Cli.enforceKdfCaps, object_of_get ka, ok_bind, constant_iff.mpr ⟨ka, valid.kdf_algorithm⟩,
      ok_bind, numberIn_iff.mpr ⟨ko, valid.opslimit⟩, ok_bind,
      numberIn_iff.mpr ⟨km, valid.memlimit⟩, ok_bind, nonEmptyString_iff.mpr ⟨ks, valid.salt⟩]
    rfl
  have wrap_ok : Cli.wrapOf (some p) = .ok v.wrap := by
    rw [Cli.wrapOf, object_of_get pa, ok_bind, constant_iff.mpr ⟨pa, valid.wrap_algorithm⟩, ok_bind,
      nonEmptyString_iff.mpr ⟨pn, valid.wrap_nonce⟩, ok_bind,
      nonEmptyString_iff.mpr ⟨pk, valid.wrapped_key⟩]
    rfl
  have content_ok : Cli.contentOf (some c) = .ok v.content := by
    rw [Cli.contentOf, object_of_get ca, ok_bind, constant_iff.mpr ⟨ca, valid.content_algorithm⟩,
      ok_bind, nonEmptyString_iff.mpr ⟨cn, valid.content_nonce⟩, ok_bind,
      nonEmptyString_iff.mpr ⟨cc, valid.ciphertext⟩]
    rfl
  rw [Cli.validateVaultSchemaV2, object_of_get reads.schema, ok_bind,
    constant_iff.mpr ⟨reads.schema, valid.schema⟩, ok_bind, string_iff.mpr reads.version, ok_bind,
    string_iff.mpr reads.created_at, ok_bind, Cli.modeOf_iff.mpr ⟨reads.mode, valid.mode⟩, ok_bind,
    kdf, kdf_ok, ok_bind, wrap, wrap_ok, ok_bind, content, content_ok]
  rfl

theorem cli_lengthError (d : Decoded) : Cli.lengthError d = none ↔ Sized d := lengthError_iff

theorem cli_decodeFields : Cli.decodeFields v = .ok d ↔ Decodes Cli.b64urlDecode v d :=
  (decodeFields_iff cli_lengthError).trans decodes_iff.symm

theorem cli_unlock {aad wrapKey plaintextBytes : Bytes} (sized : Sized d) :
    Cli.unlock sodium.aead aad d wrapKey = .ok plaintextBytes ↔ ∃ vaultKey,
      sodium.aead.decrypt wrapKey d.wrapNonce aad d.wrappedKey = some vaultKey ∧
      sodium.aead.decrypt vaultKey d.contentNonce aad d.contentCt = some plaintextBytes :=
  decryptions_iff sized

theorem Decodes.nonempty {decode : JsString → Except JsString Bytes} (empty : decode [] = .ok [])
    (h : Decodes decode v d) : v.kdf.salt ≠ [] ∧ v.wrap.nonce ≠ [] ∧ v.wrap.wrapped_key ≠ [] ∧
      v.content.nonce ≠ [] ∧ v.content.ciphertext ≠ [] := by
  have length {s : JsString} {bytes : Bytes} (read : decode s = .ok bytes)
      (some_ : bytes.length ≠ 0) : s ≠ [] := by
    rintro rfl
    cases empty.symm.trans read
    exact some_ rfl
  exact ⟨length h.salt (by rw [h.sized.salt]; decide),
    length h.wrapNonce (by rw [h.sized.wrapNonce]; decide),
    length h.wrappedKey (by rw [h.sized.wrappedKey]; decide),
    length h.contentNonce (by rw [h.sized.contentNonce]; decide),
    length h.contentCt h.sized.contentCt⟩

/-- What the command line opens. -/
theorem cli_decrypts : Cli.decryptVaultV2 sodium value password = .ok t ↔
    ∃ v d, Reads value v ∧ Supported v ∧ InCaps v ∧ password ≠ [] ∧
      Decodes Cli.b64urlDecode v d ∧ Opens sodium v d password t := by
  constructor
  · intro h
    obtain ⟨v, checked, h⟩ := bind_eq_ok.mp h
    have valid := Cli.valid_of_validate checked
    by_cases none : password = []
    · rw [if_pos none] at h
      cases h
    rw [if_neg none] at h
    obtain ⟨d, decoded, h⟩ := bind_eq_ok.mp h
    obtain ⟨wrapKey, stretched, h⟩ := bind_eq_ok.mp h
    obtain ⟨plaintextBytes, opened, h⟩ := bind_eq_ok.mp h
    have decodes := cli_decodeFields.mp decoded
    obtain ⟨vaultKey, unwrapped, content⟩ := (cli_unlock decodes.sized).mp opened
    refine ⟨v, d, reads_of_cli checked, ⟨valid.schema, valid.mode, valid.kdf_algorithm,
      valid.wrap_algorithm, valid.content_algorithm⟩, ⟨valid.opslimit, valid.memlimit⟩, none,
      decodes, wrapKey, vaultKey, plaintextBytes, stretched, unwrapped, content, ?_⟩
    rw [Cli.readPlaintext] at h
    split at h
    · cases h
    · rename_i text read
      cases h
      exact read
  · rintro ⟨v, d, reads, supported, caps, nonempty, decodes, wrapKey, vaultKey, plaintextBytes,
      stretched, unwrapped, content, read⟩
    obtain ⟨salt, wrapNonce, wrapped_key, contentNonce, ciphertext⟩ :=
      decodes.nonempty (by decide)
    have valid : v.Valid := {
      schema := supported.schema
      mode := supported.mode
      kdf_algorithm := supported.kdf
      opslimit := caps.1
      memlimit := caps.2
      salt := salt
      wrap_algorithm := supported.wrap
      wrap_nonce := wrapNonce
      wrapped_key := wrapped_key
      content_algorithm := supported.content
      content_nonce := contentNonce
      ciphertext := ciphertext }
    have opened := (cli_unlock decodes.sized).mpr ⟨vaultKey, unwrapped, content⟩
    rw [Cli.decryptVaultV2, cli_of_reads reads valid, ok_bind, if_neg nonempty,
      cli_decodeFields.mpr decodes, ok_bind, stretched, ok_bind, opened, ok_bind, Cli.readPlaintext,
      read]

/-! ## The desktop -/

theorem reads_of_ui (h : Ui.validateVaultSchemaV2 value = .ok v) :
    Reads value v ∧ Supported v ∧ InCaps v := by
  obtain ⟨common, common_ok, h⟩ := bind_eq_ok.mp h
  obtain ⟨o, whole, common_ok⟩ := bind_eq_ok.mp common_ok
  obtain rfl := Option.some.inj (object_eq_ok whole)
  obtain ⟨version, version_ok, common_ok⟩ := bind_eq_ok.mp common_ok
  obtain ⟨created_at, created_ok, common_ok⟩ := bind_eq_ok.mp common_ok
  obtain ⟨mode, mode_ok, common_ok⟩ := bind_eq_ok.mp common_ok
  obtain ⟨kdf, kdf_ok, common_ok⟩ := bind_eq_ok.mp common_ok
  cases common_ok
  obtain ⟨k, k_ok, kdf_ok⟩ := bind_eq_ok.mp kdf_ok
  obtain ⟨ka, ka_ok, kdf_ok⟩ := bind_eq_ok.mp kdf_ok
  obtain ⟨ko, ko_ok, kdf_ok⟩ := bind_eq_ok.mp kdf_ok
  obtain ⟨km, km_ok, kdf_ok⟩ := bind_eq_ok.mp kdf_ok
  obtain ⟨ks, ks_ok, kdf_ok⟩ := bind_eq_ok.mp kdf_ok
  cases kdf_ok
  obtain ⟨schema, schema_ok, h⟩ := bind_eq_ok.mp h
  obtain ⟨p, p_ok, h⟩ := bind_eq_ok.mp h
  obtain ⟨pn, pn_ok, h⟩ := bind_eq_ok.mp h
  obtain ⟨pk, pk_ok, h⟩ := bind_eq_ok.mp h
  obtain ⟨c, c_ok, h⟩ := bind_eq_ok.mp h
  obtain ⟨cn, cn_ok, h⟩ := bind_eq_ok.mp h
  obtain ⟨cc, cc_ok, h⟩ := bind_eq_ok.mp h
  cases h
  obtain ⟨wrap, wrap_algorithm⟩ := uiPart_eq_ok p_ok
  obtain ⟨content, content_algorithm⟩ := uiPart_eq_ok c_ok
  have schema_ok := constant_iff.mp schema_ok
  have mode_ok := uiMode_iff.mp mode_ok
  have ka_ok := constant_iff.mp ka_ok
  have ko_ok := numberIn_iff.mp ko_ok
  have km_ok := numberIn_iff.mp km_ok
  refine ⟨?_, ⟨schema_ok.2, mode_ok.2, ka_ok.2, rfl, rfl⟩, ko_ok.2, km_ok.2⟩
  exact {
    schema := schema_ok.1
    version := string_iff.mp version_ok
    created_at := string_iff.mp created_ok
    mode := mode_ok.1
    kdf := ⟨k, object_eq_ok k_ok, ka_ok.1, ko_ok.1, km_ok.1, string_iff.mp ks_ok⟩
    wrap := ⟨p, wrap, wrap_algorithm, string_iff.mp pn_ok, string_iff.mp pk_ok⟩
    content := ⟨c, content, content_algorithm, string_iff.mp cn_ok, string_iff.mp cc_ok⟩ }

theorem ui_of_reads (reads : Reads value v) (supported : Supported v) (caps : InCaps v) :
    Ui.validateVaultSchemaV2 value = .ok v := by
  obtain ⟨k, kdf, ka, ko, km, ks⟩ := reads.kdf
  obtain ⟨p, wrap, pa, pn, pk⟩ := reads.wrap
  obtain ⟨c, content, ca, cn, cc⟩ := reads.content
  have kdf_ok : Ui.enforceKdfCaps (some k) = .ok v.kdf := by
    rw [Ui.enforceKdfCaps, object_of_get ka, ok_bind, constant_iff.mpr ⟨ka, supported.kdf⟩,
      ok_bind, numberIn_iff.mpr ⟨ko, caps.1⟩, ok_bind, numberIn_iff.mpr ⟨km, caps.2⟩, ok_bind,
      string_iff.mpr ks]
    rfl
  have common_ok : Ui.validateCommonVaultFields value =
      .ok ⟨v.version, v.created_at, v.mode, v.kdf⟩ := by
    rw [Ui.validateCommonVaultFields, object_of_get reads.schema, ok_bind,
      string_iff.mpr reads.version, ok_bind, string_iff.mpr reads.created_at, ok_bind,
      uiMode_iff.mpr ⟨reads.mode, supported.mode⟩, ok_bind, kdf, kdf_ok]
    rfl
  have wrap_eq : (⟨AEAD_ALG, v.wrap.nonce, v.wrap.wrapped_key⟩ : Cli.Wrap) = v.wrap := by
    rw [← supported.wrap]
  have content_eq : (⟨AEAD_ALG, v.content.nonce, v.content.ciphertext⟩ : Cli.Content) =
      v.content := by
    rw [← supported.content]
  rw [Ui.validateVaultSchemaV2, common_ok, ok_bind,
    constant_iff.mpr ⟨reads.schema, supported.schema⟩, ok_bind, wrap,
    uiPart_of_get (supported.wrap ▸ pa), ok_bind, string_iff.mpr pn, ok_bind, string_iff.mpr pk,
    ok_bind, content, uiPart_of_get (supported.content ▸ ca), ok_bind, string_iff.mpr cn, ok_bind,
    string_iff.mpr cc, ok_bind, wrap_eq, content_eq]
  rfl

theorem ui_lengthError (d : Decoded) : Ui.lengthError d = none ↔ Sized d := lengthError_iff

theorem ui_decodeFields : Ui.decodeFields v = .ok d ↔ Decodes Ui.b64urlDecode v d :=
  (decodeFields_iff ui_lengthError).trans decodes_iff.symm

theorem ui_unlock {aad wrapKey plaintextBytes : Bytes} (sized : Sized d) :
    Ui.unlock sodium.aead aad d wrapKey = .ok plaintextBytes ↔ ∃ vaultKey,
      sodium.aead.decrypt wrapKey d.wrapNonce aad d.wrappedKey = some vaultKey ∧
      sodium.aead.decrypt vaultKey d.contentNonce aad d.contentCt = some plaintextBytes :=
  decryptions_iff sized

/-- What the desktop opens. -/
theorem ui_decrypts : Ui.decryptVaultV2 sodium value password = .ok t ↔
    ∃ v d, Reads value v ∧ Supported v ∧ InCaps v ∧ password ≠ [] ∧
      Decodes Ui.b64urlDecode v d ∧ Opens sodium v d password t := by
  constructor
  · intro h
    obtain ⟨v, checked, h⟩ := bind_eq_ok.mp h
    obtain ⟨reads, supported, caps⟩ := reads_of_ui checked
    by_cases none : password = []
    · rw [if_pos none] at h
      cases h
    rw [if_neg none] at h
    obtain ⟨d, decoded, h⟩ := bind_eq_ok.mp h
    obtain ⟨wrapKey, stretched, h⟩ := bind_eq_ok.mp h
    obtain ⟨plaintextBytes, opened, h⟩ := bind_eq_ok.mp h
    have decodes := ui_decodeFields.mp decoded
    obtain ⟨vaultKey, unwrapped, content⟩ := (ui_unlock decodes.sized).mp opened
    refine ⟨v, d, reads, supported, caps, none, decodes, wrapKey, vaultKey, plaintextBytes,
      stretched, unwrapped, content, ?_⟩
    split at h
    · cases h
    · rename_i text read
      cases h
      exact read
  · rintro ⟨v, d, reads, supported, caps, nonempty, decodes, wrapKey, vaultKey, plaintextBytes,
      stretched, unwrapped, content, read⟩
    have opened := (ui_unlock decodes.sized).mpr ⟨vaultKey, unwrapped, content⟩
    rw [Ui.decryptVaultV2, ui_of_reads reads supported caps, ok_bind, if_neg nonempty,
      ui_decodeFields.mpr decodes, ok_bind, stretched, ok_bind, opened, ok_bind, read]
    rfl

/-! ## The web -/

theorem web_lengthError (d : Decoded) : Web.lengthError d = none ↔ Sized d := lengthError_iff

theorem web_unlock {aad wrapKey plaintextBytes : Bytes} :
    Web.unlock sodium.aead aad d wrapKey = .ok plaintextBytes ↔ ∃ vaultKey,
      sodium.aead.decrypt wrapKey d.wrapNonce aad d.wrappedKey = some vaultKey ∧
      sodium.aead.decrypt vaultKey d.contentNonce aad d.contentCt = some plaintextBytes := by
  unfold Web.unlock
  split
  · rename_i failed
    simp [failed]
  · rename_i vaultKey opened
    split
    · rename_i failed
      simp [opened, failed]
    · rename_i bytes found
      simp [opened, found]

/-- The vault as the web checks it, where the fields it decodes are text. -/
def Checks (v : Vault) (c : Web.Checked) : Prop :=
  c = ⟨v.version, v.created_at, v.mode, c.opslimit, c.memlimit, .str v.kdf.salt, .str v.wrap.nonce,
    .str v.wrap.wrapped_key, .str v.content.nonce, .str v.content.ciphertext⟩

theorem reads_of_web {c : Web.Checked} (h : Web.validateVaultSchemaV2 value = .ok c)
    (decoded : Web.decodeFields c = .ok d) {opslimit memlimit : Double}
    (ops : c.opslimit = some (.num opslimit)) (mem : c.memlimit = some (.num memlimit)) :
    ∃ v, Reads value v ∧ Supported v ∧ v.kdf.opslimit = opslimit ∧ v.kdf.memlimit = memlimit ∧
      Checks v c ∧ Decodes (fun s => Web.b64urlDecode (.str s)) v d := by
  obtain ⟨o, whole, h⟩ := bind_eq_ok.mp h
  obtain rfl := Option.some.inj (object_eq_ok whole)
  obtain ⟨_, schema_ok, h⟩ := bind_eq_ok.mp h
  obtain ⟨version, version_ok, h⟩ := bind_eq_ok.mp h
  obtain ⟨created_at, created_ok, h⟩ := bind_eq_ok.mp h
  obtain ⟨mode, mode_ok, h⟩ := bind_eq_ok.mp h
  obtain ⟨k, k_ok, h⟩ := bind_eq_ok.mp h
  obtain ⟨p, p_ok, h⟩ := bind_eq_ok.mp h
  obtain ⟨q, q_ok, h⟩ := bind_eq_ok.mp h
  obtain ⟨salt, salt_ok, h⟩ := bind_eq_ok.mp h
  obtain ⟨wrapNonce, wrapNonce_ok, h⟩ := bind_eq_ok.mp h
  obtain ⟨wrapped_key, wrapped_ok, h⟩ := bind_eq_ok.mp h
  obtain ⟨contentNonce, contentNonce_ok, h⟩ := bind_eq_ok.mp h
  obtain ⟨ciphertext, ciphertext_ok, h⟩ := bind_eq_ok.mp h
  cases h
  obtain ⟨read₁, read₂, read₃, read₄, read₅, sized⟩ :=
    (decodeFields_iff web_lengthError).mp decoded
  obtain ⟨s₁, rfl⟩ := string_of_web read₁
  obtain ⟨s₂, rfl⟩ := string_of_web read₂
  obtain ⟨s₃, rfl⟩ := string_of_web read₃
  obtain ⟨s₄, rfl⟩ := string_of_web read₄
  obtain ⟨s₅, rfl⟩ := string_of_web read₅
  obtain ⟨kdf, kdf_algorithm⟩ := webPart_iff.mp k_ok
  obtain ⟨wrap, wrap_algorithm⟩ := webPart_iff.mp p_ok
  obtain ⟨content, content_algorithm⟩ := webPart_iff.mp q_ok
  obtain ⟨mode_read, known⟩ := webMode_iff.mp mode_ok
  refine ⟨⟨SCHEMA_V2, version, created_at, mode, ⟨KDF_ALG, opslimit, memlimit, s₁⟩,
    ⟨AEAD_ALG, s₂, s₃⟩, ⟨AEAD_ALG, s₄, s₅⟩⟩, ?_, ⟨rfl, known, rfl, rfl, rfl⟩, rfl, rfl, rfl, ?_⟩
  · exact {
      schema := webConstant_iff.mp schema_ok
      version := webString_iff.mp version_ok
      created_at := webString_iff.mp created_ok
      mode := mode_read
      kdf := ⟨k, kdf, kdf_algorithm, ops, mem, (required_iff.mp salt_ok).1⟩
      wrap := ⟨p, wrap, wrap_algorithm, (required_iff.mp wrapNonce_ok).1,
        (required_iff.mp wrapped_ok).1⟩
      content := ⟨q, content, content_algorithm, (required_iff.mp contentNonce_ok).1,
        (required_iff.mp ciphertext_ok).1⟩ }
  · exact ⟨read₁, read₂, read₃, read₄, read₅, sized⟩

theorem web_of_reads (reads : Reads value v) (supported : Supported v)
    (decodes : Decodes (fun s => Web.b64urlDecode (.str s)) v d) :
    ∃ c, Web.validateVaultSchemaV2 value = .ok c ∧ Checks v c ∧
      c.opslimit = some (.num v.kdf.opslimit) ∧ c.memlimit = some (.num v.kdf.memlimit) ∧
      Web.decodeFields c = .ok d := by
  obtain ⟨k, kdf, ka, ko, km, ks⟩ := reads.kdf
  obtain ⟨p, wrap, pa, pn, pk⟩ := reads.wrap
  obtain ⟨q, content, ca, cn, cc⟩ := reads.content
  obtain ⟨salt, wrapNonce, wrapped_key, contentNonce, ciphertext⟩ :=
    decodes.nonempty (by decide)
  have text {s : JsString} (nonempty : s ≠ []) : Js.truthy (some (.str s)) = true :=
    decide_eq_true nonempty
  refine ⟨⟨v.version, v.created_at, v.mode, get k "opslimit", get k "memlimit", .str v.kdf.salt,
    .str v.wrap.nonce, .str v.wrap.wrapped_key, .str v.content.nonce, .str v.content.ciphertext⟩,
    ?_, rfl, ko, km, ?_⟩
  · rw [Web.validateVaultSchemaV2, object_of_get reads.schema, ok_bind,
      webConstant_iff.mpr (supported.schema ▸ reads.schema), ok_bind,
      webString_iff.mpr reads.version, ok_bind, webString_iff.mpr reads.created_at, ok_bind,
      webMode_iff.mpr ⟨reads.mode, supported.mode⟩, ok_bind,
      webPart_iff.mpr ⟨kdf, supported.kdf ▸ ka⟩, ok_bind,
      webPart_iff.mpr ⟨wrap, supported.wrap ▸ pa⟩, ok_bind,
      webPart_iff.mpr ⟨content, supported.content ▸ ca⟩, ok_bind,
      required_iff.mpr ⟨ks, text salt⟩, ok_bind, required_iff.mpr ⟨pn, text wrapNonce⟩, ok_bind,
      required_iff.mpr ⟨pk, text wrapped_key⟩, ok_bind, required_iff.mpr ⟨cn, text contentNonce⟩,
      ok_bind, required_iff.mpr ⟨cc, text ciphertext⟩]
    rfl
  · exact (decodeFields_iff web_lengthError).mpr (decodes_iff.mp decodes)

/-- The web builds the same associated data. -/
theorem web_buildAADV2 {c : Web.Checked} (checks : Checks v c) (supported : Supported v) :
    Web.buildAADV2 c v.kdf.opslimit v.kdf.memlimit = Cli.buildAADV2 v := by
  have object : Web.aadObj c v.kdf.opslimit v.kdf.memlimit = Cli.aadObj v := by
    rw [checks, Cli.aadObj, supported.schema, supported.kdf, supported.wrap, supported.content]
    rfl
  rw [Web.buildAADV2, object, Cli.buildAADV2]

/-- What the web opens. -/
theorem web_decrypts : Web.decryptVaultV2 sodium value password = .ok t ↔
    ∃ v d, Reads value v ∧ Supported v ∧ password ≠ [] ∧
      Decodes (fun s => Web.b64urlDecode (.str s)) v d ∧ Opens sodium v d password t := by
  constructor
  · intro h
    obtain ⟨c, checked, h⟩ := bind_eq_ok.mp h
    by_cases none : password = []
    · rw [if_pos none] at h
      cases h
    rw [if_neg none] at h
    obtain ⟨d, decoded, h⟩ := bind_eq_ok.mp h
    obtain ⟨opslimit, ops, h⟩ := bind_eq_ok.mp h
    obtain ⟨memlimit, mem, h⟩ := bind_eq_ok.mp h
    obtain ⟨wrapKey, stretched, h⟩ := bind_eq_ok.mp h
    obtain ⟨plaintextBytes, opened, text_ok⟩ := bind_eq_ok.mp h
    obtain ⟨v, reads, supported, rfl, rfl, checks, decodes⟩ := reads_of_web checked decoded
      (limit_iff.mp ops) (limit_iff.mp mem)
    rw [web_buildAADV2 checks supported] at opened
    obtain ⟨vaultKey, unwrapped, content⟩ := web_unlock.mp opened
    refine ⟨v, d, reads, supported, none, decodes, wrapKey, vaultKey, plaintextBytes, stretched,
      unwrapped, content, ?_⟩
    split at text_ok
    · cases text_ok
    · rename_i text read
      cases text_ok
      exact read
  · rintro ⟨v, d, reads, supported, nonempty, decodes, wrapKey, vaultKey, plaintextBytes, stretched,
      unwrapped, content, read⟩
    obtain ⟨c, checked, checks, ops, mem, decoded⟩ := web_of_reads reads supported decodes
    have opened := web_unlock.mpr ⟨vaultKey, unwrapped, content⟩
    rw [Web.decryptVaultV2, checked, ok_bind, if_neg nonempty, decoded, ok_bind,
      limit_iff.mpr ops, ok_bind, limit_iff.mpr mem, ok_bind, stretched, ok_bind,
      web_buildAADV2 checks supported, opened, ok_bind, read]
    rfl

/-! ## All three -/

/-- All of them reject, or all return the same plaintext. -/
def Agree (sodium : Sodium) (value : Js.Value) (password : JsString) : Prop :=
  (Ui.decryptVaultV2 sodium value password).toOption =
      (Cli.decryptVaultV2 sodium value password).toOption ∧
    (Web.decryptVaultV2 sodium value password).toOption =
      (Cli.decryptVaultV2 sodium value password).toOption

def encodedFields (v : Vault) : List JsString :=
  [v.kdf.salt, v.wrap.nonce, v.wrap.wrapped_key, v.content.nonce, v.content.ciphertext]

/-- What libsodium writes: unpadded, with no bits left over. -/
def Canonical (v : Vault) : Prop := ∀ s ∈ encodedFields v, (Ui.b64urlDecode s).isOk = true

/-- What `atob` takes: of a possible length, with no more padding than fits. -/
def Forgiving (v : Vault) : Prop := ∀ s ∈ encodedFields v, (Web.b64urlDecode (.str s)).isOk = true

/-- Fields that another reader takes too, it takes for the same bytes. -/
theorem Decodes.narrow {wide narrow : JsString → Except JsString Bytes} (h : Decodes wide v d)
    (within : ∀ s bytes, narrow s = .ok bytes → wide s = .ok bytes)
    (all : ∀ s ∈ encodedFields v, (narrow s).isOk = true) : Decodes narrow v d := by
  have each {s : JsString} {bytes : Bytes} (mem : s ∈ encodedFields v) (read : wide s = .ok bytes) :
      narrow s = .ok bytes := by
    obtain ⟨bytes', found⟩ := exists_of_isOk (all s mem)
    cases (within s bytes' found).symm.trans read
    exact found
  exact ⟨each (by simp [encodedFields]) h.salt, each (by simp [encodedFields]) h.wrapNonce,
    each (by simp [encodedFields]) h.wrappedKey, each (by simp [encodedFields]) h.contentNonce,
    each (by simp [encodedFields]) h.contentCt, h.sized⟩

theorem Decodes.widen {wide narrow : JsString → Except JsString Bytes} (h : Decodes narrow v d)
    (within : ∀ s bytes, narrow s = .ok bytes → wide s = .ok bytes) : Decodes wide v d :=
  ⟨within _ _ h.salt, within _ _ h.wrapNonce, within _ _ h.wrappedKey, within _ _ h.contentNonce,
    within _ _ h.contentCt, h.sized⟩

theorem Decodes.isOk {decode : JsString → Except JsString Bytes} (h : Decodes decode v d) :
    ∀ s ∈ encodedFields v, (decode s).isOk = true := by
  have each {s : JsString} {bytes : Bytes} (read : decode s = .ok bytes) :
      (decode s).isOk = true := by
    rw [read]
    rfl
  simp only [encodedFields, List.forall_mem_cons]
  exact ⟨each h.salt, each h.wrapNonce, each h.wrappedKey, each h.contentNonce, each h.contentCt,
    nofun⟩

/-- The three agree on everything but the vaults that the phrase opens, read as
the command line reads them, and on these exactly where the KDF parameters are
within the limits and all fields are canonical, or the parameters are not and a
field is not even forgiving. -/
theorem agree_iff (sodium : Sodium) (value : Js.Value) (password : JsString) :
    Agree sodium value password ↔
      ∀ v d t, Reads value v → Supported v → password ≠ [] → Decodes Cli.b64urlDecode v d →
        Opens sodium v d password t →
        (InCaps v ∧ Canonical v) ∨ (¬ InCaps v ∧ ¬ Forgiving v) := by
  have cli_of_ui (s : JsString) (bytes : Bytes) (h : Ui.b64urlDecode s = .ok bytes) :
      Cli.b64urlDecode s = .ok bytes := cli_of_web (web_of_ui h)
  have cli_of_web (s : JsString) (bytes : Bytes) (h : Web.b64urlDecode (.str s) = .ok bytes) :
      Cli.b64urlDecode s = .ok bytes := cli_of_web h
  constructor
  · rintro ⟨ui, web⟩ v d t reads supported nonempty decodes opens
    by_cases caps : InCaps v
    · have cli := cli_decrypts.mpr ⟨v, d, reads, supported, caps, nonempty, decodes, opens⟩
      rw [cli] at ui
      obtain ⟨v', d', reads', -, -, -, decodes', -⟩ := ui_decrypts.mp (toOption_eq_some.mp ui)
      cases reads.unique reads'
      exact .inl ⟨caps, decodes'.isOk⟩
    · refine .inr ⟨caps, fun forgiving => ?_⟩
      have opened := web_decrypts.mpr
        ⟨v, d, reads, supported, nonempty, decodes.narrow cli_of_web forgiving, opens⟩
      rw [opened] at web
      obtain ⟨v', d', reads', -, caps', -⟩ := cli_decrypts.mp (toOption_eq_some.mp web.symm)
      cases reads.unique reads'
      exact caps caps'
  · intro condition
    constructor
    · apply Option.ext
      intro t
      rw [toOption_eq_some, toOption_eq_some, ui_decrypts, cli_decrypts]
      constructor
      · rintro ⟨v, d, reads, supported, caps, nonempty, decodes, opens⟩
        exact ⟨v, d, reads, supported, caps, nonempty, decodes.widen cli_of_ui, opens⟩
      · rintro ⟨v, d, reads, supported, caps, nonempty, decodes, opens⟩
        rcases condition v d t reads supported nonempty decodes opens with ⟨-, canonical⟩ | ⟨out, -⟩
        · exact ⟨v, d, reads, supported, caps, nonempty, decodes.narrow cli_of_ui canonical, opens⟩
        · exact absurd caps out
    · apply Option.ext
      intro t
      rw [toOption_eq_some, toOption_eq_some, web_decrypts, cli_decrypts]
      constructor
      · rintro ⟨v, d, reads, supported, nonempty, decodes, opens⟩
        have wide := decodes.widen cli_of_web
        rcases condition v d t reads supported nonempty wide opens with ⟨caps, -⟩ | ⟨-, strict⟩
        · exact ⟨v, d, reads, supported, caps, nonempty, wide, opens⟩
        · exact absurd decodes.isOk strict
      · rintro ⟨v, d, reads, supported, caps, nonempty, decodes, opens⟩
        rcases condition v d t reads supported nonempty decodes opens with ⟨-, canonical⟩ | ⟨out, -⟩
        · have narrow := decodes.narrow cli_of_ui canonical
          exact ⟨v, d, reads, supported, nonempty, narrow.widen fun _ _ => web_of_ui, opens⟩
        · exact absurd caps out

end Readers

/-- A vault whose key was stretched with eleven passes. -/
def elevenPasses : Vault where
  schema := SCHEMA_V2
  version := js "0.30.0"
  created_at := js "2026-01-01T00:00:00.000Z"
  mode := js "self"
  kdf := ⟨KDF_ALG, .ofNat 11, .ofNat (96 * 1024 * 1024), Cli.b64urlEncode (List.replicate 16 1)⟩
  wrap := ⟨AEAD_ALG, Cli.b64urlEncode (List.replicate 24 2),
    Cli.b64urlEncode (List.replicate 16 0 ++ List.replicate 32 4)⟩
  content := ⟨AEAD_ALG, Cli.b64urlEncode (List.replicate 24 3),
    Cli.b64urlEncode (List.replicate 16 0 ++ Cli.utf8 (js "hello"))⟩

/-- The web opens it, the others refuse it. -/
theorem elevenPasses_opens_on_the_web : ¬ ∀ (sodium : Sodium) (value : Js.Value)
    (password : JsString), Agree sodium value password := by
  intro all
  have same := (all Cli.sampleSodium elevenPasses.toValue (js "correct horse")).2
  have opened : (Web.decryptVaultV2 Cli.sampleSodium elevenPasses.toValue
      (js "correct horse")).toOption = some (js "hello") := by
    decide
  have refused : (Cli.decryptVaultV2 Cli.sampleSodium elevenPasses.toValue
      (js "correct horse")).toOption = none := by
    decide +kernel
  rw [opened, refused] at same
  cases same

end Qev
