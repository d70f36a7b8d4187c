import Qev.Cli.RoundTrip
import Qev.Web.Base64url

/-! What the three copies of `decryptVaultV2` read of a vault, and their checks of it
one by one. -/

namespace Qev

open Js (JsString js)
open Cli (AEAD_ALG Decoded KDF_ALG KEY_BYTES MAX_CIPHERTEXT_BYTES MAX_MEMLIMIT MAX_OPSLIMIT
  MIN_MEMLIMIT MIN_OPSLIMIT NONCE_BYTES SALT_BYTES SCHEMA_V2 Sodium TAG_BYTES Vault constant_iff get
  outOfRange tested_iff)

/-! ## What is read of a vault -/

/-- The fields of `v` stand in `value`. -/
structure Reads (value : Js.Value) (v : Vault) : Prop where
  schema : get value "schema" = some (.str v.schema)
  version : get value "version" = some (.str v.version)
  created_at : get value "created_at" = some (.str v.created_at)
  mode : get value "mode" = some (.str v.mode)
  kdf : ∃ kdf, get value "kdf" = some kdf ∧ get kdf "algorithm" = some (.str v.kdf.algorithm) ∧
    get kdf "opslimit" = some (.num v.kdf.opslimit) ∧
    get kdf "memlimit" = some (.num v.kdf.memlimit) ∧ get kdf "salt" = some (.str v.kdf.salt)
  wrap : ∃ wrap, get value "wrap" = some wrap ∧
    get wrap "algorithm" = some (.str v.wrap.algorithm) ∧
    get wrap "nonce" = some (.str v.wrap.nonce) ∧
    get wrap "wrapped_key" = some (.str v.wrap.wrapped_key)
  content : ∃ content, get value "content" = some content ∧
    get content "algorithm" = some (.str v.content.algorithm) ∧
    get content "nonce" = some (.str v.content.nonce) ∧
    get content "ciphertext" = some (.str v.content.ciphertext)

/-- The constants of a V2 vault. -/
structure Supported (v : Vault) : Prop where
  schema : v.schema = SCHEMA_V2
  mode : v.mode = js "self" ∨ v.mode = js "share"
  kdf : v.kdf.algorithm = KDF_ALG
  wrap : v.wrap.algorithm = AEAD_ALG
  content : v.content.algorithm = AEAD_ALG

def InCaps (v : Vault) : Prop :=
  ¬ outOfRange v.kdf.opslimit MIN_OPSLIMIT MAX_OPSLIMIT ∧
    ¬ outOfRange v.kdf.memlimit MIN_MEMLIMIT MAX_MEMLIMIT

structure Sized (d : Decoded) : Prop where
  salt : d.salt.length = SALT_BYTES
  wrapNonce : d.wrapNonce.length = NONCE_BYTES
  contentNonce : d.contentNonce.length = NONCE_BYTES
  wrappedKey : d.wrappedKey.length = KEY_BYTES + TAG_BYTES
  contentCt : d.contentCt.length ≠ 0
  small : d.contentCt.length ≤ MAX_CIPHERTEXT_BYTES

/-- The bytes that the fields stand for, read by `decode`, have their lengths. -/
structure Decodes (decode : JsString → Except JsString Bytes) (v : Vault) (d : Decoded) : Prop where
  salt : decode v.kdf.salt = .ok d.salt
  wrapNonce : decode v.wrap.nonce = .ok d.wrapNonce
  wrappedKey : decode v.wrap.wrapped_key = .ok d.wrappedKey
  contentNonce : decode v.content.nonce = .ok d.contentNonce
  contentCt : decode v.content.ciphertext = .ok d.contentCt
  sized : Sized d

/-- The phrase opens the vault, and the text inside is `t`. -/
def Opens (sodium : Sodium) (v : Vault) (d : Decoded) (password t : JsString) : Prop :=
  ∃ wrapKey vaultKey plaintextBytes,
    sodium.crypto_pwhash KEY_BYTES (Cli.utf8 password) d.salt v.kdf.opslimit v.kdf.memlimit =
      .ok wrapKey ∧
    sodium.aead.decrypt wrapKey d.wrapNonce (Cli.buildAADV2 v) d.wrappedKey = some vaultKey ∧
    sodium.aead.decrypt vaultKey d.contentNonce (Cli.buildAADV2 v) d.contentCt =
      some plaintextBytes ∧
    Cli.fromUtf8 plaintextBytes = some t

theorem Reads.unique {value : Js.Value} {v w : Vault} (hv : Reads value v) (hw : Reads value w) :
    v = w := by
  obtain ⟨vschema, vversion, vcreated, vmode, ⟨va, vo, vm, vs⟩, ⟨vwa, vwn, vwk⟩,
    ⟨vca, vcn, vcc⟩⟩ := v
  obtain ⟨wschema, wversion, wcreated, wmode, ⟨wa, wo, wm, ws⟩, ⟨wwa, wwn, wwk⟩,
    ⟨wca, wcn, wcc⟩⟩ := w
  have strings {a b : JsString} {x : Option Js.Value} (ha : x = some (.str a))
      (hb : x = some (.str b)) : a = b := Json.str.inj (Option.some.inj (ha.symm.trans hb))
  have numbers {a b : Double} {x : Option Js.Value} (ha : x = some (.num a))
      (hb : x = some (.num b)) : a = b := Json.num.inj (Option.some.inj (ha.symm.trans hb))
  obtain ⟨k, kdf, ka, ko, km, ks⟩ := hv.kdf
  obtain ⟨k', kdf', ka', ko', km', ks'⟩ := hw.kdf
  cases kdf.symm.trans kdf'
  obtain ⟨p, wrap, pa, pn, pk⟩ := hv.wrap
  obtain ⟨p', wrap', pa', pn', pk'⟩ := hw.wrap
  cases wrap.symm.trans wrap'
  obtain ⟨c, content, ca, cn, cc⟩ := hv.content
  obtain ⟨c', content', ca', cn', cc'⟩ := hw.content
  cases content.symm.trans content'
  cases strings hv.schema hw.schema
  cases strings hv.version hw.version
  cases strings hv.created_at hw.created_at
  cases strings hv.mode hw.mode
  cases strings ka ka'
  cases numbers ko ko'
  cases numbers km km'
  cases strings ks ks'
  cases strings pa pa'
  cases strings pn pn'
  cases strings pk pk'
  cases strings ca ca'
  cases strings cn cn'
  cases strings cc cc'
  rfl

/-! ## The checks, one by one -/

section Checks

variable {v : Option Js.Value} {s : JsString} {x : Double} {message : String}

theorem object_eq_ok {o : Js.Value} (h : Cli.object v message = .ok o) : v = some o := by
  unfold Cli.object at h
  split at h <;> cases h <;> rfl

/-- A value with a field is an object. -/
theorem object_of_get {o f : Js.Value} {name : String} (field : get o name = some f) :
    Cli.object (some o) message = .ok o := by
  cases o with
  | obj => rfl
  | _ => cases field

theorem uiMode_iff :
    Ui.modeOf v = .ok s ↔ v = some (.str s) ∧ (s = js "self" ∨ s = js "share") :=
  tested_iff

theorem uiPart_eq_ok {part : Js.Value} (h : Ui.partOf v message = .ok part) :
    v = some part ∧ get part "algorithm" = some (.str AEAD_ALG) := by
  unfold Ui.partOf at h
  split at h
  · split at h
    · obtain ⟨found, algorithm, h⟩ := bind_eq_ok.mp h
      cases h
      obtain ⟨read, rfl⟩ := constant_iff.mp algorithm
      exact ⟨rfl, read⟩
    · cases h
  · cases h

/-- What has a field is truthy. -/
theorem truthy_of_get {o f : Js.Value} {name : String} (field : get o name = some f) :
    Js.truthy (some o) = true := by
  cases o with
  | obj => rfl
  | _ => cases field

theorem uiPart_of_get {part : Js.Value} (algorithm : get part "algorithm" = some (.str AEAD_ALG)) :
    Ui.partOf (some part) message = .ok part := by
  rw [Ui.partOf, if_pos (truthy_of_get algorithm), constant_iff.mpr ⟨algorithm, rfl⟩]
  rfl

theorem webConstant_iff {expected error : JsString} :
    Web.constant v expected error = .ok () ↔ v = some (.str expected) := by
  unfold Web.constant
  split
  · split
    · rename_i same
      simp [same]
    · rename_i other
      simp [other]
  · rename_i other
    simp only [reduceCtorEq, false_iff]
    exact other expected

theorem webString_iff : Web.string v message = .ok s ↔ v = some (.str s) := by
  unfold Web.string
  split
  · simp
  · rename_i other
    simp only [reduceCtorEq, false_iff]
    exact other s

theorem webMode_iff :
    Web.modeOf v = .ok s ↔ v = some (.str s) ∧ (s = js "self" ∨ s = js "share") :=
  tested_iff

theorem webPart_iff {part : Js.Value} {algorithm : JsString} :
    Web.partOf v algorithm message = .ok part ↔
      v = some part ∧ get part "algorithm" = some (.str algorithm) := by
  constructor
  · intro h
    unfold Web.partOf at h
    split at h
    · split at h
      · obtain ⟨_, found, h⟩ := bind_eq_ok.mp h
        cases h
        exact ⟨rfl, webConstant_iff.mp found⟩
      · cases h
    · cases h
  · rintro ⟨rfl, found⟩
    rw [Web.partOf, if_pos (truthy_of_get found), webConstant_iff.mpr found]
    rfl

theorem required_iff {o : Js.Value} :
    Web.required v = .ok o ↔ v = some o ∧ Js.truthy (some o) = true := by
  unfold Web.required
  split
  · rename_i found
    split
    · rename_i some_
      simp only [Except.ok.injEq, Option.some.injEq, iff_self_and]
      rintro rfl
      exact some_
    · rename_i falsy
      simp only [reduceCtorEq, Option.some.injEq, false_iff, not_and]
      rintro rfl
      exact falsy
  · simp

theorem limit_iff : Web.limit v message = .ok x ↔ v = some (.num x) := by
  unfold Web.limit
  split <;> simp_all

end Checks

/-! ## The decoded fields -/

section Decoding

variable {d : Decoded} {aead : Aead} {aad wrapKey plaintextBytes : Bytes}
  {lengthError : Decoded → Option JsString}

/-- The lengths are tested alike, whatever the errors are. -/
theorem lengthError_iff {salt wrapNonce contentNonce wrappedKey empty large : JsString} :
    (if d.salt.length ≠ SALT_BYTES then some salt
      else if d.wrapNonce.length ≠ NONCE_BYTES then some wrapNonce
      else if d.contentNonce.length ≠ NONCE_BYTES then some contentNonce
      else if d.wrappedKey.length ≠ KEY_BYTES + TAG_BYTES then some wrappedKey
      else if d.contentCt.length = 0 then some empty
      else if d.contentCt.length > MAX_CIPHERTEXT_BYTES then some large
      else none) = none ↔ Sized d := by
  constructor
  · intro h
    split_ifs at h with salt wrapNonce contentNonce wrappedKey contentCt small
    exact ⟨not_not.mp salt, not_not.mp wrapNonce, not_not.mp contentNonce, not_not.mp wrappedKey,
      contentCt, Nat.not_lt.mp small⟩
  · intro h
    simp only [h.salt, h.wrapNonce, h.contentNonce, h.wrappedKey, h.contentCt,
      Nat.not_lt.mpr h.small, ne_eq, not_true_eq_false, if_false]

theorem decodeFields_iff {salt wrapNonce wrappedKey contentNonce contentCt : Except JsString Bytes}
    (lengths : ∀ d, lengthError d = none ↔ Sized d) :
    (do
      let salt ← salt
      let wrapNonce ← wrapNonce
      let wrappedKey ← wrappedKey
      let contentNonce ← contentNonce
      let contentCt ← contentCt
      let d : Decoded := { salt, wrapNonce, wrappedKey, contentNonce, contentCt }
      match lengthError d with
      | some e => throw e
      | none => return d) = .ok d ↔
    salt = .ok d.salt ∧ wrapNonce = .ok d.wrapNonce ∧ wrappedKey = .ok d.wrappedKey ∧
      contentNonce = .ok d.contentNonce ∧ contentCt = .ok d.contentCt ∧ Sized d := by
  constructor
  · intro h
    obtain ⟨salt, salt_ok, h⟩ := bind_eq_ok.mp h
    obtain ⟨wrapNonce, wrapNonce_ok, h⟩ := bind_eq_ok.mp h
    obtain ⟨wrappedKey, wrappedKey_ok, h⟩ := bind_eq_ok.mp h
    obtain ⟨contentNonce, contentNonce_ok, h⟩ := bind_eq_ok.mp h
    obtain ⟨contentCt, contentCt_ok, h⟩ := bind_eq_ok.mp h
    dsimp only at h
    split at h
    · cases h
    · rename_i sized
      cases h
      exact ⟨salt_ok, wrapNonce_ok, wrappedKey_ok, contentNonce_ok, contentCt_ok,
        (lengths _).mp sized⟩
  · rintro ⟨salt, wrapNonce, wrappedKey, contentNonce, contentCt, sized⟩
    rw [salt, ok_bind, wrapNonce, ok_bind, wrappedKey, ok_bind, contentNonce, ok_bind, contentCt,
      ok_bind]
    dsimp only
    rw [(lengths d).mpr sized]
    rfl

theorem decodes_iff {decode : JsString → Except JsString Bytes} {v : Vault} :
    Decodes decode v d ↔ decode v.kdf.salt = .ok d.salt ∧ decode v.wrap.nonce = .ok d.wrapNonce ∧
      decode v.wrap.wrapped_key = .ok d.wrappedKey ∧ decode v.content.nonce = .ok d.contentNonce ∧
      decode v.content.ciphertext = .ok d.contentCt ∧ Sized d := by
  constructor
  · rintro ⟨salt, wrapNonce, wrappedKey, contentNonce, contentCt, sized⟩
    exact ⟨salt, wrapNonce, wrappedKey, contentNonce, contentCt, sized⟩
  · rintro ⟨salt, wrapNonce, wrappedKey, contentNonce, contentCt, sized⟩
    exact ⟨salt, wrapNonce, wrappedKey, contentNonce, contentCt, sized⟩

/-- A key that unwraps has its length. -/
theorem vaultKey_length {k n a p : Bytes} (sized : Sized d)
    (opened : aead.decrypt k n a d.wrappedKey = some p) : p.length = KEY_BYTES := by
  have length := aead.encrypt_length k n a p
  rw [← (aead.decrypt_eq_some _ _ _ _ _).mp opened, sized.wrappedKey] at length
  have tag : TAG_BYTES = 16 := rfl
  omega

/-- The two decryptions with the test of the key between them, which passes,
whatever the errors are. -/
theorem decryptions_iff {wrong malformed tampered : JsString} (sized : Sized d) :
    (match (motive := Option Bytes → Except JsString Bytes)
        aead.decrypt wrapKey d.wrapNonce aad d.wrappedKey with
      | none => .error wrong
      | some vaultKey =>
        if vaultKey.length ≠ KEY_BYTES then .error malformed
        else
          match aead.decrypt vaultKey d.contentNonce aad d.contentCt with
          | none => .error tampered
          | some plaintextBytes => .ok plaintextBytes) = .ok plaintextBytes ↔ ∃ vaultKey,
      aead.decrypt wrapKey d.wrapNonce aad d.wrappedKey = some vaultKey ∧
      aead.decrypt vaultKey d.contentNonce aad d.contentCt = some plaintextBytes := by
  split
  · rename_i failed
    simp [failed]
  · rename_i vaultKey opened
    rw [if_neg (not_not.mpr (vaultKey_length sized opened))]
    split
    · rename_i failed
      simp [opened, failed]
    · rename_i bytes found
      simp [opened, found]

end Decoding

end Qev
