import Qev.Cli.RoundTrip

/-! What the associated data binds. -/

namespace Qev.Cli

open Js (JsString js)

/-- The fields of a vault that its associated data is built from. -/
structure Bound where
  schema : JsString
  version : JsString
  created_at : JsString
  mode : JsString
  kdf : Kdf
  wrap_algorithm : JsString
  wrap_nonce : JsString
  content_algorithm : JsString
  content_nonce : JsString
  deriving DecidableEq, Repr

def Vault.bound (v : Vault) : Bound :=
  ⟨v.schema, v.version, v.created_at, v.mode, v.kdf, v.wrap.algorithm, v.wrap.nonce,
    v.content.algorithm, v.content.nonce⟩

/-- The keys of the object stand in order already. -/
theorem sortKeys_aadObj (v : Vault) : (aadObj v).sortKeys = aadObj v := by
  have order : js "content" < js "created_at" ∧ js "created_at" < js "kdf" ∧ js "kdf" < js "mode" ∧
      js "mode" < js "schema" ∧ js "schema" < js "version" ∧ js "version" < js "wrap" ∧
      js "algorithm" < js "nonce" ∧ js "algorithm" < js "memlimit" ∧
      js "memlimit" < js "opslimit" ∧ js "opslimit" < js "salt" := by
    decide
  simp only [aadObj, Json.sortKeys, Json.sortFields, Json.insertField, order, if_true]

/-- What stands for a number in JSON text. -/
def plainNumber (x : Double) : Js.Value := if x = .nan then .null else .num x

/-- The object with what its numbers are written as. -/
def writtenObj (v : Vault) : Js.Value :=
  .obj [
    (js "content", .obj [
      (js "algorithm", .str v.content.algorithm),
      (js "nonce", .str v.content.nonce)]),
    (js "created_at", .str v.created_at),
    (js "kdf", .obj [
      (js "algorithm", .str v.kdf.algorithm),
      (js "memlimit", plainNumber v.kdf.memlimit),
      (js "opslimit", plainNumber v.kdf.opslimit),
      (js "salt", .str v.kdf.salt)]),
    (js "mode", .str v.mode),
    (js "schema", .str v.schema),
    (js "version", .str v.version),
    (js "wrap", .obj [
      (js "algorithm", .str v.wrap.algorithm),
      (js "nonce", .str v.wrap.nonce)])]

theorem print_plainNumber (x : Double) :
    Json.print Js.printer (plainNumber x) = Json.print Js.printer (.num x) := by
  by_cases none : x = .nan
  · rw [plainNumber, if_pos none, none]
    rfl
  · rw [plainNumber, if_neg none]

theorem canonicalJSON_aadObj (v : Vault) :
    canonicalJSON (aadObj v) = Json.print Js.printer (writtenObj v) := by
  rw [canonicalJSON, sortKeys_aadObj]
  simp only [aadObj, writtenObj, Json.print, Json.printFields, print_plainNumber]

theorem plainNumber_injective {x y : Double} (h : plainNumber x = plainNumber y) : x = y := by
  unfold plainNumber at h
  split_ifs at h with hx hy hy
  · rw [hx, hy]
  · exact Json.num.inj h

/-- A number within positive bounds is finite and not zero. -/
theorem plain_of_inRange {x : Double} {min max : Nat} (positive : 0 < min)
    (within : ¬ outOfRange x min max) (number : x ≠ .nan) : Js.Plain x := by
  cases x with
  | nan => exact absurd rfl number
  | infinity negative =>
    exfalso
    apply within
    cases negative with
    | true => exact .inl rfl
    | false => exact .inr rfl
  | finite negative bits =>
    refine ⟨negative, bits, rfl, fun zero => ?_⟩
    exfalso
    apply within
    have none : Double.value negative bits = 0 := by
      simp [Double.value, Double.magnitude, Double.mantissa, zero]
    have below : (Double.finite negative bits).lt min = true := by
      rw [Double.lt, none]
      exact decide_eq_true (by exact_mod_cast positive)
    exact .inl below

theorem numbers_writtenObj {v : Vault} (valid : v.Valid) :
    Json.Numbers Js.format.Number (writtenObj v) := by
  have plain (x : Double) (h : x = .nan ∨ Js.Plain x) : Json.Numbers Js.Plain (plainNumber x) := by
    by_cases none : x = .nan
    · rw [plainNumber, if_pos none]
      trivial
    · rw [plainNumber, if_neg none]
      exact h.resolve_left none
  have opslimit : v.kdf.opslimit = .nan ∨ Js.Plain v.kdf.opslimit := by
    by_cases none : v.kdf.opslimit = .nan
    · exact .inl none
    · exact .inr (plain_of_inRange (by decide) valid.opslimit none)
  have memlimit : v.kdf.memlimit = .nan ∨ Js.Plain v.kdf.memlimit := by
    by_cases none : v.kdf.memlimit = .nan
    · exact .inl none
    · exact .inr (plain_of_inRange (by decide) valid.memlimit none)
  simp only [writtenObj, Json.Numbers, Json.NumbersFields, true_and, and_true]
  exact ⟨plain _ memlimit, plain _ opslimit⟩

/-- Valid vaults have the same associated data where every bound field is the
same, and only there. -/
theorem buildAADV2_eq_iff {v w : Vault} (hv : v.Valid) (hw : w.Valid) :
    buildAADV2 v = buildAADV2 w ↔ v.bound = w.bound := by
  constructor
  · intro same
    have text : canonicalJSON (aadObj v) = canonicalJSON (aadObj w) :=
      Js.textEncode_injective (Js.wellFormed_print _) (Js.wellFormed_print _) same
    rw [canonicalJSON_aadObj, canonicalJSON_aadObj] at text
    have object := Json.print_injective Js.format (numbers_writtenObj hv) (numbers_writtenObj hw)
      text
    simp only [writtenObj, Json.obj.injEq, List.cons.injEq, Prod.mk.injEq, Json.str.injEq, true_and,
      and_true] at object
    obtain ⟨⟨content_algorithm, content_nonce⟩, created_at,
      ⟨kdf_algorithm, memlimit, opslimit, salt⟩, mode, schema, version, wrap_algorithm,
      wrap_nonce⟩ := object
    have kdf : v.kdf = w.kdf :=
      Kdf.ext kdf_algorithm (plainNumber_injective opslimit) (plainNumber_injective memlimit) salt
    simp only [Vault.bound, Bound.mk.injEq]
    exact ⟨schema, version, created_at, mode, kdf, wrap_algorithm, wrap_nonce, content_algorithm,
      content_nonce⟩
  · intro same
    simp only [Vault.bound, Bound.mk.injEq] at same
    obtain ⟨schema, version, created_at, mode, kdf, wrap_algorithm, wrap_nonce, content_algorithm,
      content_nonce⟩ := same
    simp only [buildAADV2, aadObj, schema, version, created_at, mode, kdf, wrap_algorithm,
      wrap_nonce, content_algorithm, content_nonce]

/-- What a vault that opens had its wrapped key decrypted with. -/
theorem unwrapped_of_decrypt {sodium : Sodium} {y : Js.Value} {w : Vault} {phrase t : JsString}
    (read : validateVaultSchemaV2 y = .ok w) (opened : decryptVaultV2 sodium y phrase = .ok t) :
    ∃ c k n p, b64urlDecode w.wrap.wrapped_key = .ok c ∧
      sodium.aead.decrypt k n (buildAADV2 w) c = some p := by
  by_cases empty : phrase = []
  · rw [decryptVaultV2, read, ok_bind, if_pos empty] at opened
    cases opened
  rw [decryptVaultV2, read, ok_bind, if_neg empty] at opened
  obtain ⟨d, fields, opened⟩ := bind_eq_ok.mp opened
  obtain ⟨wrapKey, _, opened⟩ := bind_eq_ok.mp opened
  obtain ⟨bytes, unlocked, _⟩ := bind_eq_ok.mp opened
  have wrapped : b64urlDecode w.wrap.wrapped_key = .ok d.wrappedKey := by
    obtain ⟨salt, _, fields⟩ := bind_eq_ok.mp fields
    obtain ⟨wrapNonce, _, fields⟩ := bind_eq_ok.mp fields
    obtain ⟨wrappedKey, wrapped, fields⟩ := bind_eq_ok.mp fields
    obtain ⟨contentNonce, _, fields⟩ := bind_eq_ok.mp fields
    obtain ⟨contentCt, _, fields⟩ := bind_eq_ok.mp fields
    dsimp only at fields
    split at fields
    · cases fields
    · cases fields
      exact wrapped
  cases decrypted : sodium.aead.decrypt wrapKey d.wrapNonce (buildAADV2 w) d.wrappedKey with
  | none =>
    rw [unlock, decrypted] at unlocked
    cases unlocked
  | some key => exact ⟨d.wrappedKey, wrapKey, d.wrapNonce, key, wrapped, decrypted⟩

/-- The associated data is the same exactly where the bound fields are; and a
made vault whose bound fields are changed, but not what is encrypted, never
opens, with any phrase. -/
theorem header_bound (sodium : Sodium) :
    (∀ x y v w, validateVaultSchemaV2 x = .ok v → validateVaultSchemaV2 y = .ok w →
      (buildAADV2 v = buildAADV2 w ↔ v.bound = w.bound)) ∧
    ∀ opts draw made v, encryptVaultV2 sodium opts draw = .ok made →
      validateVaultSchemaV2 made = .ok v →
      (∀ c, b64urlDecode v.wrap.wrapped_key = .ok c → sodium.aead.Commits c) →
      ∀ y w, validateVaultSchemaV2 y = .ok w → w.wrap.wrapped_key = v.wrap.wrapped_key →
        w.content.ciphertext = v.content.ciphertext → w.bound ≠ v.bound →
        ∀ phrase t, decryptVaultV2 sodium y phrase ≠ .ok t := by
  constructor
  · intro x y v w hx hy
    exact buildAADV2_eq_iff (valid_of_validate hx) (valid_of_validate hy)
  · intro opts draw made v encrypted read commits y w changed kept _ other phrase t opened
    obtain ⟨s, _, encrypted⟩ := bind_eq_ok.mp encrypted
    obtain ⟨wrapKey, _, encrypted⟩ := bind_eq_ok.mp encrypted
    cases encrypted
    rw [validate_toValue (s.lock_valid sodium.aead wrapKey)] at read
    cases read
    obtain ⟨c, k, n, p, wrapped, decrypted⟩ := unwrapped_of_decrypt changed opened
    rw [kept] at wrapped
    have own : c = sodium.aead.encrypt wrapKey s.wrapNonce.val (buildAADV2 s.skeleton)
        s.vaultKey.val := by
      have back := b64urlDecode_b64urlEncode (s.decoded sodium.aead wrapKey).wrappedKey
      exact Except.ok.inj (wrapped.symm.trans back)
    have opens := sodium.aead.opens_sealed wrapKey s.wrapNonce.val (buildAADV2 s.skeleton)
      s.vaultKey.val
    rw [← own] at opens
    obtain ⟨-, -, aad⟩ := commits c wrapped _ _ _ _ _ _ _ _ decrypted opens
    exact other ((buildAADV2_eq_iff (valid_of_validate changed) (s.lock_valid _ _)).mp aad)

/-- A vault whose time is changed. -/
theorem header_bound_later : ∃ (sodium : Sodium) (made later : Js.Value),
    encryptVaultV2 sodium (sampleOptions (.text (js "hello"))) sampleDraw = .ok made ∧
    (validateVaultSchemaV2 later).isOk ∧
    ∀ phrase t, decryptVaultV2 sodium later phrase ≠ .ok t := by
  obtain ⟨s, accepted⟩ := exists_of_isOk (x := settings (sampleOptions (.text (js "hello")))
    sampleDraw) (by decide +kernel)
  let wrapKey : Bytes := List.replicate KEY_BYTES 0
  let aead := Aead.marking wrapKey s.wrapNonce.val (buildAADV2 s.skeleton)
  let sodium : Sodium := ⟨fun n _ _ _ _ => .ok (List.replicate n 0), aead⟩
  let v := s.lock aead wrapKey
  let w : Vault := { v with created_at := v.created_at ++ js "!" }
  have made : encryptVaultV2 sodium (sampleOptions (.text (js "hello"))) sampleDraw =
      .ok v.toValue := by
    rw [encryptVaultV2, accepted]
    rfl
  have valid := s.lock_valid aead wrapKey
  have changed : validateVaultSchemaV2 w.toValue = .ok w := validate_toValue { valid with }
  have other : w.bound ≠ v.bound := by
    intro same
    have time : v.created_at ++ js "!" = v.created_at := congrArg Bound.created_at same
    exact absurd (List.append_right_eq_self.mp time) (by decide)
  have commits : ∀ c, b64urlDecode v.wrap.wrapped_key = .ok c → aead.Commits c := by
    intro c wrapped
    have own := Except.ok.inj (wrapped.symm.trans (b64urlDecode_b64urlEncode _))
    rw [own]
    exact Aead.marking_commits _ _ _ _
  refine ⟨sodium, v.toValue, w.toValue, made, by rw [changed]; rfl, ?_⟩
  exact (header_bound sodium).2 _ _ _ v made (validate_toValue valid) commits _ w changed rfl rfl
    other

end Qev.Cli
