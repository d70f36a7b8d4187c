import Qev.Lib.JsonPieces
import Qev.Lib.Lines
import Qev.Ui.ChatEnvelope
import Qev.Ui.Legacy
import Qev.Web.Encrypt

/-! The three forms in which the vault page gives a vault away: the file, the
recovery sheet and the text on the clipboard; and how the page reads them again. -/

namespace Qev.Ui

open Js (JsString js)
open Cli (AEAD_ALG Draw KDF_ALG Kdf SCHEMA_V2 Settings Sodium Vault b64urlEncode canonicalJSON
  fromUtf8 get utf8)
open Lines (indexOf joined split)
open Notify (isStrSpace trim)

/-- A vault of either schema. -/
inductive Box where
  | v1 (vault : VaultV1)
  | v2 (vault : Vault)

namespace Box

def toValue : Box → Js.Value
  | v1 vault => vault.toValue
  | v2 vault => vault.toValue

def schema : Box → JsString
  | v1 vault => vault.schema
  | v2 vault => vault.schema

def version : Box → JsString
  | v1 vault => vault.version
  | v2 vault => vault.version

def created_at : Box → JsString
  | v1 vault => vault.created_at
  | v2 vault => vault.created_at

def mode : Box → JsString
  | v1 vault => vault.mode
  | v2 vault => vault.mode

def kdf : Box → Kdf
  | v1 vault => vault.kdf
  | v2 vault => vault.kdf

end Box

/-! ## The recovery sheet -/

def HR : JsString := .replicate 54 (Js.ascii '=')

def HR2 : JsString := .replicate 54 (Js.ascii '-')

def beginMarker : JsString := js "----- BEGIN BRY-NFET-SX VAULT -----"

def endMarker : JsString := js "----- END BRY-NFET-SX VAULT -----"

/-- `Math.round(x / 1024 / 1024)`, for an `x` from which both quotients are exact. -/
def mebibytes : Double → Double
  | .finite negative bits =>
    let n := ⌊Double.value negative bits.val / 2 ^ 20 + 1 / 2⌋
    .ofMagnitude (decide (n < 0)) n.natAbs
  | x => x

def shown (x : Double) : JsString := Js.display (.num x)

/-- The text in lines of 64 units. -/
def sliced (text : JsString) : List JsString :=
  (List.range ((text.length + 63) / 64)).map fun i => js "      " ++ (text.drop (64 * i)).take 64

namespace Box

def recipe : Box → List JsString
  | v2 vault => [
      js "      Wrap (vault key): " ++ vault.wrap.algorithm ++ js " (24-byte nonce, 16-byte tag)",
      js "      Content:          " ++ vault.content.algorithm ++
        js " (24-byte nonce, 16-byte tag)"]
  | v1 vault => [
      js "      Encryption:    " ++ vault.aead.algorithm ++ js " (24-byte nonce, 16-byte tag)"]

def phraseMix (box : Box) : JsString :=
  js "      Phrase mix:    " ++ box.kdf.algorithm ++ js " (work units " ++ shown box.kdf.opslimit ++
    js ", memory " ++ shown (mebibytes box.kdf.memlimit) ++ js " MiB)"

def secrets : Box → List JsString
  | v2 vault => [
      js "  Wrap nonce (base64url):",
      js "      " ++ vault.wrap.nonce,
      [],
      js "  Wrapped vault key (base64url):"] ++ sliced vault.wrap.wrapped_key ++ [
      [],
      js "  Content nonce (base64url):",
      js "      " ++ vault.content.nonce,
      [],
      js "  Encrypted message (ciphertext, base64url):"] ++ sliced vault.content.ciphertext
  | v1 vault => [
      js "  Your secret number (nonce, base64url):",
      js "      " ++ vault.aead.nonce,
      [],
      js "  Encrypted message (ciphertext, base64url):"] ++ sliced vault.aead.ciphertext

/-- The lines in front of the vault. -/
def above (box : Box) (downloadFilename envelopeId : JsString) : List JsString :=
  [HR,
    js "BRY-NFET-SX VAULT  RECOVERY SHEET",
    HR,
    [],
    js "Locked at: " ++ box.created_at,
    js "Made on:   secure.imagineqira.com/chat",
    [],
    HR2,
    js "TO OPEN THIS LATER, YOU NEED TWO THINGS:",
    HR2,
    [],
    js "  1. THE LOCKED BOX FILE",
    js "     File name:  " ++ downloadFilename,
    js "     Save this file. Email it to yourself. Put it on a USB drive.",
    js "     The file is in your downloads folder.",
    [],
    js "  2. YOUR SECRET PHRASE",
    js "     This is the phrase you typed.",
    js "     We do not know it. We do not store it.",
    js "     If you forget it, the box CANNOT be opened. There is no recovery.",
    [],
    HR2,
    js "EVERYTHING BELOW IS ALREADY INSIDE THE BOX.",
    js "You do NOT need to save it separately.",
    js "It is here only for your records.",
    HR2,
    [],
    js "  Box name (envelope ID):",
    js "      " ++ envelopeId,
    [],
    js "  Box style:         " ++ box.schema,
    js "  Made by version:   " ++ box.version,
    js "  Mode:              " ++
      (if box.mode = js "share" then js "share with someone" else js "just for yourself"),
    [],
    js "  Lock recipe:"] ++ box.recipe ++ [
    box.phraseMix,
    [],
    js "  Your scramble code (salt, base64url):",
    js "      " ++ box.kdf.salt,
    []] ++ box.secrets ++ [
    [],
    HR2,
    js "HOW TO OPEN THIS BOX AGAIN:",
    HR2,
    [],
    js "  1. Go to:    https://secure.imagineqira.com/chat",
    js "  2. Drop EITHER the .vault.json file OR this recovery sheet onto",
    js "     the page. (This sheet contains the full box at the bottom.)",
    js "  3. Type your secret phrase.",
    js "  4. Click \"Open it!\"",
    [],
    HR2,
    js "THE LOCKED BOX (machine-readable copy)",
    HR2,
    [],
    js "If you lost the .vault.json file, you can paste this entire recovery",
    js "sheet into the Open box on the page. The page will find the box",
    js "content between the markers below automatically.",
    []]

/-- The lines behind it. -/
def below : List JsString :=
  [[],
    HR2,
    js "HOW TO VERIFY THIS PAGE IS HONEST:",
    HR2,
    [],
    js "  1. Go to:    https://secure.imagineqira.com/verify",
    js "  2. Compare the SHA-256 of /chat/chat.js and /chat/sodium.js",
    js "     against the signed integrity record.",
    js "  3. If they match, the JavaScript is the published, signed version.",
    [],
    HR]

end Box

def buildRecoverySheet (box : Box) (downloadFilename envelopeId : JsString) : JsString :=
  let vaultLines := split 0x0A (Js.stringify box.toValue)
  joined 0x0A (box.above downloadFilename envelopeId ++ [beginMarker] ++ vaultLines ++
    [endMarker] ++ Box.below) ++ [0x0A]

/-! ## The other two -/

def VAULT_TEXT_PREFIX_V1 : JsString := js "BRY-VAULT-V1."

def VAULT_TEXT_PREFIX_V2 : JsString := js "BRY-VAULT-V2."

/-- What `downloadVault` writes to the file. -/
def vaultFile (box : Box) : JsString := Js.stringify box.toValue

/-- What `copyVaultText` writes to the clipboard. -/
def vaultText (box : Box) : JsString :=
  let enc := b64urlEncode (utf8 (canonicalJSON box.toValue))
  let textPrefix := if box.schema = SCHEMA_V1 then VAULT_TEXT_PREFIX_V1 else VAULT_TEXT_PREFIX_V2
  textPrefix ++ enc

def renderings (box : Box) (downloadFilename envelopeId : JsString) : List JsString :=
  [vaultFile box, buildRecoverySheet box downloadFilename envelopeId, vaultText box]

/-! ## What is read -/

inductive InputError where
  | message (text : JsString)
  /-- An error of `TextDecoder` or `JSON.parse`, which is not caught. -/
  | thrown
  deriving DecidableEq

def orMessage (parsed : Option Js.Value) (message : String) : Except InputError Js.Value :=
  match parsed with
  | some value => .ok value
  | none => .error (.message (js message))

/-- The text between the markers, where the first of each is in order. -/
def innerOf (trimmed : JsString) : Option JsString :=
  match indexOf beginMarker trimmed, indexOf endMarker trimmed with
  | some beginIdx, some endIdx =>
    if endIdx > beginIdx then
      let start := beginIdx + beginMarker.length
      some (trim ((trimmed.drop start).take (endIdx - start)))
    else none
  | _, _ => none

def textPrefixOf (trimmed : JsString) : Option JsString :=
  if indexOf VAULT_TEXT_PREFIX_V2 trimmed = some 0 then some VAULT_TEXT_PREFIX_V2
  else if indexOf VAULT_TEXT_PREFIX_V1 trimmed = some 0 then some VAULT_TEXT_PREFIX_V1
  else none

def decodeText (b64 : JsString) : Except InputError Js.Value :=
  match b64urlDecode b64 with
  | .error _ => .error (.message (js "Vault text format is invalid"))
  | .ok bytes =>
    match (fromUtf8 bytes).bind Js.parseJson with
    | none => .error .thrown
    | some value => .ok value

def parseVaultInput (raw : JsString) : Except InputError Js.Value :=
  let trimmed := trim raw
  if trimmed = [] then .error (.message (js "Paste a vault first"))
  else
    match innerOf trimmed with
    | some inner =>
      orMessage (Js.parseJson inner) "Recovery sheet found but the embedded vault JSON is malformed"
    | none =>
      match textPrefixOf trimmed with
      | some textPrefix => decodeText (trimmed.drop textPrefix.length)
      | none =>
        orMessage (Js.parseJson trimmed)
          "Could not parse vault. Drop the .vault.json file or the recovery sheet .txt file."

/-! ## Lines without a marker -/

def Unmarked (l : JsString) : Prop := ¬ beginMarker <:+: l ∧ ¬ endMarker <:+: l

instance unmarkedDecidable (l : JsString) : Decidable (Unmarked l) := instDecidableAnd

/-- Some unit of the markers is not there. -/
theorem unmarked_of_not_mem {u : UInt16} {l : JsString} (inBegin : u ∈ beginMarker)
    (inEnd : u ∈ endMarker) (other : u ∉ l) : Unmarked l :=
  ⟨fun h => other (h.subset inBegin), fun h => other (h.subset inEnd)⟩

theorem unmarked_spaceless {l : JsString} (spaceless : 0x20 ∉ l) : Unmarked l :=
  unmarked_of_not_mem (by decide) (by decide) spaceless

theorem unmarked_prefixed {p l : JsString} (dashless : Js.ascii '-' ∉ p) (unmarked : Unmarked l) :
    Unmarked (p ++ l) :=
  ⟨fun h => unmarked.1 (Lines.infix_prefixed rfl dashless h),
    fun h => unmarked.2 (Lines.infix_prefixed rfl dashless h)⟩

theorem unmarked_sliced {text : JsString} (spaceless : 0x20 ∉ text) :
    ∀ l ∈ sliced text, Unmarked l := by
  intro l mem
  obtain ⟨i, -, rfl⟩ := List.mem_map.mp mem
  apply unmarked_prefixed (by decide)
  apply unmarked_spaceless
  exact fun h => spaceless (List.mem_of_mem_drop (List.mem_of_mem_take h))

/-- The text of a number has no `Y`. -/
theorem not_mem_shown (x : Double) : Js.ascii 'Y' ∉ shown x := by
  have other : ∀ c ∈ x.toString, c ≠ 'Y' ∧ c.toNat < 128 := by
    intro c mem
    cases x with
    | nan =>
      have all : (Double.toString .nan).all (fun c => c ≠ 'Y' ∧ c.toNat < 128) = true := by decide
      exact of_decide_eq_true (List.all_eq_true.mp all c mem)
    | infinity negative =>
      have all : (Double.toString (.infinity negative)).all (fun c => c ≠ 'Y' ∧ c.toNat < 128) =
          true := by
        cases negative <;> decide
      exact of_decide_eq_true (List.all_eq_true.mp all c mem)
    | finite negative bits =>
      have numeral := Js.isNumeral_toString c mem
      refine ⟨?_, Js.numeral_ascii numeral⟩
      rintro rfl
      exact absurd numeral (by decide)
  intro mem
  obtain ⟨c, here, mem⟩ := List.mem_flatMap.mp mem
  obtain ⟨different, small⟩ := other c here
  rw [Utf16.encodeChar, if_pos (by omega), List.mem_singleton] at mem
  have chars := congrArg (fun u => Char.ofNat u.toNat) mem
  simp only [Js.ofNat_ascii (show 'Y'.toNat < 128 by decide)] at chars
  exact different ((Js.ofNat_ascii small).symm.trans chars.symm)

/-! ## The vault's text has no dash in front of a space -/

def Calm (s : JsString) : Prop :=
  s.IsChain (fun u w => ¬ (u = Js.ascii '-' ∧ w = 0x20)) ∧ s.head? ≠ some 0x20

theorem Calm.append {s t : JsString} (hs : Calm s) (ht : Calm t) : Calm (s ++ t) := by
  constructor
  · refine List.isChain_append.mpr ⟨hs.1, ht.1, ?_⟩
    rintro u - w first ⟨-, rfl⟩
    exact ht.2 first
  · cases s with
    | nil => exact ht.2
    | cons u s => exact hs.2

theorem Calm.unmarked {s : JsString} (calm : Calm s) : Unmarked s := by
  have dashed : ¬ beginMarker.IsChain (fun u w => ¬ (u = Js.ascii '-' ∧ w = 0x20)) ∧
      ¬ endMarker.IsChain (fun u w => ¬ (u = Js.ascii '-' ∧ w = 0x20)) := by
    decide
  have inside {m : JsString} (h : m <:+: s) :
      m.IsChain (fun u w => ¬ (u = Js.ascii '-' ∧ w = 0x20)) := by
    obtain ⟨before, after, rfl⟩ := h
    exact (List.isChain_append.mp (List.isChain_append.mp calm.1).1).2.1
  exact ⟨fun h => dashed.1 (inside h), fun h => dashed.2 (inside h)⟩

theorem calm_dashless {s : JsString} (dashless : Js.ascii '-' ∉ s) (head : s.head? ≠ some 0x20) :
    Calm s := by
  refine ⟨(List.isChain_isInfix s).imp ?_, head⟩
  rintro u w inside ⟨rfl, -⟩
  exact dashless (inside.subset List.mem_cons_self)

theorem calm_spaceless {s : JsString} (spaceless : 0x20 ∉ s) : Calm s := by
  constructor
  · refine (List.isChain_isInfix s).imp ?_
    rintro u w inside ⟨-, rfl⟩
    exact spaceless (inside.subset (List.mem_cons_of_mem u List.mem_cons_self))
  · exact fun head => spaceless (List.mem_of_mem_head? head)

theorem calm_quote {s : JsString} (spaceless : 0x20 ∉ s) : Calm (Js.quote s) := by
  have escapes : Js.Escapes (· ≠ 0x20) := by
    constructor
    · intro u letter same
      rw [same] at letter
      exact absurd letter (by decide)
    · intro n small
      interval_cases n <;> decide
  have other : ∀ u ∈ s, u ≠ 0x20 := fun u mem same => spaceless (same ▸ mem)
  exact calm_spaceless fun mem => escapes.quote other _ mem rfl

theorem calm_number (x : Double) : Calm (Js.number x) := by
  apply calm_spaceless
  refine fun mem => Js.forall_mem_number (Q := (· ≠ 0x20)) ?_ ?_ x _ mem rfl
  · intro c numeral same
    have chars := congrArg (fun u => Char.ofNat u.toNat) same
    rw [Js.ofNat_ascii (Js.numeral_ascii numeral)] at chars
    rw [chars] at numeral
    exact absurd numeral (by decide)
  · intro u mem same
    rw [same] at mem
    exact absurd mem (by decide)

theorem calm_newline (depth : Nat) : Calm (Js.newline depth) := by
  have head : (Js.newline depth).head? ≠ some 0x20 := by
    rw [Js.newline, List.head?_cons]
    decide
  refine calm_dashless (fun mem => ?_) head
  rcases List.mem_cons.mp mem with h | h
  · exact absurd h (by decide)
  · exact absurd (List.eq_of_mem_replicate h) (by decide)

theorem calm_pieces : Js.Pieces Calm where
  nil := calm_spaceless List.not_mem_nil
  append := Calm.append
  newline := calm_newline
  left := calm_spaceless (by decide)
  right := calm_spaceless (by decide)
  comma := calm_spaceless (by decide)
  colon := calm_dashless (by decide) (by decide)

/-- An object whose keys and fields have none. -/
theorem calm_obj (depth : Nat) {fields : List (JsString × Js.Value)}
    (each : ∀ f ∈ fields, 0x20 ∉ f.1 ∧ Calm (Js.pretty (depth + 1) f.2)) :
    Calm (Js.pretty depth (.obj fields)) :=
  calm_pieces.obj depth fun f mem => ⟨calm_quote (each f mem).1, (each f mem).2⟩

/-! ## Vaults that the page made -/

namespace Box

def Valid : Box → Prop
  | v1 vault => vault.Valid
  | v2 vault => vault.Valid

/-- The texts that are no constants of the schema. -/
def texts : Box → List JsString
  | v1 vault =>
    [vault.version, vault.created_at, vault.kdf.salt, vault.aead.nonce, vault.aead.ciphertext]
  | v2 vault =>
    [vault.version, vault.created_at, vault.kdf.salt, vault.wrap.nonce, vault.wrap.wrapped_key,
      vault.content.nonce, vault.content.ciphertext]

structure Clear (box : Box) : Prop where
  valid : box.Valid
  opslimit : Js.Plain box.kdf.opslimit
  memlimit : Js.Plain box.kdf.memlimit
  texts : ∀ t ∈ box.texts, 0x20 ∉ t

end Box

theorem spaceless_b64 (bytes : Bytes) : 0x20 ∉ b64urlEncode bytes := by
  intro mem
  exact absurd (Cli.b64urlEncode_alphabet mem).1 (by decide)

section Made

variable {sodium : Sodium}

theorem settingsV1_fields {opts : EncryptOptionsV1} {draw : DrawV1} {s : SettingsV1}
    (h : settingsV1 opts draw = .ok s) :
    s.created_at = draw.now ∧ s.opslimit = Cli.numberOr opts.opslimit Cli.DEFAULT_OPSLIMIT ∧
      s.memlimit = Cli.numberOr opts.memlimit Cli.DEFAULT_MEMLIMIT := by
  unfold settingsV1 at h
  dsimp only at h
  split_ifs at h
  all_goals
    obtain ⟨salt, -, h⟩ := bind_eq_ok.mp h
    obtain ⟨nonce, -, h⟩ := bind_eq_ok.mp h
    cases h
  exact ⟨rfl, rfl, rfl⟩

/-- What the page has of a clock's text is that there is no space in it. -/
theorem clear_v1 {opts : EncryptOptionsV1} {draw : DrawV1} {made : Js.Value}
    (clock : 0x20 ∉ draw.now) (encrypted : encryptVaultV1 sodium opts draw = .ok made) :
    ∃ v, made = VaultV1.toValue v ∧ (Box.v1 v).Clear := by
  obtain ⟨s, accepted, encrypted⟩ := bind_eq_ok.mp encrypted
  obtain ⟨key, -, encrypted⟩ := bind_eq_ok.mp encrypted
  cases encrypted
  obtain ⟨created_at, opslimit, memlimit⟩ := settingsV1_fields accepted
  have ops : Js.Plain s.opslimit := Cli.plain_of_inRange (by decide) s.opslimit_in
    (opslimit ▸ Settings.numberOr_ne_nan _ _)
  have mem : Js.Plain s.memlimit := Cli.plain_of_inRange (by decide) s.memlimit_in
    (memlimit ▸ Settings.numberOr_ne_nan _ _)
  refine ⟨s.lock sodium.aead key, rfl, s.lock_valid _ _, ops, mem, ?_⟩
  simp only [Box.texts, List.forall_mem_cons]
  refine ⟨?_, ?_, spaceless_b64 _, spaceless_b64 _, spaceless_b64 _, List.forall_mem_nil _⟩
  · change 0x20 ∉ VERSION
    decide
  · rw [← created_at] at clock
    exact clock

theorem clear_v2 {opts : EncryptOptions} {draw : Draw} {made : Js.Value}
    (clock : 0x20 ∉ draw.now) (encrypted : encryptVaultV2 sodium opts draw = .ok made) :
    ∃ v, made = Vault.toValue v ∧ (Box.v2 v).Clear := by
  obtain ⟨s, accepted, encrypted⟩ := bind_eq_ok.mp encrypted
  obtain ⟨key, -, encrypted⟩ := bind_eq_ok.mp encrypted
  cases encrypted
  obtain ⟨-, -, -, version, created_at, opslimit, memlimit⟩ := settings_eq_ok accepted
  obtain ⟨ops, mem⟩ := Settings.plain_of_numberOr opslimit memlimit
  refine ⟨s.lock sodium.aead key, rfl, s.lock_valid _ _, ops, mem, ?_⟩
  simp only [Box.texts, List.forall_mem_cons]
  refine ⟨?_, ?_, spaceless_b64 _, spaceless_b64 _, spaceless_b64 _, spaceless_b64 _,
    spaceless_b64 _, List.forall_mem_nil _⟩
  · change 0x20 ∉ s.version
    rw [version]
    decide
  · rw [← created_at] at clock
    exact clock

end Made

namespace Box.Clear

variable {box : Box} (clear : box.Clear)

include clear

theorem spaceless_fields : 0x20 ∉ box.schema ∧ 0x20 ∉ box.version ∧ 0x20 ∉ box.created_at ∧
    0x20 ∉ box.mode ∧ 0x20 ∉ box.kdf.salt ∧ box.kdf.algorithm = KDF_ALG := by
  have constants : 0x20 ∉ SCHEMA_V1 ∧ 0x20 ∉ SCHEMA_V2 := by decide
  have modes {mode : JsString} (known : mode = js "self" ∨ mode = js "share") : 0x20 ∉ mode := by
    rcases known with rfl | rfl <;> decide
  cases box with
  | v1 vault =>
    obtain ⟨valid, -, -, texts⟩ := clear
    simp only [Box.texts, List.forall_mem_cons] at texts
    have schema : (Box.v1 vault).schema = SCHEMA_V1 := valid.schema
    rw [schema]
    exact ⟨constants.1, texts.1, texts.2.1, modes valid.mode, texts.2.2.1, valid.kdf_algorithm⟩
  | v2 vault =>
    obtain ⟨valid, -, -, texts⟩ := clear
    simp only [Box.texts, List.forall_mem_cons] at texts
    have schema : (Box.v2 vault).schema = SCHEMA_V2 := valid.schema
    rw [schema]
    exact ⟨constants.2, texts.1, texts.2.1, modes valid.mode, texts.2.2.1, valid.kdf_algorithm⟩

theorem calm_json : Calm (Js.stringify box.toValue) := by
  obtain ⟨schema, version, created_at, mode, salt, kdf_algorithm⟩ := clear.spaceless_fields
  have aead_algorithm : 0x20 ∉ AEAD_ALG := by decide
  have algorithm : 0x20 ∉ box.kdf.algorithm := by
    rw [kdf_algorithm]
    decide
  have kdf : Calm (Js.pretty 1 (.obj [
      (js "algorithm", .str box.kdf.algorithm),
      (js "opslimit", .num box.kdf.opslimit),
      (js "memlimit", .num box.kdf.memlimit),
      (js "salt", .str box.kdf.salt)])) := by
    apply calm_obj
    simp only [List.forall_mem_cons]
    exact ⟨⟨by decide, calm_quote algorithm⟩, ⟨by decide, calm_number _⟩,
      ⟨by decide, calm_number _⟩, ⟨by decide, calm_quote salt⟩, List.forall_mem_nil _⟩
  have texts := clear.texts
  cases box with
  | v1 vault =>
    simp only [Box.texts, List.forall_mem_cons] at texts
    obtain ⟨-, -, -, nonce, ciphertext, -⟩ := texts
    have valid : vault.Valid := clear.valid
    have aead : Calm (Js.pretty 1 (.obj [
        (js "algorithm", .str vault.aead.algorithm),
        (js "nonce", .str vault.aead.nonce),
        (js "ciphertext", .str vault.aead.ciphertext)])) := by
      apply calm_obj
      simp only [List.forall_mem_cons, valid.aead_algorithm]
      exact ⟨⟨by decide, calm_quote aead_algorithm⟩, ⟨by decide, calm_quote nonce⟩,
        ⟨by decide, calm_quote ciphertext⟩, List.forall_mem_nil _⟩
    apply calm_obj
    simp only [List.forall_mem_cons]
    exact ⟨⟨by decide, calm_quote schema⟩, ⟨by decide, calm_quote version⟩,
      ⟨by decide, calm_quote created_at⟩, ⟨by decide, calm_quote mode⟩, ⟨by decide, kdf⟩,
      ⟨by decide, aead⟩, List.forall_mem_nil _⟩
  | v2 vault =>
    simp only [Box.texts, List.forall_mem_cons] at texts
    obtain ⟨-, -, -, wrapNonce, wrapped_key, contentNonce, ciphertext, -⟩ := texts
    have valid : vault.Valid := clear.valid
    have wrap : Calm (Js.pretty 1 (.obj [
        (js "algorithm", .str vault.wrap.algorithm),
        (js "nonce", .str vault.wrap.nonce),
        (js "wrapped_key", .str vault.wrap.wrapped_key)])) := by
      apply calm_obj
      simp only [List.forall_mem_cons, valid.wrap_algorithm]
      exact ⟨⟨by decide, calm_quote aead_algorithm⟩, ⟨by decide, calm_quote wrapNonce⟩,
        ⟨by decide, calm_quote wrapped_key⟩, List.forall_mem_nil _⟩
    have content : Calm (Js.pretty 1 (.obj [
        (js "algorithm", .str vault.content.algorithm),
        (js "nonce", .str vault.content.nonce),
        (js "ciphertext", .str vault.content.ciphertext)])) := by
      apply calm_obj
      simp only [List.forall_mem_cons, valid.content_algorithm]
      exact ⟨⟨by decide, calm_quote aead_algorithm⟩, ⟨by decide, calm_quote contentNonce⟩,
        ⟨by decide, calm_quote ciphertext⟩, List.forall_mem_nil _⟩
    apply calm_obj
    simp only [List.forall_mem_cons]
    exact ⟨⟨by decide, calm_quote schema⟩, ⟨by decide, calm_quote version⟩,
      ⟨by decide, calm_quote created_at⟩, ⟨by decide, calm_quote mode⟩, ⟨by decide, kdf⟩,
      ⟨by decide, wrap⟩, ⟨by decide, content⟩, List.forall_mem_nil _⟩

theorem unmarked_recipe : ∀ l ∈ box.recipe, Unmarked l := by
  cases box with
  | v1 vault =>
    have valid : vault.Valid := clear.valid
    simp only [Box.recipe, valid.aead_algorithm]
    decide +kernel
  | v2 vault =>
    have valid : vault.Valid := clear.valid
    simp only [Box.recipe, valid.wrap_algorithm, valid.content_algorithm]
    decide +kernel

theorem unmarked_phraseMix : Unmarked box.phraseMix := by
  refine unmarked_of_not_mem (u := Js.ascii 'Y') (by decide) (by decide) ?_
  have fixed : Js.ascii 'Y' ∉ KDF_ALG ∧ Js.ascii 'Y' ∉ js "      Phrase mix:    " ∧
      Js.ascii 'Y' ∉ js " (work units " ∧ Js.ascii 'Y' ∉ js ", memory " ∧
      Js.ascii 'Y' ∉ js " MiB)" := by
    decide
  obtain ⟨-, -, -, -, -, algorithm⟩ := clear.spaceless_fields
  simp only [Box.phraseMix, algorithm, List.mem_append, fixed, not_mem_shown, or_self,
    not_false_eq_true]

theorem unmarked_secrets : ∀ l ∈ box.secrets, Unmarked l := by
  have texts := clear.texts
  have line {text : JsString} (spaceless : 0x20 ∉ text) : Unmarked (js "      " ++ text) :=
    unmarked_prefixed (by decide) (unmarked_spaceless spaceless)
  cases box with
  | v1 vault =>
    simp only [Box.texts, List.forall_mem_cons] at texts
    obtain ⟨-, -, -, nonce, ciphertext, -⟩ := texts
    simp only [Box.secrets, List.forall_mem_append, List.forall_mem_cons, line nonce]
    refine ⟨?_, unmarked_sliced ciphertext⟩
    decide +kernel
  | v2 vault =>
    simp only [Box.texts, List.forall_mem_cons] at texts
    obtain ⟨-, -, -, wrapNonce, wrapped_key, contentNonce, ciphertext, -⟩ := texts
    simp only [Box.secrets, List.forall_mem_append, List.forall_mem_cons, line wrapNonce,
      line contentNonce]
    refine ⟨⟨⟨?_, unmarked_sliced wrapped_key⟩, ?_⟩, unmarked_sliced ciphertext⟩
    · decide +kernel
    · decide +kernel

theorem unmarked_above {downloadFilename envelopeId : JsString} (name : Unmarked downloadFilename)
    (id : Unmarked envelopeId) : ∀ l ∈ box.above downloadFilename envelopeId, Unmarked l := by
  obtain ⟨schema, version, created_at, mode, salt, -⟩ := clear.spaceless_fields
  have line (p : String) {text : JsString} (dashless : Js.ascii '-' ∉ js p)
      (spaceless : 0x20 ∉ text) : Unmarked (js p ++ text) :=
    unmarked_prefixed dashless (unmarked_spaceless spaceless)
  have locked := line "Locked at: " (by decide) created_at
  have style := line "  Box style:         " (by decide) schema
  have made := line "  Made by version:   " (by decide) version
  have code := line "      " (by decide) salt
  have file : Unmarked (js "     File name:  " ++ downloadFilename) :=
    unmarked_prefixed (by decide) name
  have box_name : Unmarked (js "      " ++ envelopeId) := unmarked_prefixed (by decide) id
  have shared : Unmarked (js "  Mode:              " ++
      (if box.mode = js "share" then js "share with someone" else js "just for yourself")) := by
    split_ifs <;> decide +kernel
  simp only [Box.above, List.forall_mem_append, List.forall_mem_cons, locked, style, made, code,
    file, box_name, shared, clear.unmarked_phraseMix, true_and]
  refine ⟨⟨⟨⟨?_, clear.unmarked_recipe⟩, ?_⟩, clear.unmarked_secrets⟩, ?_⟩
  · decide +kernel
  · decide +kernel
  · decide +kernel

end Box.Clear

/-! ## Read back -/

theorem trim_padded {before core after : JsString} {u v : UInt16}
    (spaces : ∀ x ∈ before ++ after, isStrSpace x = true) (first : core.head? = some u)
    (last : core.getLast? = some v) (hu : isStrSpace u = false) (hv : isStrSpace v = false) :
    trim (before ++ core ++ after) = core := by
  obtain ⟨init, rfl⟩ : ∃ init, core = init ++ [v] := List.getLast?_eq_some_iff.mp last
  have front : (before ++ (init ++ [v]) ++ after).dropWhile isStrSpace = init ++ [v] ++ after := by
    rw [List.append_assoc, List.dropWhile_append_of_pos fun x mem =>
      spaces x (List.mem_append_left after mem)]
    cases h : init ++ [v] with
    | nil => exact absurd h (List.append_ne_nil_of_right_ne_nil init (List.cons_ne_nil v []))
    | cons x rest =>
      rw [h] at first
      obtain rfl := Option.some.inj first
      rw [List.cons_append, List.dropWhile_cons_of_neg (by rw [hu]; exact Bool.false_ne_true)]
  rw [trim, front, List.rdropWhile, List.reverse_append, List.dropWhile_append_of_pos fun x mem =>
    spaces x (List.mem_append_right before (List.mem_reverse.mp mem)), ← List.rdropWhile,
    List.rdropWhile_concat_neg _ _ _ (by rw [hv]; exact Bool.false_ne_true)]

theorem head?_append {s : JsString} {u : UInt16} (first : s.head? = some u) (t : JsString) :
    (s ++ t).head? = some u := by
  rw [List.head?_append, first, Option.some_or]

theorem isStrSpace_b64url {u : UInt16} (allowed : Cli.isB64url u = true) :
    isStrSpace u = false := by
  have each : ∀ n < 128, Cli.isB64url (.ofNat n) = true → isStrSpace (.ofNat n) = false := by
    decide
  have small : u.toNat < 128 := by
    rw [Cli.isB64url, Bool.and_eq_true] at allowed
    exact of_decide_eq_true allowed.1
  rw [← UInt16.ofNat_toNat (x := u)] at allowed ⊢
  exact each _ small allowed

theorem innerOf_eq_none {trimmed : JsString} (unmarked : Unmarked trimmed) :
    innerOf trimmed = none := by
  rw [innerOf, Lines.indexOf_eq_none unmarked.1]

/-- Between the markers stands what stands between two lines. -/
theorem innerOf_sheet {top json rest : JsString} {u v : UInt16} (unmarked : Unmarked top)
    (calm : Calm json) (first : json.head? = some u) (last : json.getLast? = some v)
    (hu : isStrSpace u = false) (hv : isStrSpace v = false) :
    innerOf (top ++ 0x0A :: (beginMarker ++ 0x0A :: (json ++ 0x0A :: (endMarker ++ rest)))) =
      some json := by
  have fixed : (0x0A ∉ beginMarker ∧ 0x0A ∉ endMarker) ∧ ¬ endMarker <:+: beginMarker ∧
      beginMarker ≠ [] ∧ endMarker ≠ [] := by
    decide
  obtain ⟨⟨inBegin, inEnd⟩, apart, someBegin, someEnd⟩ := fixed
  let front := top ++ 0x0A :: (beginMarker ++ 0x0A :: json)
  have whole : top ++ 0x0A :: (beginMarker ++ 0x0A :: (json ++ 0x0A :: (endMarker ++ rest))) =
      front ++ 0x0A :: (endMarker ++ rest) := by
    simp only [front, List.append_assoc, List.cons_append]
  have begins := Lines.indexOf_line inBegin someBegin unmarked.1
    (List.prefix_append beginMarker (0x0A :: (json ++ 0x0A :: (endMarker ++ rest))))
  have free : ¬ endMarker <:+: front := by
    intro h
    rcases Lines.infix_line inEnd h with h | h
    · exact unmarked.2 h
    · rcases Lines.infix_line inEnd h with h | h
      · exact apart h
      · exact calm.unmarked.2 h
  have ends := Lines.indexOf_line inEnd someEnd free (List.prefix_append endMarker rest)
  have length : front.length = top.length + 1 + beginMarker.length + 1 + json.length := by
    simp only [front, List.length_append, List.length_cons]
    omega
  have slice :
      ((front ++ 0x0A :: (endMarker ++ rest)).drop (top.length + 1 + beginMarker.length)).take
        (front.length + 1 - (top.length + 1 + beginMarker.length)) = [0x0A] ++ json ++ [0x0A] := by
    have start : front ++ 0x0A :: (endMarker ++ rest) = (top ++ 0x0A :: beginMarker) ++
        (([0x0A] ++ json ++ [0x0A]) ++ (endMarker ++ rest)) := by
      simp only [front, List.append_assoc, List.cons_append, List.nil_append]
    rw [start, List.drop_left' (by simp only [List.length_append, List.length_cons]; omega),
      List.take_left' (by simp only [List.length_append, List.length_singleton]; omega)]
  have spaces : ∀ x ∈ ([0x0A] : JsString) ++ [0x0A], isStrSpace x = true :=
    List.all_eq_true.mp (by decide)
  rw [innerOf, whole, ends, ← whole, begins]
  dsimp only
  rw [if_pos (by omega), whole, slice, trim_padded spaces first last hu hv]

namespace Box

/-- The vault with its keys in order. -/
def sorted : Box → Js.Value
  | v1 v => .obj [
      (js "aead", .obj [
        (js "algorithm", .str v.aead.algorithm),
        (js "ciphertext", .str v.aead.ciphertext),
        (js "nonce", .str v.aead.nonce)]),
      (js "created_at", .str v.created_at),
      (js "kdf", .obj [
        (js "algorithm", .str v.kdf.algorithm),
        (js "memlimit", .num v.kdf.memlimit),
        (js "opslimit", .num v.kdf.opslimit),
        (js "salt", .str v.kdf.salt)]),
      (js "mode", .str v.mode),
      (js "schema", .str v.schema),
      (js "version", .str v.version)]
  | v2 v => .obj [
      (js "content", .obj [
        (js "algorithm", .str v.content.algorithm),
        (js "ciphertext", .str v.content.ciphertext),
        (js "nonce", .str v.content.nonce)]),
      (js "created_at", .str v.created_at),
      (js "kdf", .obj [
        (js "algorithm", .str v.kdf.algorithm),
        (js "memlimit", .num v.kdf.memlimit),
        (js "opslimit", .num v.kdf.opslimit),
        (js "salt", .str v.kdf.salt)]),
      (js "mode", .str v.mode),
      (js "schema", .str v.schema),
      (js "version", .str v.version),
      (js "wrap", .obj [
        (js "algorithm", .str v.wrap.algorithm),
        (js "nonce", .str v.wrap.nonce),
        (js "wrapped_key", .str v.wrap.wrapped_key)])]

theorem sortKeys_toValue (box : Box) : box.toValue.sortKeys = box.sorted := by
  cases box with
  | v1 vault => rfl
  | v2 vault => rfl

theorem ordered_toValue (box : Box) : Json.Keys Js.Ordered box.toValue := by
  cases box with
  | v2 vault => exact Cli.ordered_toValue vault
  | v1 vault =>
    have top : Js.Ordered (["schema", "version", "created_at", "mode", "kdf", "aead"].map js) := by
      decide
    have kdf : Js.Ordered (["algorithm", "opslimit", "memlimit", "salt"].map js) := by
      decide
    have aead : Js.Ordered (["algorithm", "nonce", "ciphertext"].map js) := by
      decide
    simp only [toValue, VaultV1.toValue, Json.Keys, Json.KeysFields, and_true, true_and]
    exact ⟨top, kdf, aead⟩

theorem ordered_sorted (box : Box) : Json.Keys Js.Ordered box.sorted := by
  have kdf : Js.Ordered (["algorithm", "memlimit", "opslimit", "salt"].map js) := by
    decide
  have part : Js.Ordered (["algorithm", "ciphertext", "nonce"].map js) := by
    decide
  cases box with
  | v1 vault =>
    have top : Js.Ordered (["aead", "created_at", "kdf", "mode", "schema", "version"].map js) := by
      decide
    simp only [sorted, Json.Keys, Json.KeysFields, and_true, true_and]
    exact ⟨top, part, kdf⟩
  | v2 vault =>
    have top : Js.Ordered (["content", "created_at", "kdf", "mode", "schema", "version",
        "wrap"].map js) := by
      decide
    have wrap : Js.Ordered (["algorithm", "nonce", "wrapped_key"].map js) := by
      decide
    simp only [sorted, Json.Keys, Json.KeysFields, and_true, true_and]
    exact ⟨top, part, kdf, wrap⟩

theorem alike_sorted (box : Box) : Json.Alike (· = ·) box.sorted box.toValue := by
  have nodup := Cli.nodup_of_ordered box.ordered_toValue
  rw [Json.alike_iff _ _ (Cli.nodup_of_ordered box.ordered_sorted) nodup, ← sortKeys_toValue,
    Json.sortKeys_sortKeys _ nodup]

namespace Clear

variable {box : Box} (clear : box.Clear)

include clear

theorem written_toValue : Js.written box.toValue = box.toValue := by
  apply Js.written_eq_self
  have ops := clear.opslimit
  have mem := clear.memlimit
  cases box with
  | v1 vault =>
    simp only [toValue, VaultV1.toValue, Json.Numbers, Json.NumbersFields, true_and, and_true]
    exact ⟨ops, mem⟩
  | v2 vault =>
    simp only [toValue, Vault.toValue, Json.Numbers, Json.NumbersFields, true_and, and_true]
    exact ⟨ops, mem⟩

theorem written_sorted : Js.written box.sorted = box.sorted := by
  rw [← sortKeys_toValue, Cli.written_sortKeys, clear.written_toValue]

theorem parseJson_file : Js.parseJson (Js.stringify box.toValue) = some box.toValue := by
  have read := Js.parseJson_stringify box.ordered_toValue (List.forall_mem_nil _)
  rw [List.append_nil, clear.written_toValue] at read
  exact read

theorem parseJson_text : (fromUtf8 (utf8 (canonicalJSON box.toValue))).bind Js.parseJson =
    some box.sorted := by
  have head : (canonicalJSON box.toValue).head? ≠ some 0xFEFF := by
    rw [canonicalJSON, sortKeys_toValue]
    cases box with
    | v1 vault => exact (by decide : some (Js.ascii '\x7b') ≠ some 0xFEFF)
    | v2 vault => exact (by decide : some (Js.ascii '\x7b') ≠ some 0xFEFF)
  have text := Js.wellFormed_print box.sorted
  rw [canonicalJSON, sortKeys_toValue] at head ⊢
  rw [Cli.fromUtf8_utf8 text head, Option.bind_some, Js.parseJson_print box.ordered_sorted,
    clear.written_sorted]

/-- The order of the keys makes no difference to what opens. -/
theorem decryptVault_sorted (sodium : Sodium) (password : JsString) :
    decryptVault sodium box.sorted password = decryptVault sodium box.toValue password := by
  cases box with
  | v1 vault =>
    have valid : vault.Valid := clear.valid
    have schema : get (v1 vault).sorted "schema" = some (.str SCHEMA_V1) :=
      congrArg (fun s => some (Json.str s)) valid.schema
    have mode : modeOf (some (.str vault.mode)) = .ok vault.mode := if_pos valid.mode
    have kdf : enforceKdfCaps (get (v1 vault).sorted "kdf") = .ok vault.kdf := by
      simp [sorted, enforceKdfCaps, Cli.object, Cli.constant_str valid.kdf_algorithm,
        Cli.numberIn_num valid.opslimit, Cli.numberIn_num valid.memlimit, Cli.string]
    have part : partOf (get (v1 vault).sorted "aead") "Unsupported AEAD algorithm: " =
        .ok (.obj [
          (js "algorithm", .str vault.aead.algorithm),
          (js "ciphertext", .str vault.aead.ciphertext),
          (js "nonce", .str vault.aead.nonce)]) := by
      simp [sorted, partOf, Js.truthy, Cli.constant_str valid.aead_algorithm]
    have aead : (⟨AEAD_ALG, vault.aead.nonce, vault.aead.ciphertext⟩ : Cli.Content) =
        vault.aead := by
      rw [← valid.aead_algorithm]
    have whole : Cli.object (some (v1 vault).sorted) "Vault malformed: not an object" =
        .ok (v1 vault).sorted := rfl
    have read : validateVaultSchemaV1 (v1 vault).sorted = .ok vault := by
      rw [validateVaultSchemaV1, validateCommonVaultFields, whole, ok_bind]
      simp only [kdf, part, ok_bind]
      simp [sorted, Cli.string, Cli.constant_str valid.schema, mode, aead]
    have own : decryptVault sodium vault.toValue password =
        decryptVaultV1 sodium vault.toValue password :=
      decryptVault_v1 (valid_of_validateV1 (validateV1_toValue valid)).2
    rw [decryptVault_v1 schema, toValue, own, decryptVaultV1, decryptVaultV1, read,
      validateV1_toValue valid]
  | v2 vault =>
    have valid : vault.Valid := clear.valid
    have reads : Reads (v2 vault).sorted vault :=
      { schema := rfl, version := rfl, created_at := rfl, mode := rfl
        kdf := ⟨_, rfl, rfl, rfl, rfl, rfl⟩
        wrap := ⟨_, rfl, rfl, rfl, rfl⟩
        content := ⟨_, rfl, rfl, rfl, rfl⟩ }
    have supported : Supported vault :=
      ⟨valid.schema, valid.mode, valid.kdf_algorithm, valid.wrap_algorithm, valid.content_algorithm⟩
    have caps : InCaps vault := ⟨valid.opslimit, valid.memlimit⟩
    have own := reads_toValue vault
    rw [decryptVault_v2 (valid.schema ▸ reads.schema), toValue,
      decryptVault_v2 (valid.schema ▸ own.schema), decryptVaultV2, decryptVaultV2,
      ui_of_reads reads supported caps, ui_of_reads own supported caps]

end Clear

/-- The vault on the page, under a clock whose text has no space. -/
inductive Encrypted (sodium : Sodium) : Box → Prop
  | v1 {opts : EncryptOptionsV1} {draw : DrawV1} {vault : VaultV1} (clock : 0x20 ∉ draw.now)
      (encrypted : encryptVaultV1 sodium opts draw = .ok vault.toValue) :
      Encrypted sodium (v1 vault)
  | v2 {opts : EncryptOptions} {draw : Draw} {vault : Vault} (clock : 0x20 ∉ draw.now)
      (encrypted : encryptVaultV2 sodium opts draw = .ok vault.toValue) :
      Encrypted sodium (v2 vault)

theorem toValue_injective {v w : VaultV1} (same : v.toValue = w.toValue) : v = w := by
  obtain ⟨_, _, _, _, ⟨_, _, _, _⟩, ⟨_, _, _⟩⟩ := v
  obtain ⟨_, _, _, _, ⟨_, _, _, _⟩, ⟨_, _, _⟩⟩ := w
  simp only [VaultV1.toValue, Json.obj.injEq, List.cons.injEq, Prod.mk.injEq, Json.str.injEq,
    Json.num.injEq, true_and, and_true] at same
  obtain ⟨rfl, rfl, rfl, rfl, ⟨rfl, rfl, rfl, rfl⟩, rfl, rfl, rfl⟩ := same
  rfl

theorem Encrypted.clear {sodium : Sodium} {box : Box} (made : Encrypted sodium box) :
    box.Clear := by
  cases made with
  | v1 clock encrypted =>
    obtain ⟨v, same, clear⟩ := clear_v1 clock encrypted
    rw [toValue_injective same]
    exact clear
  | v2 clock encrypted =>
    obtain ⟨v, same, clear⟩ := clear_v2 clock encrypted
    have reads := reads_toValue v
    rw [← same] at reads
    rw [(reads_toValue _).unique reads]
    exact clear

end Box

section Forms

variable {box : Box} (clear : box.Clear) {before after : JsString}
  (spaces : ∀ x ∈ before ++ after, isStrSpace x = true)

/-- Before anything is parsed as a vault, the form looks for a chat message. -/
def NoChat (raw : JsString) : Prop :=
  ∀ lower hash decrypt phrase, tryDecryptChatEnvelope lower hash decrypt raw phrase = .ok none

theorem noChat_of_head {raw core : JsString} {u : UInt16} (trimmed : trim raw = core)
    (first : core.head? = some u) (other : u ≠ Js.ascii '\x7b') : NoChat raw := by
  intro lower hash decrypt phrase
  rw [tryDecryptChatEnvelope, trimmed, first, if_pos (fun same => other (Option.some.inj same))]

include clear spaces

theorem parse_file : NoChat (before ++ vaultFile box ++ after) ∧
    parseVaultInput (before ++ vaultFile box ++ after) = .ok box.toValue := by
  have ends : (vaultFile box).head? = some (Js.ascii '\x7b') ∧
      (vaultFile box).getLast? = some (Js.ascii '\x7d') := by
    cases box with
    | v1 vault => exact ⟨rfl, List.getLast?_concat⟩
    | v2 vault => exact ⟨rfl, List.getLast?_concat⟩
  have trimmed := trim_padded spaces ends.1 ends.2 (by decide) (by decide)
  constructor
  · have schema : isChatSchema (get box.toValue "schema") = false := by
      cases box with
      | v1 vault =>
        have valid : vault.schema = SCHEMA_V1 := clear.valid.schema
        exact decide_eq_false (valid ▸ (by decide))
      | v2 vault =>
        have valid : vault.schema = SCHEMA_V2 := clear.valid.schema
        exact decide_eq_false (valid ▸ (by decide))
    intro lower hash decrypt phrase
    rw [tryDecryptChatEnvelope, trimmed, ends.1, if_neg (not_not_intro rfl), vaultFile,
      clear.parseJson_file]
    dsimp only
    rw [schema, if_neg Bool.false_ne_true]
  · have nonempty : vaultFile box ≠ [] := by
      intro empty
      rw [empty] at ends
      cases ends.1
    have noPrefix : textPrefixOf (vaultFile box) = none := by
      have other (m : JsString) (first : m.head? = some (Js.ascii 'B')) :
          indexOf m (vaultFile box) ≠ some 0 := by
        intro here
        obtain ⟨rest, same⟩ := Lines.indexOf_eq_zero.mp here
        have heads := ends.1
        rw [← same, head?_append first] at heads
        exact absurd heads (by decide)
      rw [textPrefixOf, if_neg (other _ rfl), if_neg (other _ rfl)]
    have unmarked : Unmarked (vaultFile box) := clear.calm_json.unmarked
    rw [parseVaultInput, trimmed, if_neg nonempty, innerOf_eq_none unmarked, noPrefix]
    exact congrArg (orMessage · _) clear.parseJson_file

theorem parse_text : NoChat (before ++ vaultText box ++ after) ∧
    parseVaultInput (before ++ vaultText box ++ after) = .ok box.sorted := by
  let enc := b64urlEncode (utf8 (canonicalJSON box.toValue))
  obtain ⟨textPrefix, text, first, solid, found⟩ : ∃ textPrefix : JsString,
      vaultText box = textPrefix ++ enc ∧ textPrefix.head? = some (Js.ascii 'B') ∧
      textPrefix.all (fun u => !isStrSpace u) = true ∧
      textPrefixOf (textPrefix ++ enc) = some textPrefix := by
    cases box with
    | v1 vault =>
      have schema : vault.schema = SCHEMA_V1 := clear.valid.schema
      refine ⟨VAULT_TEXT_PREFIX_V1, ?_, rfl, by decide, ?_⟩
      · rw [vaultText, Box.schema, if_pos schema]
      · have other : indexOf VAULT_TEXT_PREFIX_V2 (VAULT_TEXT_PREFIX_V1 ++ enc) ≠ some 0 := by
          intro here
          have inside := List.prefix_of_prefix_length_le (Lines.indexOf_eq_zero.mp here)
            (List.prefix_append VAULT_TEXT_PREFIX_V1 enc) (by decide)
          exact absurd inside (by decide)
        rw [textPrefixOf, if_neg other, if_pos (Lines.indexOf_prefix (List.prefix_append _ _))]
    | v2 vault =>
      have schema : vault.schema = SCHEMA_V2 := clear.valid.schema
      refine ⟨VAULT_TEXT_PREFIX_V2, ?_, rfl, by decide, ?_⟩
      · rw [vaultText, Box.schema, schema, if_neg (by decide)]
      · rw [textPrefixOf, if_pos (Lines.indexOf_prefix (List.prefix_append _ _))]
  have all : ∀ u ∈ textPrefix ++ enc, isStrSpace u = false := by
    intro u mem
    rcases List.mem_append.mp mem with mem | mem
    · exact (Bool.not_eq_true' _).mp (List.all_eq_true.mp solid u mem)
    · exact isStrSpace_b64url (Cli.b64urlEncode_alphabet mem).1
  have nonempty : textPrefix ++ enc ≠ [] := by
    rintro empty
    rw [(List.append_eq_nil_iff.mp empty).1] at first
    cases first
  have head : (textPrefix ++ enc).head? = some (Js.ascii 'B') := by
    exact head?_append first _
  have last := List.getLast?_eq_some_getLast nonempty
  have trimmed := trim_padded spaces head last (by decide) (all _ (List.getLast_mem nonempty))
  have unmarked : Unmarked (textPrefix ++ enc) := by
    apply unmarked_spaceless
    intro mem
    exact absurd (all _ mem) (by decide)
  rw [text]
  refine ⟨noChat_of_head trimmed head (by decide), ?_⟩
  rw [parseVaultInput, trimmed, if_neg nonempty, innerOf_eq_none unmarked, found]
  dsimp only
  rw [List.drop_left, decodeText, b64urlDecode_b64urlEncode]
  dsimp only
  rw [clear.parseJson_text]

theorem parse_sheet {downloadFilename envelopeId : JsString} (name : Unmarked downloadFilename)
    (id : Unmarked envelopeId) :
    NoChat (before ++ buildRecoverySheet box downloadFilename envelopeId ++ after) ∧
    parseVaultInput (before ++ buildRecoverySheet box downloadFilename envelopeId ++ after) =
      .ok box.toValue := by
  let json := Js.stringify box.toValue
  let front := joined 0x0A (box.above downloadFilename envelopeId)
  let rest : JsString := 0x0A :: joined 0x0A Box.below
  let core := front ++ 0x0A :: (beginMarker ++ 0x0A :: (json ++ 0x0A :: (endMarker ++ rest)))
  have ends : json.head? = some (Js.ascii '\x7b') ∧ json.getLast? = some (Js.ascii '\x7d') := by
    cases box with
    | v1 vault => exact ⟨rfl, List.getLast?_concat⟩
    | v2 vault => exact ⟨rfl, List.getLast?_concat⟩
  obtain ⟨more, above⟩ : ∃ more, box.above downloadFilename envelopeId = HR :: more := ⟨_, rfl⟩
  have sheet : buildRecoverySheet box downloadFilename envelopeId = core ++ [0x0A] := by
    have lines : split 0x0A json ≠ [] := Lines.split_ne_nil json
    have footer : Box.below ≠ [] := List.cons_ne_nil _ _
    rw [buildRecoverySheet]
    simp only [List.append_assoc, List.cons_append, List.nil_append]
    rw [Lines.joined_append _ (above ▸ List.cons_ne_nil _ _) (List.cons_ne_nil _ _),
      Lines.joined_cons _ (List.append_ne_nil_of_left_ne_nil lines _),
      Lines.joined_append _ lines (List.cons_ne_nil _ _), Lines.joined_split,
      Lines.joined_cons _ footer]
  have head : core.head? = some (Js.ascii '=') := by
    have first : front.head? = some (Js.ascii '=') := by
      simp only [front, above]
      cases more with
      | nil => rfl
      | cons l ls => rfl
    exact head?_append first _
  have last : core.getLast? = some (Js.ascii '=') := by
    have final : rest.getLast? = some (Js.ascii '=') := by decide +kernel
    have whole : core = (front ++ 0x0A :: (beginMarker ++ 0x0A :: (json ++ 0x0A :: endMarker))) ++
        rest := by
      simp only [core, List.append_assoc, List.cons_append]
    rw [whole, List.getLast?_append, final, Option.some_or]
  have padded : before ++ buildRecoverySheet box downloadFilename envelopeId ++ after =
      before ++ core ++ (0x0A :: after) := by
    rw [sheet]
    simp only [List.append_assoc, List.singleton_append]
  have spaces' : ∀ x ∈ before ++ 0x0A :: after, isStrSpace x = true := by
    intro x mem
    rcases List.mem_append.mp mem with mem | mem
    · exact spaces x (List.mem_append_left after mem)
    · rcases List.mem_cons.mp mem with rfl | mem
      · rfl
      · exact spaces x (List.mem_append_right before mem)
  have trimmed := trim_padded spaces' head last (by decide) (by decide)
  have unmarked : Unmarked front := by
    constructor
    · intro h
      obtain ⟨l, mem, inside⟩ := Lines.infix_joined (by decide) (by decide) h
      exact (clear.unmarked_above name id l mem).1 inside
    · intro h
      obtain ⟨l, mem, inside⟩ := Lines.infix_joined (by decide) (by decide) h
      exact (clear.unmarked_above name id l mem).2 inside
  have nonempty : core ≠ [] := by
    intro empty
    rw [empty] at head
    cases head
  rw [padded]
  refine ⟨noChat_of_head trimmed head (by decide), ?_⟩
  rw [parseVaultInput, trimmed, if_neg nonempty,
    innerOf_sheet unmarked clear.calm_json ends.1 ends.2 (by decide) (by decide)]
  exact congrArg (orMessage · _) clear.parseJson_file

end Forms

/-- Each of the three forms of a vault that the page made is read again as that
vault, up to the order of keys, with any white space around it: no chat message
is seen in it, and it opens with the phrases that the vault opens with, to the
same text. The name of the file and the name of the box have no marker in them. -/
theorem renderings_read {sodium : Sodium} {box : Box} (made : Box.Encrypted sodium box)
    {downloadFilename envelopeId : JsString} (name : Unmarked downloadFilename)
    (id : Unmarked envelopeId) {text : JsString}
    (rendered : text ∈ renderings box downloadFilename envelopeId) {before after : JsString}
    (spaces : ∀ x ∈ before ++ after, isStrSpace x = true) :
    NoChat (before ++ text ++ after) ∧
    ∃ value, parseVaultInput (before ++ text ++ after) = .ok value ∧
      Json.Alike (· = ·) value box.toValue ∧
      ∀ sodium password,
        decryptVault sodium value password = decryptVault sodium box.toValue password := by
  have clear := made.clear
  have nodup := Cli.nodup_of_ordered box.ordered_toValue
  have itself : Json.Alike (· = ·) box.toValue box.toValue :=
    (Json.alike_iff _ _ nodup nodup).mpr rfl
  simp only [renderings, List.mem_cons, List.not_mem_nil, or_false] at rendered
  rcases rendered with rfl | rfl | rfl
  · obtain ⟨noChat, parsed⟩ := parse_file clear spaces
    exact ⟨noChat, _, parsed, itself, fun _ _ => rfl⟩
  · obtain ⟨noChat, parsed⟩ := parse_sheet clear spaces name id
    exact ⟨noChat, _, parsed, itself, fun _ _ => rfl⟩
  · obtain ⟨noChat, parsed⟩ := parse_text clear spaces
    exact ⟨noChat, _, parsed, box.alike_sorted, clear.decryptVault_sorted⟩

def sampleV2 : EncryptOptions :=
  ⟨js "hello", js "correct horse", js "self", none, none, none, none, none, none⟩

/-- A recovery sheet that is pasted with blanks. -/
theorem sample_renderings : ∃ box, Box.Encrypted Cli.sampleSodium box ∧
    ∀ text ∈ renderings box (js "my - vault.json") (js "00ff"),
      ∃ value, parseVaultInput (js "  " ++ text ++ js "\n") = .ok value ∧
        decryptVault Cli.sampleSodium value (js "correct horse") = .ok (js "hello") := by
  obtain ⟨s, accepted⟩ := exists_of_isOk (x := settings sampleV2 Cli.sampleDraw) (by decide +kernel)
  obtain ⟨password, ptBytes, -⟩ := settings_eq_ok accepted
  let key : Bytes := .replicate Cli.KEY_BYTES 0
  have stretched : s.stretch Cli.sampleSodium s.password = .ok key := rfl
  let vault := s.lock Cli.sampleSodium.aead key
  have encrypted : encryptVaultV2 Cli.sampleSodium sampleV2 Cli.sampleDraw = .ok vault.toValue := by
    rw [encryptVaultV2, accepted, ok_bind, stretched]
    rfl
  have made : Box.Encrypted Cli.sampleSodium (.v2 vault) := .v2 (by decide) encrypted
  have text : Cli.readPlaintext s.ptBytes = .ok (js "hello") := by
    rw [ptBytes]
    decide +kernel
  have opened := Cli.decrypt_lock_with s.password_nonempty stretched
  rw [text] at opened
  have agree : (decryptVaultV2 Cli.sampleSodium vault.toValue s.password).toOption =
      (Cli.decryptVaultV2 Cli.sampleSodium vault.toValue s.password).toOption :=
    (lock_agree s key s.password).1
  rw [opened, password] at agree
  refine ⟨_, made, fun text rendered => ?_⟩
  have spaces : ∀ x ∈ js "  " ++ js "\n", isStrSpace x = true := List.all_eq_true.mp (by decide)
  obtain ⟨-, value, parsed, -, same⟩ :=
    renderings_read made (by decide +kernel) (by decide) rendered spaces
  refine ⟨value, parsed, ?_⟩
  rw [same, Box.toValue, decryptVault_v2 (reads_toValue vault).schema]
  exact toOption_eq_some.mp agree

end Qev.Ui
