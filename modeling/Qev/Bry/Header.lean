import Qev.Bry.Derivation
import Qev.Lib.PythonValue

/-! Packets as they come: dictionaries of any JSON values, which go through
dataclasses that check no types. -/

namespace Qev.Bry.Untyped

open Py (Clean Joined Loaded Str equalsInt equalsStr getItem lessThanInt py truthy)

inductive OpenError where
  | exc (e : Exc)
  | KeyError (key : String)
  | TypeError
  | AttributeError
  | UnsupportedHeader (field : String) (value : Loaded)
  | TokenCountMismatch (header : Loaded) (payload : Nat)

def lift {α : Type} (x : Except Exc α) : Except OpenError α := x.mapError .exc

structure PacketHeader where
  version : Loaded
  alg : Loaded
  bry_mode : Loaded
  context : Loaded
  packet_nonce : Loaded
  token_count : Loaded

structure PacketOpenResult where
  header : PacketHeader
  transformed_human : Str
  recovered_plaintext : Str
  recovered_human : Str
  token_count_ok : Bool

def FIELDS : List Str := [py "version", py "alg", py "bry_mode", py "context", py "packet_nonce",
  py "token_count"]

/-- An argument by its name. -/
def argument (raw : List (Str × Loaded)) (name : String) : Except OpenError Loaded :=
  (getItem (py name) raw).elim (.error .TypeError) .ok

/-- `PacketHeader(**raw_header)`: no name may be missing, and no other given. -/
def PacketHeader.of : Loaded → Except OpenError PacketHeader
  | .obj raw =>
    if raw.any (·.1 ∉ FIELDS) then .error .TypeError
    else do
      let version ← argument raw "version"
      let alg ← argument raw "alg"
      let bry_mode ← argument raw "bry_mode"
      let context ← argument raw "context"
      let packet_nonce ← argument raw "packet_nonce"
      let token_count ← argument raw "token_count"
      return { version, alg, bry_mode, context, packet_nonce, token_count }
  | _ => .error .TypeError

def PacketHeader.fields (header : PacketHeader) : List (Str × Loaded) := [
  (py "version", header.version), (py "alg", header.alg), (py "bry_mode", header.bry_mode),
  (py "context", header.context), (py "packet_nonce", header.packet_nonce),
  (py "token_count", header.token_count)]

def PacketHeader.asdict (header : PacketHeader) : Loaded := .obj header.fields

def validate_header (header : PacketHeader) : Except OpenError Unit :=
  if !equalsInt header.version SUPPORTED_PACKET_VERSION then
    .error (.UnsupportedHeader "version" header.version)
  else if !equalsStr header.alg SUPPORTED_PACKET_ALG then
    .error (.UnsupportedHeader "alg" header.alg)
  else if !equalsStr header.bry_mode SUPPORTED_BRY_MODE then
    .error (.UnsupportedHeader "bry_mode" header.bry_mode)
  else if !truthy header.context then
    .error (.exc (.ValueError "Packet context must be non-empty."))
  else if !truthy header.packet_nonce then
    .error (.exc (.ValueError "Packet nonce must be non-empty."))
  else match lessThanInt header.token_count 1 with
    | none => .error .TypeError
    | some true => .error (.exc (.ValueError "Packet token_count must be at least 1."))
    | some false => .ok ()

def header_bytes (header : PacketHeader) : Except OpenError Bytes :=
  lift (encode (Py.dumpsLoaded header.asdict))

/-- What has the methods of a string. -/
def text : Loaded → Except OpenError Str
  | .str s => .ok s
  | _ => .error .AttributeError

variable (decrypt : (key nonce aad ciphertext : Bytes) → Option Bytes)

def decrypt_bytes (master_key : Str) (packet_nonce context : Loaded) (ciphertext aad : Bytes) :
    Except OpenError Bytes := do
  let key := derive_aead_key (← lift (encode master_key)) (← lift (encode (← text context)))
  let nonce := derive_aead_nonce key (← lift (encode (← text packet_nonce)))
    (← lift (encode (← text context)))
  (decrypt key nonce aad ciphertext).elim (.error (.exc .InvalidTag)) .ok

def b64decode : Loaded → Except OpenError Bytes
  | .str s => lift ((Py.b64decode s).mapError .Base64Error)
  | _ => .error .TypeError

/-- `packet[key]`. -/
def item (packet : List (Str × Loaded)) (key : String) : Except OpenError Loaded :=
  (getItem (py key) packet).elim (.error (.KeyError key)) .ok

def open_packet_to_plaintext (packet : List (Str × Loaded)) (master_key : Str)
    (config : NFETConfig) : Except OpenError PacketOpenResult := do
  let raw_header ← item packet "header"
  let header ← PacketHeader.of raw_header
  validate_header header
  let ciphertext ← b64decode (← item packet "ciphertext_b64")
  let aad ← header_bytes header
  let payload ← decrypt_bytes decrypt master_key header.packet_nonce header.context ciphertext aad
  let tokens ← lift (bytes_to_tokens payload)
  if !equalsInt header.token_count tokens.length then
    throw (.TokenCountMismatch header.token_count tokens.length)
  let transformed_human ← lift (render_human_bry tokens)
  let reversed_result ← lift (reverse_transform_from_bry transformed_human master_key
    (← text header.packet_nonce) (← text header.context) config)
  return {
    header, transformed_human
    recovered_plaintext := reversed_result.recovered_plaintext
    recovered_human := reversed_result.original_human
    token_count_ok := true }

/-! ## Typed packets -/

def ofTyped (header : Bry.PacketHeader) : PacketHeader where
  version := .num (.int header.version)
  alg := .str header.alg
  bry_mode := .str header.bry_mode
  context := .str header.context
  packet_nonce := .str header.packet_nonce
  token_count := .num (.int header.token_count)

/-- `packet` as `build_packet_from_plaintext` returns it. -/
def asdict (packet : Packet) : List (Str × Loaded) := [
  (py "header", (ofTyped packet.header).asdict),
  (py "ciphertext_b64", .str packet.ciphertext_b64)]

def ofResult (result : Bry.PacketOpenResult) : PacketOpenResult where
  header := ofTyped result.header
  transformed_human := result.transformed_human
  recovered_plaintext := result.recovered_plaintext
  recovered_human := result.recovered_human
  token_count_ok := result.token_count_ok

theorem toOption_lift {α : Type} (x : Except Exc α) : (lift x).toOption = x.toOption :=
  toOption_mapError _ x

theorem lift_eq_ok {α : Type} {x : Except Exc α} {a : α} : lift x = .ok a ↔ x = .ok a :=
  mapError_eq_ok

theorem of_asdict (header : PacketHeader) : PacketHeader.of header.asdict = .ok header := by
  simp [PacketHeader.of, PacketHeader.asdict, PacketHeader.fields, argument, getItem, FIELDS]

theorem validate_eq_ok {header : PacketHeader} : validate_header header = .ok () ↔
    equalsInt header.version SUPPORTED_PACKET_VERSION = true ∧
    header.alg = .str SUPPORTED_PACKET_ALG ∧ header.bry_mode = .str SUPPORTED_BRY_MODE ∧
    truthy header.context = true ∧ truthy header.packet_nonce = true ∧
    lessThanInt header.token_count 1 = some false := by
  rw [validate_header, ← Py.equalsStr_iff, ← Py.equalsStr_iff]
  split_ifs with version alg bry_mode context packet_nonce
  · simp_all
  · simp_all
  · simp_all
  · simp_all
  · simp_all
  · cases less : lessThanInt header.token_count 1 with
    | none => simp
    | some small => cases small <;> simp_all

theorem validate_typed_eq_ok {header : Bry.PacketHeader} : Bry.validate_header header = .ok () ↔
    header.version = SUPPORTED_PACKET_VERSION ∧ header.alg = SUPPORTED_PACKET_ALG ∧
    header.bry_mode = SUPPORTED_BRY_MODE ∧ header.context ≠ [] ∧ header.packet_nonce ≠ [] ∧
    1 ≤ header.token_count := by
  rw [Bry.validate_header]
  split_ifs with version alg bry_mode context packet_nonce token_count <;> simp_all

theorem validate_ofTyped (header : Bry.PacketHeader) :
    (validate_header (ofTyped header)).toOption = (Bry.validate_header header).toOption := by
  rw [toOption_eq_iff]
  intro _
  rw [validate_eq_ok, validate_typed_eq_ok]
  simp [ofTyped, equalsInt, truthy, lessThanInt]

theorem header_bytes_ofTyped (header : Bry.PacketHeader) :
    header_bytes (ofTyped header) = lift (Bry.header_bytes header) :=
  congrArg (fun text => lift (encode text)) (Py.dumpsLoaded_int header.asdict)

/-! ## Header bytes -/

/-- The strings have no pairs of surrogates, and objects each key once, as
`json.loads` makes them. -/
def PacketHeader.Loads (header : PacketHeader) : Prop :=
  header.asdict.Within Joined (fun _ => True) ∧ header.asdict.Keys List.Nodup

theorem exists_header_bytes (header : PacketHeader) :
    ∃ bytes, encode (Py.dumpsLoaded header.asdict) = .ok bytes ∧
      header_bytes header = .ok bytes := by
  obtain ⟨cs, same⟩ := Py.map_cp_of_clean (Py.clean_dumpsLoaded header.asdict)
  have encoded := encode_eq_ok.mpr ⟨cs, same.symm, rfl⟩
  exact ⟨_, encoded, lift_eq_ok.mpr encoded⟩

theorem header_bytes_eq_iff {header header' : PacketHeader} (h : header.Loads)
    (h' : header'.Loads) :
    header_bytes header = header_bytes header' ↔
      header.asdict.Alike (· = ·) header'.asdict := by
  obtain ⟨bytes, encoded, same⟩ := exists_header_bytes header
  obtain ⟨bytes', encoded', same'⟩ := exists_header_bytes header'
  rw [← Py.dumpsLoaded_eq_iff h.1 h'.1 h.2 h'.2, same, same', Except.ok.injEq]
  constructor
  · rintro rfl
    exact encode_injective encoded encoded'
  · intro written
    rw [written, encoded'] at encoded
    exact (Except.ok.inj encoded).symm

theorem nodup_fields (header : PacketHeader) : (header.fields.map Prod.fst).Nodup := by
  change FIELDS.Nodup
  decide

theorem alike_asdict_iff {header header' : PacketHeader} :
    header.asdict.Alike (· = ·) header'.asdict ↔
      header.version.Alike (· = ·) header'.version ∧ header.alg.Alike (· = ·) header'.alg ∧
      header.bry_mode.Alike (· = ·) header'.bry_mode ∧
      header.context.Alike (· = ·) header'.context ∧
      header.packet_nonce.Alike (· = ·) header'.packet_nonce ∧
      header.token_count.Alike (· = ·) header'.token_count := by
  simp [PacketHeader.asdict, PacketHeader.fields, Json.Alike, Json.AlikeFields]

/-! ## Packets that open -/

/-- The header of the packet, in whatever order its fields are. -/
def HasHeader (packet : List (Str × Loaded)) (header : PacketHeader) : Prop :=
  ∃ raw, getItem (py "header") packet = some (.obj raw) ∧
    ∀ name, getItem name raw = getItem name header.fields

def HasCiphertext (packet : List (Str × Loaded)) (ciphertext : Bytes) : Prop :=
  ∃ s, getItem (py "ciphertext_b64") packet = some (.str s) ∧ Py.b64decode s = .ok ciphertext

theorem text_eq_ok {v : Loaded} {s : Str} : text v = .ok s ↔ v = .str s := by
  cases v with
  | str t => simp [text]
  | null | bool _ | num _ | arr _ | obj _ => simp [text]

theorem decrypt_bytes_str (master_key nonce context : Str) (ciphertext aad : Bytes) :
    decrypt_bytes decrypt master_key (.str nonce) (.str context) ciphertext aad = (do
      let derived ← lift (Triple.aead_key_and_nonce ⟨master_key, nonce, context⟩)
      (decrypt derived.1 derived.2 aad ciphertext).elim (.error (.exc .InvalidTag)) .ok) := by
  simp only [decrypt_bytes, Triple.aead_key_and_nonce, text, ok_bind]
  cases encode master_key with
  | error e => rfl
  | ok key =>
    cases encode context with
    | error e => rfl
    | ok place =>
      cases encode nonce with
      | error e => rfl
      | ok drawn => rfl

theorem decrypt_bytes_eq_ok {master_key : Str} {packet_nonce context : Loaded}
    {ciphertext aad payload : Bytes} :
    decrypt_bytes decrypt master_key packet_nonce context ciphertext aad = .ok payload ↔
      ∃ nonce place derived, packet_nonce = .str nonce ∧ context = .str place ∧
        Triple.aead_key_and_nonce ⟨master_key, nonce, place⟩ = .ok derived ∧
        decrypt derived.1 derived.2 aad ciphertext = some payload := by
  constructor
  · intro h
    obtain ⟨_, -, rest⟩ := bind_eq_ok.mp h
    obtain ⟨place, place_text, rest⟩ := bind_eq_ok.mp rest
    obtain ⟨_, -, rest⟩ := bind_eq_ok.mp rest
    obtain ⟨nonce, nonce_text, -⟩ := bind_eq_ok.mp rest
    obtain rfl := text_eq_ok.mp place_text
    obtain rfl := text_eq_ok.mp nonce_text
    rw [decrypt_bytes_str] at h
    obtain ⟨derived, done, opened⟩ := bind_eq_ok.mp h
    exact ⟨nonce, place, derived, rfl, rfl, lift_eq_ok.mp done, elim_eq_ok.mp opened⟩
  · rintro ⟨nonce, place, derived, rfl, rfl, done, opened⟩
    rw [decrypt_bytes_str, done]
    exact elim_eq_ok.mpr opened

theorem item_eq_ok {packet : List (Str × Loaded)} {key : String} {v : Loaded} :
    item packet key = .ok v ↔ getItem (py key) packet = some v :=
  elim_eq_ok

theorem argument_eq_ok {raw : List (Str × Loaded)} {name : String} {v : Loaded} :
    argument raw name = .ok v ↔ getItem (py name) raw = some v :=
  elim_eq_ok

theorem b64decode_eq_ok {v : Loaded} {bytes : Bytes} (h : b64decode v = .ok bytes) :
    ∃ s, v = .str s ∧ Py.b64decode s = .ok bytes := by
  cases v with
  | str s => exact ⟨s, rfl, mapError_eq_ok.mp (lift_eq_ok.mp h)⟩
  | null | bool _ | num _ | arr _ | obj _ => cases h

/-- The fields by their names, and no others. -/
theorem of_eq_ok {raw_header : Loaded} {header : PacketHeader}
    (h : PacketHeader.of raw_header = .ok header) :
    ∃ raw, raw_header = .obj raw ∧ ∀ name, getItem name raw = getItem name header.fields := by
  cases raw_header with
  | obj raw =>
    rw [PacketHeader.of] at h
    split_ifs at h with unexpected
    obtain ⟨version, h₁, h⟩ := bind_eq_ok.mp h
    obtain ⟨alg, h₂, h⟩ := bind_eq_ok.mp h
    obtain ⟨bry_mode, h₃, h⟩ := bind_eq_ok.mp h
    obtain ⟨context, h₄, h⟩ := bind_eq_ok.mp h
    obtain ⟨packet_nonce, h₅, h⟩ := bind_eq_ok.mp h
    obtain ⟨token_count, h₆, h⟩ := bind_eq_ok.mp h
    cases h
    refine ⟨raw, rfl, fun name => ?_⟩
    rw [argument_eq_ok] at h₁ h₂ h₃ h₄ h₅ h₆
    by_cases known : name ∈ FIELDS
    · simp only [FIELDS, List.mem_cons, List.not_mem_nil, or_false] at known
      rcases known with rfl | rfl | rfl | rfl | rfl | rfl
      all_goals simp [PacketHeader.fields, getItem, h₁, h₂, h₃, h₄, h₅, h₆]
    · have absent {fields : List (Str × Loaded)} (all : ∀ f ∈ fields, f.1 ∈ FIELDS) :
          getItem name fields = none := by
        cases found : getItem name fields with
        | none => rfl
        | some v => exact absurd (all _ (Py.mem_of_getItem found)) known
      rw [absent, absent]
      · intro f mem
        exact List.mem_map_of_mem (f := Prod.fst) mem
      · intro f mem
        by_contra other
        exact unexpected (List.any_eq_true.mpr ⟨f, mem, decide_eq_true other⟩)
  | null | bool _ | num _ | str _ | arr _ => cases h

/-- What a packet is whose payload was decrypted. -/
theorem open_eq_ok {packet : List (Str × Loaded)} {master_key : Str} {config : NFETConfig}
    {opened : PacketOpenResult}
    (h : open_packet_to_plaintext decrypt packet master_key config = .ok opened) :
    ∃ header ciphertext aad payload, HasHeader packet header ∧ validate_header header = .ok () ∧
      HasCiphertext packet ciphertext ∧ header_bytes header = .ok aad ∧
      decrypt_bytes decrypt master_key header.packet_nonce header.context ciphertext aad =
        .ok payload := by
  obtain ⟨raw_header, here, h⟩ := bind_eq_ok.mp h
  obtain ⟨header, made, h⟩ := bind_eq_ok.mp h
  obtain ⟨⟨⟩, valid, h⟩ := bind_eq_ok.mp h
  obtain ⟨v, there, h⟩ := bind_eq_ok.mp h
  obtain ⟨ciphertext, decoded, h⟩ := bind_eq_ok.mp h
  obtain ⟨aad, authenticated, h⟩ := bind_eq_ok.mp h
  obtain ⟨payload, decrypted, -⟩ := bind_eq_ok.mp h
  obtain ⟨raw, rfl, same⟩ := of_eq_ok made
  obtain ⟨s, rfl, same'⟩ := b64decode_eq_ok decoded
  exact ⟨header, ciphertext, aad, payload, ⟨raw, item_eq_ok.mp here, same⟩, valid,
    ⟨s, item_eq_ok.mp there, same'⟩, authenticated, decrypted⟩

/-! ## Typed packets, opened -/

theorem typed_decrypt_bytes_eq (aead : Aead) (master_key packet_nonce context : Str)
    (ciphertext aad : Bytes) :
    Bry.decrypt_bytes aead master_key packet_nonce context ciphertext aad = (do
      let derived ← Triple.aead_key_and_nonce ⟨master_key, packet_nonce, context⟩
      (aead.decrypt derived.1 derived.2 aad ciphertext).elim (.error .InvalidTag) .ok) := by
  simp only [Bry.decrypt_bytes, Triple.aead_key_and_nonce]
  cases encode master_key with
  | error e => rfl
  | ok key =>
    cases encode context with
    | error e => rfl
    | ok place =>
      cases encode packet_nonce with
      | error e => rfl
      | ok drawn => rfl

/-- The two decrypt to the same where the one under the derived key does. -/
theorem toOption_decrypt_bytes {aead : Aead} {master_key packet_nonce context : Str}
    {ciphertext aad : Bytes} (same : ∀ derived,
      Triple.aead_key_and_nonce ⟨master_key, packet_nonce, context⟩ = .ok derived →
      decrypt derived.1 derived.2 aad ciphertext =
        aead.decrypt derived.1 derived.2 aad ciphertext) :
    (decrypt_bytes decrypt master_key (.str packet_nonce) (.str context) ciphertext aad).toOption =
      (Bry.decrypt_bytes aead master_key packet_nonce context ciphertext aad).toOption := by
  rw [decrypt_bytes_str, typed_decrypt_bytes_eq, toOption_bind, toOption_bind, toOption_lift]
  refine Option.bind_congr fun derived keyed => ?_
  rw [same derived (toOption_eq_some.mp keyed), toOption_eq_iff]
  intro payload
  rw [elim_eq_ok, elim_eq_ok]

/-- A typed packet is opened as its dictionary, where its payload is. -/
theorem open_asdict {aead : Aead} {packet : Packet} {master_key : Str}
    (same : ∀ ciphertext aad, Py.b64decode packet.ciphertext_b64 = .ok ciphertext →
      Bry.header_bytes packet.header = .ok aad →
      (decrypt_bytes decrypt master_key (.str packet.header.packet_nonce)
        (.str packet.header.context) ciphertext aad).toOption =
      (Bry.decrypt_bytes aead master_key packet.header.packet_nonce packet.header.context ciphertext
        aad).toOption) (config : NFETConfig) :
    (open_packet_to_plaintext decrypt (asdict packet) master_key config).toOption =
      (Bry.open_packet_to_plaintext aead packet master_key config).toOption.map ofResult := by
  have header : item (asdict packet) "header" = .ok (ofTyped packet.header).asdict := by
    simp [item, asdict, getItem]
  have ciphertext : item (asdict packet) "ciphertext_b64" = .ok (.str packet.ciphertext_b64) := by
    simp [item, asdict, getItem]
  rw [open_packet_to_plaintext, Bry.open_packet_to_plaintext, header, ok_bind, of_asdict, ok_bind,
    ciphertext, ok_bind]
  simp only [toOption_bind, validate_ofTyped, b64decode, toOption_lift, header_bytes_ofTyped,
    Option.map_bind, Function.comp_def]
  refine Option.bind_congr fun _ _ => Option.bind_congr fun ciphertext decoded =>
    Option.bind_congr fun aad authenticated => ?_
  rw [toOption_eq_some] at authenticated
  rw [toOption_eq_some, mapError_eq_ok] at decoded
  refine Option.bind_congr' (same ciphertext aad decoded authenticated) fun payload _ =>
    Option.bind_congr fun tokens _ => ?_
  -- the count of the tokens is compared by value
  have count : equalsInt (ofTyped packet.header).token_count tokens.length =
      decide (packet.header.token_count = tokens.length) := rfl
  rw [count]
  by_cases counted : packet.header.token_count = tokens.length
  · rw [if_neg (by simp [counted]), if_neg (by simp [counted])]
    simp only [ofTyped, text, ok_bind, toOption_bind, toOption_lift, Option.map_bind,
      Function.comp_def]
    rfl
  · rw [if_pos (by simp [counted]), if_pos (Ne.symm counted)]
    rfl

/-- Typed packets are opened as dictionaries of their values. -/
theorem open_asdict_typed (aead : Aead) (packet : Packet) (master_key : Str) (config : NFETConfig) :
    (open_packet_to_plaintext aead.decrypt (asdict packet) master_key config).toOption =
      (Bry.open_packet_to_plaintext aead packet master_key config).toOption.map ofResult :=
  open_asdict _ (fun _ _ _ _ => toOption_decrypt_bytes _ fun _ _ => rfl) config

end Qev.Bry.Untyped
