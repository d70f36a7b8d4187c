import Qev.Bry.Formats
import Qev.Bry.Header
import Qev.Bry.RoundTrip

/-! Which changes to a packet are noticed: the AEAD opens what has been sealed, and
the bytes of a header tell all that validation lets through. -/

namespace Qev.Bry.Untyped

open Py (Clean Joined Loaded Str equalsInt getItem lessThanInt py)

/-! ## Headers whose nonce and context are text -/

/-- A number, and neither an array nor an object. -/
theorem plain_of_equalsInt {v : Loaded} {n : ℤ} (h : equalsInt v n = true) :
    v.Within Joined (fun _ => True) ∧ v.Keys List.Nodup := by
  cases v with
  | bool _ | num _ => exact ⟨trivial, trivial⟩
  | null | str _ | arr _ | obj _ => cases h

theorem plain_of_lessThanInt {v : Loaded} {n : ℤ} {less : Bool} (h : lessThanInt v n = some less) :
    v.Within Joined (fun _ => True) ∧ v.Keys List.Nodup := by
  cases v with
  | bool _ | num _ => exact ⟨trivial, trivial⟩
  | null | str _ | arr _ | obj _ => cases h

theorem clean_of_derived {t : Triple} {derived : Bytes × Bytes}
    (h : t.aead_key_and_nonce = .ok derived) : Clean t.nonce ∧ Clean t.context := by
  obtain ⟨i, inputs, -⟩ := aead_key_and_nonce_eq_ok h
  obtain ⟨k, n, c, -, hn, hc, -⟩ := aead_inputs_eq_ok.mp inputs
  obtain ⟨cs, same, -⟩ := encode_eq_ok.mp hn
  obtain ⟨ds, same', -⟩ := encode_eq_ok.mp hc
  rw [same, same']
  exact ⟨Py.clean_map_cp cs, Py.clean_map_cp ds⟩

/-- What validation lets through and a key was derived for is as `json.loads`
makes it. -/
theorem loads_of_derived {header : PacketHeader} (valid : validate_header header = .ok ())
    {master_key nonce place : Str} (nonce_text : header.packet_nonce = .str nonce)
    (place_text : header.context = .str place) {derived : Bytes × Bytes}
    (h : Triple.aead_key_and_nonce ⟨master_key, nonce, place⟩ = .ok derived) : header.Loads := by
  obtain ⟨version, alg, bry_mode, -, -, token_count⟩ := validate_eq_ok.mp valid
  obtain ⟨clean, clean'⟩ := clean_of_derived h
  have first := plain_of_equalsInt version
  have last := plain_of_lessThanInt token_count
  refine ⟨?_, nodup_fields header, ?_⟩
  · rw [PacketHeader.asdict, PacketHeader.fields, alg, bry_mode, nonce_text, place_text]
    have key (s : String) : Joined (py s) := (Py.clean_py s).joined
    simp only [Json.Within, Json.WithinFields, key, first.1, last.1, clean.joined, clean'.joined,
      SUPPORTED_PACKET_ALG, SUPPORTED_BRY_MODE, and_self]
  · rw [PacketHeader.fields, alg, bry_mode, nonce_text, place_text]
    simp only [Json.KeysFields, Json.Keys, first.2, last.2, and_self]

/-! ## What has been sealed -/

/-- The arguments of `build_packet_from_plaintext`. -/
structure Build where
  plaintext : Str
  master_key : Str
  packet_nonce : Str
  context : Str
  config : NFETConfig

def Build.run (aead : Aead) (c : Build) : Except Exc PacketBuildResult :=
  build_packet_from_plaintext aead c.plaintext c.master_key c.packet_nonce c.context c.config

def Build.triple (c : Build) : Triple := ⟨c.master_key, c.packet_nonce, c.context⟩

/-- What a call seals, where it succeeds. -/
def Build.entry (aead : Aead) (c : Build) : Except Exc Sealed := do
  let built ← c.run aead
  let derived ← c.triple.aead_key_and_nonce
  let aad ← Bry.header_bytes built.header
  let plaintext ← tokens_to_bytes (Py.split HUMAN_SEPARATOR built.transformed_human)
  return ⟨derived.1, derived.2, aad, plaintext⟩

def log (aead : Aead) (calls : List Build) : List Sealed :=
  calls.filterMap fun c => (c.entry aead).toOption

theorem encrypt_bytes_eq (aead : Aead) (master_key packet_nonce context : Str)
    (plaintext aad : Bytes) :
    encrypt_bytes aead master_key packet_nonce context plaintext aad =
      (Triple.aead_key_and_nonce ⟨master_key, packet_nonce, context⟩).map fun derived =>
        aead.encrypt derived.1 derived.2 aad plaintext := by
  simp only [encrypt_bytes, Triple.aead_key_and_nonce]
  cases encode master_key with
  | error e => rfl
  | ok key =>
    cases encode context with
    | error e => rfl
    | ok place =>
      cases encode packet_nonce with
      | error e => rfl
      | ok drawn => rfl

section Builds

variable {aead : Aead} {c : Build} {built : PacketBuildResult}

/-- What a call that succeeds has put into its packet. -/
theorem run_eq_ok (h : c.run aead = .ok built) : ∃ e, c.entry aead = .ok e ∧
    c.triple.aead_key_and_nonce = .ok (e.key, e.nonce) ∧
    Bry.header_bytes built.header = .ok e.aad ∧
    built.packet = ⟨built.header, Py.b64encode (aead.ideal.ciphertext e)⟩ ∧
    Bry.validate_header built.header = .ok () ∧ built.header.context = c.context ∧
    built.header.packet_nonce = c.packet_nonce := by
  have whole := h
  obtain ⟨transformed, -, h⟩ := bind_eq_ok.mp h
  obtain ⟨payload, serialized, h⟩ := bind_eq_ok.mp h
  obtain ⟨⟨⟩, valid, h⟩ := bind_eq_ok.mp h
  obtain ⟨aad, authenticated, h⟩ := bind_eq_ok.mp h
  obtain ⟨ciphertext, encrypted, h⟩ := bind_eq_ok.mp h
  obtain rfl := Except.ok.inj h
  rw [encrypt_bytes_eq] at encrypted
  obtain ⟨derived, done, rfl⟩ := map_eq_ok.mp encrypted
  refine ⟨⟨derived.1, derived.2, aad, payload⟩, ?_, done, authenticated, rfl, valid, rfl, rfl⟩
  rw [Build.entry, whole, ok_bind, Build.triple, done, ok_bind, authenticated, ok_bind, serialized]
  rfl

theorem mem_log {calls : List Build} {e : Sealed} :
    e ∈ log aead calls ↔ ∃ c ∈ calls, c.entry aead = .ok e := by
  simp only [log, List.mem_filterMap, toOption_eq_some]

theorem hasCiphertext_asdict {packet : Packet} {ciphertext : Bytes} :
    HasCiphertext (asdict packet) ciphertext ↔
      Py.b64decode packet.ciphertext_b64 = .ok ciphertext := by
  have found : getItem (py "ciphertext_b64") (asdict packet) =
      some (.str packet.ciphertext_b64) := by
    simp [asdict, getItem]
  simp [HasCiphertext, found]

theorem hasHeader_asdict (packet : Packet) : HasHeader (asdict packet) (ofTyped packet.header) :=
  ⟨_, by simp [asdict, getItem, PacketHeader.asdict], fun _ => rfl⟩

theorem loads_of_run (h : c.run aead = .ok built) : (ofTyped built.header).Loads := by
  obtain ⟨e, -, derived, -, -, valid, place, nonce⟩ := run_eq_ok h
  have valid' := (toOption_eq_iff.mp (validate_ofTyped built.header) ()).mpr valid
  rw [Build.triple, ← place, ← nonce] at derived
  exact loads_of_derived valid' rfl rfl derived

/-- A header with the bytes of one that was built is the same. -/
theorem eq_of_header_bytes {header : PacketHeader} (loads : header.Loads)
    (h : c.run aead = .ok built)
    (same : header_bytes header = header_bytes (ofTyped built.header)) :
    header = ofTyped built.header := by
  rw [header_bytes_eq_iff loads (loads_of_run h), alike_asdict_iff] at same
  have number {v : Loaded} {n : ℤ} (alike : v.Alike (· = ·) (.num (.int n))) :
      v = .num (.int n) := by
    cases v with
    | num m => exact congrArg Json.num alike
    | null | bool _ | str _ | arr _ | obj _ => cases alike
  have string {v : Loaded} {s : Str} (alike : v.Alike (· = ·) (.str s)) : v = .str s := by
    cases v with
    | str t => exact congrArg Json.str alike
    | null | bool _ | num _ | arr _ | obj _ => cases alike
  obtain ⟨version, alg, bry_mode, context, packet_nonce, token_count⟩ := same
  cases header
  rw [ofTyped, PacketHeader.mk.injEq]
  exact ⟨number version, string alg, string bry_mode, string context, string packet_nonce,
    number token_count⟩

theorem header_bytes_of_entry {e : Sealed} (made : c.entry aead = .ok e)
    (h : c.run aead = .ok built) :
    header_bytes (ofTyped built.header) = .ok e.aad ∧
      HasCiphertext (asdict built.packet) (aead.ideal.ciphertext e) := by
  obtain ⟨e', made', -, authenticated, packet, -⟩ := run_eq_ok h
  cases made.symm.trans made'
  refine ⟨?_, hasCiphertext_asdict.mpr ?_⟩
  · rw [header_bytes_ofTyped, authenticated]
    rfl
  · rw [packet, Py.b64decode_b64encode]

end Builds

/-! ## Tampering -/

section Tampering

variable {aead : Aead} {calls : List Build} {packet : List (Str × Loaded)} {master_key : Str}
  {config : NFETConfig} {opened : PacketOpenResult}

/-- Opens a packet where nothing has been sealed but what the calls have. -/
def receive (aead : Aead) (calls : List Build) (packet : List (Str × Loaded)) (master_key : Str)
    (config : NFETConfig) : Except OpenError PacketOpenResult :=
  open_packet_to_plaintext (aead.ideal.decrypt (log aead calls)) packet master_key config

theorem built_of_received (h : receive aead calls packet master_key config = .ok opened) :
    ∃ c ∈ calls, ∃ built ciphertext, c.run aead = .ok built ∧
      HasHeader packet (ofTyped built.header) ∧ HasCiphertext packet ciphertext ∧
      HasCiphertext (asdict built.packet) ciphertext ∧
      Triple.aead_key_and_nonce ⟨master_key, c.packet_nonce, c.context⟩ =
        c.triple.aead_key_and_nonce := by
  obtain ⟨header, ciphertext, aad, payload, hasHeader, valid, hasCiphertext, authenticated,
    decrypted⟩ := open_eq_ok _ h
  obtain ⟨nonce, place, derived, nonce_text, place_text, keyed, decrypted⟩ :=
    (decrypt_bytes_eq_ok _).mp decrypted
  obtain ⟨mem, same⟩ := IdealAead.decrypt_eq_some.mp decrypted
  obtain ⟨c, here, made⟩ := mem_log.mp mem
  obtain ⟨built, run, -⟩ := bind_eq_ok.mp made
  obtain ⟨bytes, hasCiphertext'⟩ := header_bytes_of_entry made run
  have loads := loads_of_derived valid nonce_text place_text keyed
  obtain rfl := eq_of_header_bytes loads run (authenticated.trans bytes.symm)
  obtain ⟨e, made', keyed', -, -, -, context_, nonce_⟩ := run_eq_ok run
  cases made.symm.trans made'
  obtain rfl := nonce_.symm.trans (Json.str.inj nonce_text)
  obtain rfl := context_.symm.trans (Json.str.inj place_text)
  refine ⟨c, here, built, ciphertext, run, hasHeader, hasCiphertext, ?_, keyed.trans keyed'.symm⟩
  rw [same]
  exact hasCiphertext'

/-- Where a ciphertext is made under one associated data, packets with one
ciphertext have one header. -/
theorem header_of_ciphertext (exact_ : aead.ideal.Exact (log aead calls)) {c c' : Build}
    (here : c ∈ calls) (here' : c' ∈ calls) {built built' : PacketBuildResult}
    (run : c.run aead = .ok built) (run' : c'.run aead = .ok built') {ciphertext : Bytes}
    (h : HasCiphertext (asdict built.packet) ciphertext)
    (h' : HasCiphertext (asdict built'.packet) ciphertext) :
    ofTyped built.header = ofTyped built'.header := by
  obtain ⟨e, made, -⟩ := run_eq_ok run
  obtain ⟨e', made', -⟩ := run_eq_ok run'
  obtain ⟨bytes, same⟩ := header_bytes_of_entry made run
  obtain ⟨bytes', same'⟩ := header_bytes_of_entry made' run'
  rw [hasCiphertext_asdict] at h h' same same'
  have equal : aead.ideal.ciphertext e = aead.ideal.ciphertext e' :=
    (Except.ok.inj (same.symm.trans h)).trans (Except.ok.inj (h'.symm.trans same'))
  obtain ⟨-, -, aad⟩ := exact_ e (mem_log.mpr ⟨c, here, made⟩) e' (mem_log.mpr ⟨c', here', made'⟩)
    equal
  apply eq_of_header_bytes (loads_of_run run) run'
  rw [bytes, bytes', aad]

/-- A packet that opens has the header and the ciphertext of one that was built
for the same AEAD key and nonce; with the ciphertext of a packet that was built,
it has no other header than that one; and what `json.loads` makes of two headers
is written alike just where they are equal up to the order of keys. -/
theorem tampering_raises (aead : Aead) (calls : List Build)
    (exact_ : aead.ideal.Exact (log aead calls)) :
    (∀ packet master_key config opened, receive aead calls packet master_key config = .ok opened →
      ∃ c ∈ calls, ∃ built ciphertext, c.run aead = .ok built ∧
        HasHeader packet (ofTyped built.header) ∧ HasCiphertext packet ciphertext ∧
        HasCiphertext (asdict built.packet) ciphertext ∧
        Triple.aead_key_and_nonce ⟨master_key, c.packet_nonce, c.context⟩ =
          c.triple.aead_key_and_nonce) ∧
    (∀ c ∈ calls, ∀ built ciphertext, c.run aead = .ok built →
      HasCiphertext (asdict built.packet) ciphertext → ∀ packet master_key config opened,
        HasCiphertext packet ciphertext → receive aead calls packet master_key config = .ok opened →
        HasHeader packet (ofTyped built.header)) ∧
    ∀ header header' : PacketHeader, header.Loads → header'.Loads →
      (header_bytes header = header_bytes header' ↔
        header.asdict.Alike (· = ·) header'.asdict) := by
  refine ⟨fun _ _ _ _ => built_of_received, ?_, fun _ _ => header_bytes_eq_iff⟩
  intro c here built ciphertext run kept packet master_key config opened same received
  obtain ⟨c', here', built', ciphertext', run', hasHeader, hasCiphertext, kept', -⟩ :=
    built_of_received received
  obtain ⟨s, found, decoded⟩ := same
  obtain ⟨s', found', decoded'⟩ := hasCiphertext
  cases found.symm.trans found'
  cases decoded.symm.trans decoded'
  rw [header_of_ciphertext exact_ here here' run run' kept kept']
  exact hasHeader

/-- What was built opens as it does with the scheme itself. -/
theorem receive_built {c : Build} (here : c ∈ calls) {built : PacketBuildResult}
    (run : c.run aead = .ok built) (config : NFETConfig) :
    (receive aead calls (asdict built.packet) c.master_key config).toOption =
      (Bry.open_packet_to_plaintext aead built.packet c.master_key config).toOption.map
        ofResult := by
  obtain ⟨e, made, keyed, authenticated, packet, -, place, nonce⟩ := run_eq_ok run
  rw [packet]
  refine open_asdict _ (fun ciphertext aad decoded authenticated' => ?_) config
  refine toOption_decrypt_bytes _ fun derived keyed' => ?_
  rw [Py.b64decode_b64encode] at decoded
  cases decoded
  cases authenticated.symm.trans authenticated'
  rw [place, nonce] at keyed'
  cases keyed.symm.trans keyed'
  have opened : aead.ideal.decrypt (log aead calls) e.key e.nonce e.aad (aead.ideal.ciphertext e) =
      some e.plaintext := IdealAead.decrypt_eq_some.mpr ⟨mem_log.mpr ⟨c, here, made⟩, rfl⟩
  exact opened.trans (aead.opens_sealed e.key e.nonce e.aad e.plaintext).symm

end Tampering

/-! ## One nonce, two messages -/

/-- Any message of the alphabet can be built. -/
theorem exists_built (aead : Aead) {c : Build} {normalized code : Str} {tokens : List Str}
    (valid : c.config.Valid) (canonical : normalize_plaintext c.plaintext = .ok normalized)
    (encoded : encode_to_bry normalized = .ok code) (tokenized : tokenize_bry code = .ok tokens)
    (nonempty : tokens ≠ []) (small : tokens.length ≤ 2 ^ 64) {derived : Bytes × Bytes}
    (keyed : c.triple.aead_key_and_nonce = .ok derived) (context : c.context ≠ [])
    (packet_nonce : c.packet_nonce ≠ []) :
    ∃ built, c.run aead = .ok built ∧ built.header.token_count = tokens.length := by
  obtain ⟨i, inputs, -⟩ := aead_key_and_nonce_eq_ok keyed
  obtain ⟨key, drawn, place, key_bytes, nonce_bytes, context_bytes, -⟩ :=
    aead_inputs_eq_ok.mp inputs
  obtain ⟨⟨count, initial, rows⟩, scheduled⟩ :=
    exists_schedule small key_bytes nonce_bytes context_bytes valid
  have traced : build_trace c.plaintext c.master_key c.packet_nonce c.context c.config =
      .ok ⟨normalized, code, tokens, initial, rows⟩ := by
    rw [build_trace, Bry.validate_eq_ok.mpr valid, ok_bind, canonical, ok_bind, encoded, ok_bind,
      tokenized, ok_bind]
    exact congrArg (· >>= _) scheduled
  obtain ⟨transformed, applied, human⟩ := apply_transform_of_trace traced
  obtain ⟨-, -, -, -, -, spelled_, -⟩ := trace_spelled traced
  have known : Spelled (turned tokens rows) := spelled_turned spelled_ rows
  have length : (turned tokens rows).length = tokens.length := by
    rw [turned, List.length_map, List.length_zip, length_trace traced, Nat.min_self]
  have positive : 0 < tokens.length := List.length_pos_of_ne_nil nonempty
  have count : (1 : ℤ) ≤ (turned tokens rows).length := by omega
  have some_token : turned tokens rows ≠ [] := List.ne_nil_of_length_pos (by omega)
  have split : Py.split HUMAN_SEPARATOR transformed.transformed_human = turned tokens rows := by
    rw [human]
    exact Py.split_join (not_bar known) some_token
  obtain ⟨payload, serialized⟩ := spelled_to_bytes known
  have header_valid : Bry.validate_header ⟨SUPPORTED_PACKET_VERSION, SUPPORTED_PACKET_ALG,
      SUPPORTED_BRY_MODE, c.context, c.packet_nonce, (turned tokens rows).length⟩ = .ok () :=
    validate_typed_eq_ok.mpr ⟨rfl, rfl, rfl, context, packet_nonce, count⟩
  obtain ⟨aad, -, authenticated⟩ := exists_header_bytes (ofTyped ⟨SUPPORTED_PACKET_VERSION,
    SUPPORTED_PACKET_ALG, SUPPORTED_BRY_MODE, c.context, c.packet_nonce,
    (turned tokens rows).length⟩)
  rw [header_bytes_ofTyped, lift_eq_ok] at authenticated
  have encrypted := encrypt_bytes_eq aead c.master_key c.packet_nonce c.context payload aad
  rw [← Build.triple, keyed] at encrypted
  rw [Build.run, build_packet_from_plaintext, applied, ok_bind, split]
  dsimp only
  rw [serialized, ok_bind, header_valid, ok_bind, authenticated, ok_bind, encrypted]
  exact ⟨_, rfl, by rw [length]⟩

theorem encode_py (s : String) : encode (py s) = .ok (b s) :=
  encode_eq_ok.mpr ⟨s.toList, rfl, rfl⟩

/-- A message under a key, a nonce and a context that are always the same. -/
def message (text : String) : Build := ⟨py text, py "key", py "nonce", py "context", {}⟩

def messageHeader : Bry.PacketHeader := ⟨SUPPORTED_PACKET_VERSION, SUPPORTED_PACKET_ALG,
  SUPPORTED_BRY_MODE, py "context", py "nonce", 1⟩

/-- One letter is built, and opens to itself. -/
theorem built_letter (aead : Aead) (text : String) (letter : Str × Py.CodePoint)
    (mem : letter ∈ TOKEN_TO_CHAR) (canonical : normalize_plaintext (py text) = .ok [letter.2])
    (tokenized : tokenize_bry letter.1 = .ok [letter.1]) :
    ∃ built opened, (message text).run aead = .ok built ∧ built.header = messageHeader ∧
      Bry.open_packet_to_plaintext aead built.packet (message text).master_key {} = .ok opened ∧
      opened.recovered_plaintext = [letter.2] := by
  have encoded : encode_to_bry [letter.2] = .ok letter.1 := by
    have code := encode_entries (List.forall_mem_singleton.mpr mem)
    rwa [List.map_singleton, List.map_singleton, List.flatten_singleton] at code
  have keyed : ∃ derived, (message text).triple.aead_key_and_nonce = .ok derived := by
    simp only [Triple.aead_key_and_nonce, Build.triple, message, encode_py, ok_bind]
    exact ⟨_, rfl⟩
  obtain ⟨derived, keyed⟩ := keyed
  obtain ⟨built, run, count⟩ := exists_built aead (c := message text)
    (show NFETConfig.Valid {} by decide) canonical encoded tokenized (List.cons_ne_nil _ _)
      (by simp)
    keyed (show py "context" ≠ [] by decide) (show py "nonce" ≠ [] by decide)
  obtain ⟨opened, done, recovered⟩ := (packet_round_trip_iff run canonical).mpr (.singleton _)
  obtain ⟨-, -, -, -, -, valid, place, nonce⟩ := run_eq_ok run
  obtain ⟨version, alg, bry_mode, -⟩ := validate_typed_eq_ok.mp valid
  refine ⟨built, opened, run, ?_, done, recovered⟩
  have fields : built.header = ⟨built.header.version, built.header.alg, built.header.bry_mode,
    built.header.context, built.header.packet_nonce, built.header.token_count⟩ := rfl
  rw [fields, version, alg, bry_mode, place, nonce, count]
  rfl

/-- Packets with one header, key and nonce do not tell whether a ciphertext is
made under another. -/
theorem exact_of_same {aead : Aead} {calls : List Build} (t : Triple) (header : Bry.PacketHeader)
    (same : ∀ c ∈ calls, c.triple = t ∧ ∀ built, c.run aead = .ok built → built.header = header) :
    aead.ideal.Exact (log aead calls) := by
  intro e mem e' mem' _
  obtain ⟨c, here, made⟩ := mem_log.mp mem
  obtain ⟨c', here', made'⟩ := mem_log.mp mem'
  obtain ⟨built, run, -⟩ := bind_eq_ok.mp made
  obtain ⟨built', run', -⟩ := bind_eq_ok.mp made'
  obtain ⟨_, entry_, keyed, authenticated, -⟩ := run_eq_ok run
  obtain ⟨_, entry', keyed', authenticated', -⟩ := run_eq_ok run'
  cases made.symm.trans entry_
  cases made'.symm.trans entry'
  rw [(same c here).1, ← (same c' here').1] at keyed
  rw [(same c here).2 built run, ← (same c' here').2 built' run'] at authenticated
  obtain ⟨key, nonce⟩ := Prod.mk.inj (Except.ok.inj (keyed.symm.trans keyed'))
  exact ⟨key, nonce, Except.ok.inj (authenticated.symm.trans authenticated')⟩

/-- A packet with `version` as True instead of 1 does not open. -/
theorem tampering_raises_version : ∃ built, (message "A").run .plain = .ok built ∧
    ∀ config opened, receive .plain [message "A"] [
      (py "header", { ofTyped built.header with version := .bool true }.asdict),
      (py "ciphertext_b64", .str built.packet.ciphertext_b64)] (py "key") config ≠ .ok opened := by
  obtain ⟨built, -, run, same, -⟩ := built_letter .plain "A" (py "1", Py.cp 'A')
    (by decide) (by decide) (by decide)
  refine ⟨built, run, fun config opened received => ?_⟩
  have exact_ : Aead.plain.ideal.Exact (log .plain [message "A"]) := by
    refine exact_of_same (message "A").triple built.header
      (List.forall_mem_singleton.mpr ⟨rfl, fun built' run' => ?_⟩)
    cases run.symm.trans run'
    rfl
  obtain ⟨e, made, -⟩ := run_eq_ok run
  obtain ⟨-, kept⟩ := header_bytes_of_entry made run
  have found := hasCiphertext_asdict.mp kept
  obtain ⟨raw, here, fields⟩ := (tampering_raises .plain [message "A"] exact_).2.1 (message "A")
    List.mem_cons_self built _ run kept _ _ _ _ ⟨_, by simp [getItem], found⟩ received
  obtain rfl := Json.obj.inj (Option.some.inj ((if_pos rfl).symm.trans here))
  have version : some (Json.bool true) = some (Json.num (Py.Num.int built.header.version)) :=
    fields (py "version")
  cases version

/-- Two messages under one nonce have interchangeable ciphertexts; and a pair of
surrogates is written as the character it stands for. -/
theorem swapped_ciphertext_opens :
    (¬ ∀ (aead : Aead) (calls : List Build), aead.ideal.Exact (log aead calls) →
      ∀ c ∈ calls, ∀ built ciphertext ciphertext', c.run aead = .ok built →
        HasCiphertext (asdict built.packet) ciphertext → ciphertext' ≠ ciphertext →
        ∀ packet, HasHeader packet (ofTyped built.header) → HasCiphertext packet ciphertext' →
        ∀ config opened, receive aead calls packet c.master_key config ≠ .ok opened) ∧
    ¬ ∀ header header' : PacketHeader, validate_header header = .ok () →
      validate_header header' = .ok () → header_bytes header = header_bytes header' →
      header.asdict.Alike (· = ·) header'.asdict := by
  constructor
  · intro all
    obtain ⟨built, opened, run, header, opens_, recovered⟩ := built_letter .plain "A"
      (py "1", Py.cp 'A') (by decide) (by decide) (by decide)
    obtain ⟨built', opened', run', header', opens', recovered'⟩ := built_letter .plain "H"
      (py "8", Py.cp 'H') (by decide) (by decide) (by decide)
    have exact_ : Aead.plain.ideal.Exact (log .plain [message "A", message "H"]) := by
      refine exact_of_same (message "A").triple messageHeader
        (List.forall_mem_cons.mpr ⟨⟨rfl, fun built₁ run₁ => ?_⟩,
          List.forall_mem_singleton.mpr ⟨rfl, fun built₁ run₁ => ?_⟩⟩)
      · cases run.symm.trans run₁
        exact header
      · cases run'.symm.trans run₁
        exact header'
    obtain ⟨e, made, -, -, packet, -⟩ := run_eq_ok run
    obtain ⟨e', made', -, -, packet', -⟩ := run_eq_ok run'
    obtain ⟨-, kept⟩ := header_bytes_of_entry made run
    obtain ⟨-, kept'⟩ := header_bytes_of_entry made' run'
    have other : Aead.plain.ideal.ciphertext e' ≠ Aead.plain.ideal.ciphertext e := by
      intro same
      rw [packet, ← same, header, ← header', ← packet'] at opens_
      obtain rfl := Except.ok.inj (opens_.symm.trans opens')
      exact absurd (recovered.symm.trans recovered') (by decide)
    have hasHeader : HasHeader (asdict built'.packet) (ofTyped built.header) := by
      rw [packet', header, ← header']
      exact hasHeader_asdict _
    have here : message "H" ∈ [message "A", message "H"] :=
      List.mem_cons_of_mem _ List.mem_cons_self
    have received := receive_built here run' {}
    rw [toOption_eq_some.mpr opens', Option.map_some, toOption_eq_some] at received
    exact all .plain _ exact_ (message "A") List.mem_cons_self built _ _ run kept other _ hasHeader
      kept' {} _ received
  · intro all
    have alike := all { ofTyped messageHeader with context := .str [0xD83D, 0xDE00] }
      { ofTyped messageHeader with context := .str [0x1F600] }
      (validate_eq_ok.mpr ⟨by decide, rfl, rfl, rfl, rfl, rfl⟩)
      (validate_eq_ok.mpr ⟨by decide, rfl, rfl, rfl, rfl, rfl⟩)
      (congrArg (fun s => lift (encode s)) (by decide))
    rw [alike_asdict_iff] at alike
    have same : ([0xD83D, 0xDE00] : Str) = [0x1F600] := alike.2.2.2.1
    exact absurd same (by decide)

end Qev.Bry.Untyped
