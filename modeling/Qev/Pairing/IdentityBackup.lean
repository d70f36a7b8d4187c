import Qev.Pairing.PeerStore

/-! The passphrase-locked backup of the identity and the peers
(`identity_backup.rs`), and what comes back of it. -/

namespace Qev.Pairing

open Desktop (Value Reader base64 utf8)

def BACKUP_SCHEMA : String := "QEV-IDENTITY-BACKUP-V1"
def AAD : Bytes := utf8 "QEV-IDENTITY-BACKUP-V1"
def KDF_LABEL : Bytes := utf8 "QEV-IDENTITY-BACKUP-V1-KDF:"
def MIN_PASSPHRASE_LEN : Nat := 12

structure BackupEnvelope where
  schema : String
  created_at : String
  app_version : String
  nonce : String
  ciphertext : String
  deriving DecidableEq, Repr

structure BackupPayload where
  schema : String
  own_identity : OwnIdentity
  peers : List StoredPeer
  deriving DecidableEq, Repr

/-- XChaCha20-Poly1305, taken to be ideal, and BLAKE2b-256. -/
structure BackupCrypto where
  aead : IdealAead
  blake2b : Bytes → Bytes

def BackupEnvelope.to_value (env : BackupEnvelope) : Value :=
  .obj [("schema", .str env.schema), ("created_at", .str env.created_at),
    ("app_version", .str env.app_version), ("nonce", .str env.nonce),
    ("ciphertext", .str env.ciphertext)]

def BackupPayload.to_value (payload : BackupPayload) : Value :=
  .obj [("schema", .str payload.schema), ("own_identity", payload.own_identity.to_value),
    ("peers", .arr (payload.peers.map StoredPeer.to_value))]

/-- The readers that `serde` derives for the two types. -/
structure BackupReaders where
  envelope : Reader BackupEnvelope.to_value
  payload : Reader BackupPayload.to_value

def derive_key (crypto : BackupCrypto) (passphrase : String) : Bytes :=
  crypto.blake2b (KDF_LABEL ++ utf8 passphrase)

/-- What an export seals, with the nonce that the system's random source fills in. -/
def backup_sealed (crypto : BackupCrypto) (own_identity : OwnIdentity) (peers : List StoredPeer)
    (passphrase : String) (nonce : FixedBytes 24) : Sealed where
  key := derive_key crypto passphrase
  nonce := nonce.val
  aad := AAD
  plaintext := BackupPayload.to_value ⟨STORE_SCHEMA, own_identity, peers⟩ |>.to_vec

/-- `log` is all that has been sealed before. -/
def export_backup (crypto : BackupCrypto) (log : List Sealed) (own_identity : OwnIdentity)
    (peers : List StoredPeer) (passphrase : String) (nonce : FixedBytes 24)
    (iso8601_now : String) : Except String (List Sealed × String) :=
  if (utf8 passphrase).length < MIN_PASSPHRASE_LEN then
    .error s!"internal bug: passphrase must be at least {MIN_PASSPHRASE_LEN} characters"
  else if own_identity.secret = "" then
    .error ("internal bug: cannot back up an OwnIdentity with an empty secret — " ++
      "unwrap from the keystore first")
  else
    let entry := backup_sealed crypto own_identity peers passphrase nonce
    let env : BackupEnvelope :=
      { schema := BACKUP_SCHEMA, created_at := iso8601_now, app_version := QEV_VERSION
        nonce := base64 nonce.val, ciphertext := base64 (crypto.aead.ciphertext entry) }
    .ok (log ++ [entry], String.ofList (Value.pretty 0 env.to_value))

def import_backup (crypto : BackupCrypto) (readers : BackupReaders) (log : List Sealed)
    (envelope_json passphrase : String) : Except String BackupPayload :=
  if passphrase = "" then .error "internal bug: passphrase must not be empty"
  else
    match readers.envelope.from_slice (utf8 envelope_json) with
    | none => .error "internal bug: envelope parse"
    | some env =>
      if env.schema ≠ BACKUP_SCHEMA then
        .error ("internal bug: unsupported backup schema: " ++ env.schema ++ " (expected " ++
          BACKUP_SCHEMA ++ ")")
      else
        match Base64.decodeCanonical env.nonce.toList with
        | none => .error "internal bug: nonce decode"
        | some nonce =>
          if nonce.length ≠ 24 then
            .error s!"internal bug: nonce wrong length: {nonce.length} (expected 24)"
          else
            match Base64.decodeCanonical env.ciphertext.toList with
            | none => .error "internal bug: ciphertext decode"
            | some ciphertext =>
              match crypto.aead.decrypt log (derive_key crypto passphrase) nonce AAD ciphertext with
              | none => .error "internal bug: wrong passphrase or corrupted backup"
              | some plaintext =>
                match readers.payload.from_slice plaintext with
                | none => .error "internal bug: payload parse"
                | some payload => .ok payload

def apply_backup (store : PeerStore) (payload : BackupPayload) : PeerStore :=
  payload.peers.foldl (fun s peer => (s.upsert_peer peer).1)
    { store with own_identity := some payload.own_identity }

/-! ## Applying a backup -/

theorem apply_backup_eq (s : PeerStore) (payload : BackupPayload) :
    apply_backup s payload = { s with
      own_identity := some payload.own_identity
      peers := payload.peers.foldl (Keyed.upsert StoredPeer.id StoredPeer.refresh) s.peers } := by
  have each (peers : List StoredPeer) (s : PeerStore) :
      peers.foldl (fun s peer => (s.upsert_peer peer).1) s =
        { s with
          peers := peers.foldl (Keyed.upsert StoredPeer.id StoredPeer.refresh) s.peers } := by
    induction peers generalizing s with
    | nil => rfl
    | cons peer peers ih =>
      rw [List.foldl_cons, ih]
      rfl
  exact each payload.peers _

theorem PeerStore.Wf.apply_backup {s : PeerStore} (wf : s.Wf) {payload : BackupPayload}
    (keyed : ∀ p ∈ payload.peers, p.Keyed) : (apply_backup s payload).Wf := by
  have each (peers : List StoredPeer) (s : PeerStore) (wf : s.Wf) (keyed : ∀ p ∈ peers, p.Keyed) :
      (peers.foldl (fun s peer => (s.upsert_peer peer).1) s).Wf := by
    induction peers generalizing s with
    | nil => exact wf
    | cons peer peers ih =>
      apply ih
      · exact wf.upsert_peer (keyed peer List.mem_cons_self)
      · intro p mem
        exact keyed p (List.mem_cons_of_mem _ mem)
  exact each payload.peers _ ⟨wf.ids_nodup, wf.keyed⟩ keyed

section Apply

variable {s : PeerStore} {payload : BackupPayload}
  (distinct : (payload.peers.map StoredPeer.id).Nodup)

include distinct

/-- Every record after a backup was applied: the one from before, refreshed
where the backup has its id, or the backup's. -/
theorem find_apply_backup (id : String) : (apply_backup s payload).find id =
    match Keyed.find StoredPeer.id id payload.peers with
    | none => s.find id
    | some peer => some (((s.find id).map (·.refresh peer)).getD peer) := by
  rw [apply_backup_eq, PeerStore.find, Keyed.find_foldl_upsert keeps_refresh distinct]
  cases Keyed.find StoredPeer.id id payload.peers with
  | none => rfl
  | some peer => rfl

theorem find_of_not_in_backup {id : String} (h : id ∉ payload.peers.map StoredPeer.id) :
    (apply_backup s payload).find id = s.find id := by
  rw [find_apply_backup distinct, Keyed.find_eq_none.mpr h]

/-- A record that was there keeps its trust and its time of pairing. -/
theorem find_of_find {id : String} {p : StoredPeer} (found : s.find id = some p) :
    ∃ r, (apply_backup s payload).find id = some r ∧ r.trust = p.trust ∧
      r.paired_at = p.paired_at := by
  rw [find_apply_backup distinct, found]
  cases Keyed.find StoredPeer.id id payload.peers with
  | none => exact ⟨p, rfl, rfl, rfl⟩
  | some peer => exact ⟨p.refresh peer, rfl, rfl, rfl⟩

theorem apply_backup_empty : apply_backup .empty payload =
    { PeerStore.empty with own_identity := some payload.own_identity, peers := payload.peers } := by
  rw [apply_backup_eq, PeerStore.empty, Keyed.foldl_upsert_new]
  · rfl
  · exact distinct

theorem apply_backup_twice (nodup : (s.peers.map StoredPeer.id).Nodup) :
    apply_backup (apply_backup s payload) payload = apply_backup s payload := by
  have once : ((payload.peers.foldl (Keyed.upsert StoredPeer.id StoredPeer.refresh) s.peers).map
      StoredPeer.id).Nodup :=
    Keyed.nodup_foldl_upsert keeps_refresh nodup
  have known : ∀ a ∈ payload.peers, a.id ∈
      (payload.peers.foldl (Keyed.upsert StoredPeer.id StoredPeer.refresh) s.peers).map
        StoredPeer.id := by
    intro a mem
    have here := (Keyed.find_eq_some distinct).mpr ⟨mem, rfl⟩
    rw [← Keyed.isSome_find, Keyed.find_foldl_upsert keeps_refresh distinct, here]
    rfl
  rw [apply_backup_eq, apply_backup_eq s]
  congr 1
  refine @Keyed.ext_find _ _ _ StoredPeer.id _ _ ?_ ?_ ?_
  · exact Keyed.nodup_foldl_upsert keeps_refresh once
  · exact Keyed.keys_foldl_upsert_of_mem keeps_refresh known
  · intro id
    rw [Keyed.find_foldl_upsert keeps_refresh distinct,
      Keyed.find_foldl_upsert keeps_refresh distinct]
    cases Keyed.find StoredPeer.id id payload.peers with
    | none => rfl
    | some peer =>
      cases Keyed.find StoredPeer.id id s.peers with
      | none => rfl
      | some p => rfl

end Apply

/-! ## What an export seals, an import opens -/

section RoundTrip

variable {crypto : BackupCrypto} {readers : BackupReaders} {log : List Sealed}
  {own : OwnIdentity} {peers : List StoredPeer} {passphrase : String} {nonce : FixedBytes 24}

/-- The text of the envelope that an export returns. -/
def backup_text (crypto : BackupCrypto) (own : OwnIdentity) (peers : List StoredPeer)
    (passphrase : String) (nonce : FixedBytes 24) (iso8601_now : String) : String :=
  let ciphertext := crypto.aead.ciphertext (backup_sealed crypto own peers passphrase nonce)
  String.ofList (Value.pretty 0 (BackupEnvelope.to_value
    { schema := BACKUP_SCHEMA, created_at := iso8601_now, app_version := QEV_VERSION
      nonce := base64 nonce.val, ciphertext := base64 ciphertext }))

theorem export_backup_ok (secret : own.secret ≠ "")
    (long : MIN_PASSPHRASE_LEN ≤ (utf8 passphrase).length) (iso8601_now : String) :
    export_backup crypto log own peers passphrase nonce iso8601_now =
      .ok (log ++ [backup_sealed crypto own peers passphrase nonce],
        backup_text crypto own peers passphrase nonce iso8601_now) := by
  rw [export_backup, if_neg (Nat.not_lt.mpr long), if_neg secret]
  rfl

/-- An import succeeds only on an envelope whose parts, under the passphrase's
key, have been sealed. -/
theorem import_backup_eq_ok {envelope_json : String} {payload : BackupPayload}
    (h : import_backup crypto readers log envelope_json passphrase = .ok payload) :
    ∃ env e, readers.envelope.from_slice (utf8 envelope_json) = some env ∧ e ∈ log ∧
      e.key = derive_key crypto passphrase ∧
      Base64.decodeCanonical env.nonce.toList = some e.nonce ∧
      Base64.decodeCanonical env.ciphertext.toList = some (crypto.aead.ciphertext e) := by
  unfold import_backup at h
  split at h
  · cases h
  · split at h
    · cases h
    · rename_i env parsed
      split at h
      · cases h
      · split at h
        · cases h
        · rename_i nonce_bytes nonce_read
          split at h
          · cases h
          · split at h
            · cases h
            · rename_i ciphertext ciphertext_read
              split at h
              · cases h
              · rename_i plaintext opened
                obtain ⟨mem, rfl⟩ := IdealAead.decrypt_eq_some.mp opened
                exact ⟨env, _, parsed, mem, rfl, nonce_read, ciphertext_read⟩

theorem derive_key_injective (injective : Function.Injective crypto.blake2b) {a b : String}
    (h : derive_key crypto a = derive_key crypto b) : a = b := by
  have same := List.append_cancel_left (injective h)
  exact String.toList_inj.mp (Utf8.encode_injective same)

theorem from_slice_backup_text (iso8601_now : String) :
    readers.envelope.from_slice (utf8 (backup_text crypto own peers passphrase nonce iso8601_now)) =
      some {
        schema := BACKUP_SCHEMA, created_at := iso8601_now, app_version := QEV_VERSION
        nonce := base64 nonce.val
        ciphertext := base64 (crypto.aead.ciphertext
          (backup_sealed crypto own peers passphrase nonce)) } := by
  rw [backup_text, utf8, String.toList_ofList]
  exact readers.envelope.from_slice_to_vec_pretty _

/-- With its passphrase a sealed backup comes back as it was. -/
theorem import_backup_text (some_passphrase : passphrase ≠ "")
    (mem : backup_sealed crypto own peers passphrase nonce ∈ log) (iso8601_now : String) :
    import_backup crypto readers log (backup_text crypto own peers passphrase nonce iso8601_now)
      passphrase = .ok ⟨STORE_SCHEMA, own, peers⟩ := by
  have opened : crypto.aead.decrypt log (derive_key crypto passphrase) nonce.val AAD
      (crypto.aead.ciphertext (backup_sealed crypto own peers passphrase nonce)) =
        some (BackupPayload.to_value ⟨STORE_SCHEMA, own, peers⟩).to_vec :=
    IdealAead.decrypt_eq_some.mpr ⟨mem, rfl⟩
  have nonce_read := OwnIdentity.base64_eq.mpr (rfl : base64 nonce.val = _)
  have ciphertext_read := OwnIdentity.base64_eq.mpr
    (rfl : base64 (crypto.aead.ciphertext (backup_sealed crypto own peers passphrase nonce)) = _)
  simp only [import_backup, if_neg some_passphrase, from_slice_backup_text, ne_eq,
    not_true_eq_false, if_false, nonce_read, nonce.property, ciphertext_read, opened,
    readers.payload.from_slice_to_vec]

/-- A store after a backup was applied to it: the identity is the backup's, the
peers that are not in the backup are as before, and the others keep their trust
and their time of pairing. -/
structure Restored (s s' : PeerStore) (payload : BackupPayload) : Prop where
  own_identity : s'.own_identity = some payload.own_identity
  others : ∀ p ∈ s.peers, p.id ∉ payload.peers.map StoredPeer.id → p ∈ s'.peers
  kept : ∀ p ∈ s.peers, ∀ q ∈ payload.peers, p.id = q.id →
    ∃ r, s'.find p.id = some r ∧ r.trust = p.trust ∧ r.paired_at = p.paired_at

theorem restored {s : PeerStore} (wf : s.Wf) {payload : BackupPayload}
    (distinct : (payload.peers.map StoredPeer.id).Nodup) :
    Restored s (apply_backup s payload) payload where
  own_identity := by rw [apply_backup_eq]
  others p mem absent := by
    have found := wf.find_eq_some.mpr ⟨mem, rfl⟩
    rw [← find_of_not_in_backup distinct absent] at found
    exact Keyed.mem_of_find found
  kept p mem q _ _ := find_of_find distinct (wf.find_eq_some.mpr ⟨mem, rfl⟩)

/-- An envelope whose nonce or ciphertext is not the one that `e` stands for. -/
def BackupEnvelope.Differs (env : BackupEnvelope) (crypto : BackupCrypto) (e : Sealed) : Prop :=
  Base64.decodeCanonical env.nonce.toList ≠ some e.nonce ∨
    Base64.decodeCanonical env.ciphertext.toList ≠ some (crypto.aead.ciphertext e)

theorem import_differing {envelope_json : String} {env : BackupEnvelope}
    (parsed : readers.envelope.from_slice (utf8 envelope_json) = some env)
    (differs : ∀ e ∈ log, e.key = derive_key crypto passphrase → env.Differs crypto e) :
    ∃ error, import_backup crypto readers log envelope_json passphrase = .error error := by
  cases imported : import_backup crypto readers log envelope_json passphrase with
  | error e => exact ⟨e, rfl⟩
  | ok payload =>
    obtain ⟨env', e, parsed', mem, key, nonce_read, ciphertext_read⟩ := import_backup_eq_ok imported
    rw [parsed] at parsed'
    obtain rfl := Option.some.inj parsed'
    rcases differs e mem key with other | other
    · exact absurd nonce_read other
    · exact absurd ciphertext_read other

/-- An export and all that an import makes of it. -/
structure RoundTrip (crypto : BackupCrypto) (readers : BackupReaders) (log : List Sealed)
    (own : OwnIdentity) (peers : List StoredPeer) (passphrase : String) (nonce : FixedBytes 24)
    (iso8601_now : String) (sealed : List Sealed) (text : String) (payload : BackupPayload) :
    Prop where
  exported :
    export_backup crypto log own peers passphrase nonce iso8601_now = .ok (sealed, text)
  imported : import_backup crypto readers sealed text passphrase = .ok payload
  same_identity : payload.own_identity = own
  same_peers : payload.peers = peers
  to_empty : apply_backup .empty payload =
    { PeerStore.empty with own_identity := some own, peers := peers }
  to_any : ∀ s : PeerStore, s.Wf → Restored s (apply_backup s payload) payload
  twice : ∀ s : PeerStore, s.Wf →
    apply_backup (apply_backup s payload) payload = apply_backup s payload
  other_passphrase : ∀ other, other ≠ passphrase →
    ∃ error, import_backup crypto readers sealed text other = .error error
  /-- An altered envelope is one that no other export under the passphrase made. -/
  altered : ∀ altered env, readers.envelope.from_slice (utf8 altered) = some env →
    env.Differs crypto (backup_sealed crypto own peers passphrase nonce) →
    (∀ e ∈ log, e.key = derive_key crypto passphrase → env.Differs crypto e) →
    ∃ error, import_backup crypto readers sealed altered passphrase = .error error

end RoundTrip

/-! ### Readers to run the model with -/

def BackupEnvelope.of_value (v : Value) : Option BackupEnvelope := do
  return {
    schema := ← text_field v "schema"
    created_at := ← text_field v "created_at"
    app_version := ← text_field v "app_version"
    nonce := ← text_field v "nonce"
    ciphertext := ← text_field v "ciphertext" }

def BackupPayload.of_value (v : Value) : Option BackupPayload := do
  let items ← (v.get "peers").bind as_items
  return {
    schema := ← text_field v "schema"
    own_identity := ← (v.get "own_identity").bind OwnIdentity.of_value
    peers := ← items.mapM StoredPeer.of_value }

theorem BackupEnvelope.of_value_to_value (env : BackupEnvelope) :
    of_value env.to_value = some env := by
  simp [of_value, to_value, Value.as_str]

theorem BackupPayload.of_value_to_value (payload : BackupPayload) :
    of_value payload.to_value = some payload := by
  have peers := Relay.mapM_map_some StoredPeer.of_value_to_value payload.peers
  simp [of_value, to_value, Json.get, Value.as_str, as_items, OwnIdentity.of_value_to_value, peers]

def BackupReaders.spaced : BackupReaders where
  envelope := .spaced BackupEnvelope.of_value BackupEnvelope.of_value_to_value
    fun _ => ⟨trivial, trivial, trivial, trivial, trivial, trivial⟩
  payload := .spaced BackupPayload.of_value BackupPayload.of_value_to_value
    fun payload => ⟨trivial, payload.own_identity.plain,
      plain_strings StoredPeer.plain payload.peers, trivial⟩

end Qev.Pairing
