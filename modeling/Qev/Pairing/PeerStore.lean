import Qev.Desktop.SerdePretty
import Qev.Lib.FileSystem
import Qev.Lib.Keyed
import Qev.Pairing.Identity

/-! The store of paired peers and of the own identity (`peer_store.rs`). -/

namespace Qev.Pairing

open Desktop (Value Reader base64)

def STORE_SCHEMA : String := "QEV-PEER-STORE-V1"

def QEV_VERSION : String := "0.29.0"

inductive TrustLevel where
  | Unverified
  | Verified
  deriving DecidableEq, Repr

structure StoredPeer where
  id : String
  name : String
  device : String
  static_pk : String
  paired_at : String
  last_seen_at : String
  trust : TrustLevel
  last_addrs : List String
  deriving DecidableEq, Repr

structure PeerStore where
  schema : String
  version : String
  own_identity : Option OwnIdentity
  peers : List StoredPeer
  last_backup_at : Option String
  deriving DecidableEq, Repr

/-- What a call takes from outside: a fresh keypair, the time, and what the
system lets it do with the keystore. -/
structure Outside where
  generate : Except String StaticKeypair
  iso8601_now : String
  grant : Grant

/-- What an existing record takes over from a new one of its id. -/
def StoredPeer.refresh (existing peer : StoredPeer) : StoredPeer :=
  { existing with
    name := peer.name
    device := peer.device
    static_pk := peer.static_pk
    last_seen_at := peer.last_seen_at
    last_addrs := peer.last_addrs }

namespace PeerStore

def empty : PeerStore where
  schema := STORE_SCHEMA
  version := QEV_VERSION
  own_identity := none
  peers := []
  last_backup_at := none

def validate (s : PeerStore) : Except String Unit :=
  if s.schema ≠ STORE_SCHEMA then
    .error ("internal bug: unsupported store schema: " ++ s.schema ++ " (expected " ++
      STORE_SCHEMA ++ ")")
  else .ok ()

def find (s : PeerStore) (id : String) : Option StoredPeer := Keyed.find StoredPeer.id id s.peers

/-- Whether the peer was new, with the store. -/
def upsert_peer (s : PeerStore) (peer : StoredPeer) : PeerStore × Bool :=
  ({ s with peers := Keyed.upsert StoredPeer.id StoredPeer.refresh s.peers peer },
   !(s.find peer.id).isSome)

def set_trust (s : PeerStore) (id : String) (trust : TrustLevel) : PeerStore × Bool :=
  ({ s with peers := Keyed.modify StoredPeer.id id ({ · with trust }) s.peers },
   (s.find id).isSome)

def remove (s : PeerStore) (id : String) : PeerStore × Bool :=
  let peers := Keyed.remove StoredPeer.id id s.peers
  ({ s with peers }, peers.length ≠ s.peers.length)

def ensure_own_identity (s : PeerStore) (ks : Keystore) (name device : String) (out : Outside) :
    PeerStore × Keystore × Except String StaticKeypair :=
  match s.own_identity with
  | some id => (s, ks, id.to_keypair ks out.grant)
  | none =>
    match out.generate with
    | .error e => (s, ks, .error e)
    | .ok kp =>
      let (id, ks) := OwnIdentity.from_keypair kp name device out.iso8601_now ks out.grant
      ({ s with own_identity := some id }, ks, .ok kp)

def set_own_name (s : PeerStore) (name : String) : PeerStore :=
  { s with own_identity := s.own_identity.map ({ · with name }) }

def set_own_device (s : PeerStore) (device : String) : PeerStore :=
  { s with own_identity := s.own_identity.map ({ · with device }) }

/-- The public key of the own identity, as it is in the record. -/
def own_public (s : PeerStore) : Option String := s.own_identity.map OwnIdentity.public_key

end PeerStore

/-! ## JSON -/

def TrustLevel.rename : TrustLevel → String
  | Unverified => "unverified"
  | Verified => "verified"

def TrustLevel.of_name (s : String) : Option TrustLevel :=
  if s = "unverified" then some .Unverified else if s = "verified" then some .Verified else none

def strings (ss : List String) : Value := .arr (ss.map Json.str)

def nullable (s : Option String) : Value := (s.map Json.str).getD .null

def StoredPeer.to_value (p : StoredPeer) : Value :=
  .obj [("id", .str p.id), ("name", .str p.name), ("device", .str p.device),
    ("static_pk", .str p.static_pk), ("paired_at", .str p.paired_at),
    ("last_seen_at", .str p.last_seen_at), ("trust", .str p.trust.rename),
    ("last_addrs", strings p.last_addrs)]

def OwnIdentity.to_value (id : OwnIdentity) : Value :=
  .obj [("public", .str id.public_key), ("secret", .str id.secret), ("name", .str id.name),
    ("device", .str id.device), ("created_at", .str id.created_at)]

def PeerStore.to_value (s : PeerStore) : Value :=
  .obj [("schema", .str s.schema), ("version", .str s.version),
    ("own_identity", (s.own_identity.map OwnIdentity.to_value).getD .null),
    ("peers", .arr (s.peers.map StoredPeer.to_value)),
    ("last_backup_at", nullable s.last_backup_at)]

/-! ### Reading what was written -/

def text_field (v : Value) (name : String) : Option String := (v.get name).bind Value.as_str

def as_items : Value → Option (List Value)
  | .arr items => some items
  | _ => none

def as_nullable : Value → Option (Option String)
  | .null => some none
  | .str s => some (some s)
  | _ => none

def StoredPeer.of_value (v : Value) : Option StoredPeer := do
  let items ← (v.get "last_addrs").bind as_items
  return {
    id := ← text_field v "id"
    name := ← text_field v "name"
    device := ← text_field v "device"
    static_pk := ← text_field v "static_pk"
    paired_at := ← text_field v "paired_at"
    last_seen_at := ← text_field v "last_seen_at"
    trust := ← (text_field v "trust").bind TrustLevel.of_name
    last_addrs := ← items.mapM Value.as_str }

def OwnIdentity.of_value (v : Value) : Option OwnIdentity := do
  return {
    public_key := ← text_field v "public"
    secret := ← text_field v "secret"
    name := ← text_field v "name"
    device := ← text_field v "device"
    created_at := ← text_field v "created_at" }

def OwnIdentity.of_nullable : Value → Option (Option OwnIdentity)
  | .null => some none
  | v => (OwnIdentity.of_value v).map some

def PeerStore.of_value (v : Value) : Option PeerStore := do
  let items ← (v.get "peers").bind as_items
  return {
    schema := ← text_field v "schema"
    version := ← text_field v "version"
    own_identity := ← (v.get "own_identity").bind OwnIdentity.of_nullable
    peers := ← items.mapM StoredPeer.of_value
    last_backup_at := ← (v.get "last_backup_at").bind as_nullable }

@[simp] theorem text_field_obj (fields : List (String × Value)) (name : String) :
    text_field (.obj fields) name =
      ((fields.find? fun f => f.1 = name).map Prod.snd).bind Value.as_str := rfl

theorem StoredPeer.of_value_to_value (p : StoredPeer) : of_value p.to_value = some p := by
  have trust : TrustLevel.of_name p.trust.rename = some p.trust := by
    cases p.trust <;> rfl
  have addrs : (p.last_addrs.map Json.str).mapM Value.as_str = some p.last_addrs :=
    Relay.mapM_map_some (f := Json.str) (fun _ => rfl) p.last_addrs
  simp [of_value, to_value, Json.get, Value.as_str, as_items, strings, trust, addrs]

theorem OwnIdentity.of_value_to_value (id : OwnIdentity) : of_value id.to_value = some id := by
  simp [of_value, to_value, Value.as_str]

theorem PeerStore.of_value_to_value (s : PeerStore) : of_value s.to_value = some s := by
  have peers := Relay.mapM_map_some StoredPeer.of_value_to_value s.peers
  obtain ⟨schema, version, own, ps, backup⟩ := s
  have own_back : OwnIdentity.of_nullable ((own.map OwnIdentity.to_value).getD .null) =
      some own := by
    cases own with
    | none => rfl
    | some id => exact congrArg (Option.map some) (OwnIdentity.of_value_to_value id)
  have backup_back : as_nullable (nullable backup) = some backup := by
    cases backup with
    | none => rfl
    | some at_ => rfl
  simp [of_value, to_value, Json.get, Value.as_str, as_items, own_back, backup_back, peers]

theorem plain_strings {α : Type} {write : α → Value} (plain : ∀ a, (write a).Plain) (as : List α) :
    Value.Plain (.arr (as.map write)) := by
  induction as with
  | nil => trivial
  | cons a as ih => exact ⟨plain a, ih⟩

theorem StoredPeer.plain (p : StoredPeer) : p.to_value.Plain := by
  have text (s : String) : Value.Plain (.str s) := trivial
  exact ⟨trivial, trivial, trivial, trivial, trivial, trivial, trivial,
    plain_strings text p.last_addrs, trivial⟩

theorem OwnIdentity.plain (id : OwnIdentity) : id.to_value.Plain :=
  ⟨trivial, trivial, trivial, trivial, trivial, trivial⟩

theorem PeerStore.plain (s : PeerStore) : s.to_value.Plain := by
  refine ⟨trivial, trivial, ?_, plain_strings StoredPeer.plain s.peers, ?_, trivial⟩
  · cases s.own_identity with
    | none => trivial
    | some id => exact id.plain
  · cases s.last_backup_at with
    | none => trivial
    | some at_ => trivial

/-- A reader of stores to run the model with. -/
def PeerStore.reader : Reader PeerStore.to_value :=
  .spaced PeerStore.of_value PeerStore.of_value_to_value PeerStore.plain

/-! ## The invariant of the store -/

/-- The id is the hexadecimal text of the key that `static_pk` holds. -/
def StoredPeer.Keyed (p : StoredPeer) : Prop :=
  ∃ pk : FixedBytes 32, Base64.decodeCanonical p.static_pk.toList = some pk.val ∧
    p.id = Hex.hex pk.val

structure PeerStore.Wf (s : PeerStore) : Prop where
  ids_nodup : (s.peers.map StoredPeer.id).Nodup
  keyed : ∀ p ∈ s.peers, p.Keyed

/-- Two records of one id have one key. -/
theorem StoredPeer.Keyed.static_pk_eq {p q : StoredPeer} (hp : p.Keyed) (hq : q.Keyed)
    (same : p.id = q.id) : p.static_pk = q.static_pk := by
  obtain ⟨pk, read, id⟩ := hp
  obtain ⟨pk', read', id'⟩ := hq
  have one : pk.val = pk'.val := Hex.hex_injective (by rw [← id, ← id', same])
  rw [OwnIdentity.base64_eq.mp read, OwnIdentity.base64_eq.mp read', one]

theorem keeps_refresh : Keyed.KeepsKey StoredPeer.id StoredPeer.refresh := fun _ _ => rfl

namespace PeerStore

variable {s : PeerStore} {id : String} {peer : StoredPeer}

theorem Wf.empty : Wf PeerStore.empty := ⟨List.nodup_nil, nofun⟩

theorem Wf.congr {t : PeerStore} (wf : t.Wf) (same : s.peers = t.peers) : s.Wf where
  ids_nodup := same ▸ wf.ids_nodup
  keyed := same ▸ wf.keyed

theorem find_upsert_peer : (s.upsert_peer peer).1.find id =
    if id = peer.id then some (((s.find id).map (·.refresh peer)).getD peer) else s.find id :=
  Keyed.find_upsert keeps_refresh

theorem find_set_trust (trust : TrustLevel) (id' : String) : (s.set_trust id trust).1.find id' =
    if id' = id then (s.find id).map ({ · with trust }) else s.find id' :=
  Keyed.find_modify fun _ here => here

theorem find_remove (id' : String) :
    (s.remove id).1.find id' = if id' = id then none else s.find id' :=
  Keyed.find_remove

theorem set_trust_not_found {trust : TrustLevel} (h : (s.set_trust id trust).2 = false) :
    (s.set_trust id trust).1 = s := by
  have absent : s.find id = none := Option.not_isSome_iff_eq_none.mp (Bool.not_eq_true _ ▸ h)
  rw [set_trust, Keyed.modify_of_absent absent]

theorem remove_not_found (h : (s.remove id).2 = false) : (s.remove id).1 = s := by
  have same : (Keyed.remove StoredPeer.id id s.peers).length = s.peers.length := by
    simpa [remove] using h
  have kept : Keyed.remove StoredPeer.id id s.peers = s.peers :=
    List.filter_eq_self.mpr (List.length_filter_eq_length_iff.mp same)
  rw [remove, kept]

/-- In a well-formed store a record is what is found under its id. -/
theorem Wf.find_eq_some (wf : s.Wf) {p : StoredPeer} :
    s.find id = some p ↔ p ∈ s.peers ∧ p.id = id :=
  Keyed.find_eq_some wf.ids_nodup

theorem Wf.upsert_peer (wf : s.Wf) (keyed : peer.Keyed) : (s.upsert_peer peer).1.Wf where
  ids_nodup := Keyed.nodup_upsert keeps_refresh wf.ids_nodup
  keyed p mem := by
    have nodup := Keyed.nodup_upsert (a := peer) keeps_refresh wf.ids_nodup
    have found := (Keyed.find_eq_some nodup).mpr ⟨mem, rfl⟩
    rw [Keyed.find_upsert keeps_refresh] at found
    by_cases same : p.id = peer.id
    · rw [if_pos same] at found
      cases old : Keyed.find StoredPeer.id p.id s.peers with
      | none =>
        rw [old] at found
        exact Option.some.inj found ▸ keyed
      | some q =>
        rw [old] at found
        obtain ⟨pk, read, key⟩ := keyed
        have id : p.id = Hex.hex pk.val := same.trans key
        have pk_of : p.static_pk = peer.static_pk := by
          rw [← Option.some.inj found]
          rfl
        exact ⟨pk, pk_of ▸ read, id⟩
    · rw [if_neg same] at found
      exact wf.keyed p (Keyed.mem_of_find found)

theorem Wf.set_trust (wf : s.Wf) (trust : TrustLevel) : (s.set_trust id trust).1.Wf where
  ids_nodup := by
    rw [PeerStore.set_trust, Keyed.keys_modify]
    · exact wf.ids_nodup
    · intro a here
      exact here
  keyed p mem := by
    rcases Keyed.mem_modify mem with old | ⟨q, old, -, rfl⟩
    · exact wf.keyed p old
    · exact wf.keyed q old

theorem Wf.remove (wf : s.Wf) : (s.remove id).1.Wf where
  ids_nodup := Keyed.nodup_remove wf.ids_nodup
  keyed p mem := wf.keyed p (List.mem_of_mem_filter mem)

/-- An identity is made where there is none; the peers stay as they are. -/
theorem ensure_own_identity_eq (s : PeerStore) (ks : Keystore) (name device : String)
    (out : Outside) : (s.ensure_own_identity ks name device out).1 = s ∨
      s.own_identity = none ∧ ∃ kp, out.generate = .ok kp ∧
        (s.ensure_own_identity ks name device out).1 = { s with
          own_identity :=
            some (OwnIdentity.from_keypair kp name device out.iso8601_now ks out.grant).1 } := by
  unfold ensure_own_identity
  cases own : s.own_identity with
  | some id => exact .inl rfl
  | none =>
    cases out.generate with
    | error e => exact .inl rfl
    | ok kp => exact .inr ⟨rfl, kp, rfl, rfl⟩

@[simp] theorem ensure_own_identity_peers (s : PeerStore) (ks : Keystore) (name device : String)
    (out : Outside) : (s.ensure_own_identity ks name device out).1.peers = s.peers := by
  rcases s.ensure_own_identity_eq ks name device out with same | ⟨-, kp, -, made⟩
  · rw [same]
  · rw [made]

@[simp] theorem set_own_name_public (s : PeerStore) (name : String) :
    (s.set_own_name name).own_public = s.own_public := by
  simp [own_public, set_own_name, Function.comp_def]

@[simp] theorem set_own_device_public (s : PeerStore) (device : String) :
    (s.set_own_device device).own_public = s.own_public := by
  simp [own_public, set_own_device, Function.comp_def]

/-- An identity that there is keeps its key. -/
theorem ensure_own_identity_public {key : String} (here : s.own_public = some key) (ks : Keystore)
    (name device : String) (out : Outside) :
    (s.ensure_own_identity ks name device out).1.own_public = some key := by
  rcases s.ensure_own_identity_eq ks name device out with same | ⟨absent, -⟩
  · rw [same, here]
  · rw [own_public, absent] at here
    cases here

end PeerStore

end Qev.Pairing
