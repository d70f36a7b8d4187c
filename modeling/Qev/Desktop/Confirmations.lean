import Mathlib.Logic.Function.Basic
import Qev.Desktop.PeerRuns

/-! What a verified record stands for: its user compared the safety number of
the peer's key and the own one. The confirmations are kept beside the store, and
travel with a backup of it. -/

namespace Qev.Desktop

open Pairing
open Commands (Paired pair no_parsers)

/-- The number that `pairing_safety_number` shows for a record. -/
def shown_number (blake2b : Bytes → Bytes) (own_public static_pk : String) : Except String String :=
  do
    let own ← OwnIdentity.decode_key "public" own_public
    match Base64.decodeCanonical static_pk.toList with
    | none => throw "bad peer static_pk"
    | some bytes =>
      if h : bytes.length = 32 then return safety_number blake2b own ⟨bytes, h⟩
      else throw "peer static_pk not 32 bytes"

/-- A call of `pairing_verify_peer`, with the own key in use and the number
that it has with the record. -/
structure Confirmation where
  peer_id : String
  own_public : String
  shown : Except String String
  deriving DecidableEq

/-- An installation, with the confirmations made on it and those that came with
a backup. -/
structure Installation where
  device : Device
  confirmed : List Confirmation

structure Backup where
  payload : BackupPayload
  confirmed : List Confirmation

inductive LocalEvent where
  | show_qr (name device : String) (out : Outside)
  | ensure (name device : String) (out : Outside)
  | pair (e : Paired)
  | verify (peer_id : String)
  | unpair (peer_id : String)

namespace Installation

variable {Addr : Type} (world : PeerWorld Addr)

def store (s : Installation) : PeerStore := s.device.store

/-- The confirmation that a call of `pairing_verify_peer` stands for. -/
def confirmation (blake2b : Bytes → Bytes) (s : Installation) (peer_id : String) :
    Option Confirmation := do
  let own ← s.store.own_identity
  let p ← s.store.find peer_id
  return ⟨peer_id, own.public_key, shown_number blake2b own.public_key p.static_pk⟩

/-- A pairing holds a keypair that `ensure_own_identity` returned. -/
def step (s : Installation) : LocalEvent → Installation
  | .show_qr name device out =>
    { s with device := ((PeerWrite.show_qr name device out).run s.device).1 }
  | .ensure name device out =>
    { s with device := ((PeerWrite.ensure name device out).run s.device).1 }
  | .pair e =>
    if s.store.own_identity.isSome then
      { s with device := Commands.pair world.parsers world.blake2b s.device e }
    else s
  | .verify peer_id =>
    { device := ((PeerWrite.verify peer_id).run s.device).1
      confirmed := (s.confirmation world.blake2b peer_id).toList ++ s.confirmed }
  | .unpair peer_id =>
    { device := ((PeerWrite.unpair peer_id).run s.device).1
      confirmed := s.confirmed.filter (·.peer_id ≠ peer_id) }

/-- The payload of an export, where the secret can be had. -/
def backup (s : Installation) (grant : Grant) : Option Backup := do
  let own ← s.store.own_identity
  let own_with_secret ← (own.with_unwrapped_secret s.device.keystore grant).toOption
  return ⟨⟨STORE_SCHEMA, own_with_secret, s.store.peers⟩, s.confirmed⟩

def restore (s : Installation) (backup : Backup) (grant : Grant) : Installation where
  device := s.device.install backup.payload grant
  confirmed := s.confirmed ++ backup.confirmed

end Installation

structure Fleet (ι : Type) where
  installations : ι → Installation
  backups : List Backup

inductive FleetEvent (ι : Type) where
  | at_ (i : ι) (e : LocalEvent)
  | export_identity_backup (i : ι) (grant : Grant) (now_iso : String)
  | import_identity_backup (i : ι) (k : Nat) (grant : Grant)

namespace Fleet

variable {ι : Type} [DecidableEq ι] {Addr : Type} (world : PeerWorld Addr)

def step (f : Fleet ι) : FleetEvent ι → Fleet ι
  | .at_ i e =>
    { f with installations := Function.update f.installations i ((f.installations i).step world e) }
  | .export_identity_backup i grant now_iso =>
    match (f.installations i).backup grant with
    | none => f
    | some backup =>
      let s := f.installations i
      { installations := Function.update f.installations i
          { s with device := ((PeerWrite.record_backup now_iso).run s.device).1 }
        backups := f.backups ++ [backup] }
  | .import_identity_backup i k grant =>
    match f.backups[k]? with
    | none => f
    | some backup =>
      { f with installations :=
          Function.update f.installations i ((f.installations i).restore backup grant) }

end Fleet

/-- A backup of the own key, or one in which every verified record of the store
is verified too. -/
def Continues (s : PeerStore) (payload : BackupPayload) : Prop :=
  (∃ own, s.own_identity = some own ∧ own.public_key = payload.own_identity.public_key) ∨
    ∀ p ∈ s.peers, p.trust = .Verified → ∃ q ∈ payload.peers, q.id = p.id ∧ q.trust = .Verified

def FleetEvent.Meets {ι : Type} (f : Fleet ι) : FleetEvent ι → Prop
  | import_identity_backup i k _ => ∀ backup, f.backups[k]? = some backup →
      Continues (f.installations i).store backup.payload
  | _ => True

/-- Every verified record was confirmed under the own key of now, with the
number that is shown now. -/
def Confirmed (blake2b : Bytes → Bytes) (s : Installation) : Prop :=
  ∀ p ∈ s.store.peers, p.trust = .Verified → ∃ own, s.store.own_identity = some own ∧
    ∃ c ∈ s.confirmed, c.peer_id = p.id ∧ c.own_public = own.public_key ∧
      c.shown = shown_number blake2b own.public_key p.static_pk

/-! ## The invariant -/

/-- `own` is the public key of the own identity. -/
structure Covered (blake2b : Bytes → Bytes) (own : Option String) (peers : List StoredPeer)
    (confirmed : List Confirmation) : Prop where
  ids_nodup : (peers.map StoredPeer.id).Nodup
  keyed : ∀ p ∈ peers, p.Keyed
  paired : own = none → peers = []
  verified : ∀ p ∈ peers, p.trust = .Verified →
    ∃ c ∈ confirmed, c.peer_id = p.id ∧ own = some c.own_public
  numbers : ∀ c ∈ confirmed, ∃ pk : FixedBytes 32, c.peer_id = Hex.hex pk.val ∧
    c.shown = shown_number blake2b c.own_public (base64 pk.val)

def Installation.Sound (blake2b : Bytes → Bytes) (s : Installation) : Prop :=
  Covered blake2b (s.store.own_public) s.store.peers s.confirmed

def Backup.Sound (blake2b : Bytes → Bytes) (b : Backup) : Prop :=
  Covered blake2b (some b.payload.own_identity.public_key) b.payload.peers b.confirmed

variable {blake2b : Bytes → Bytes} {s : Installation}

theorem Installation.Sound.confirmed (sound : s.Sound blake2b) : Confirmed blake2b s := by
  intro p mem verified
  obtain ⟨c, here, same, current⟩ := sound.verified p mem verified
  obtain ⟨own, is_own, public_key⟩ := Option.map_eq_some_iff.mp current
  refine ⟨own, is_own, c, here, same, public_key.symm, ?_⟩
  obtain ⟨pk, id, shown⟩ := sound.numbers c here
  obtain ⟨pk', read, id'⟩ := sound.keyed p mem
  have one : pk.val = pk'.val := Hex.hex_injective (by rw [← id, same, id'])
  rw [shown, public_key, OwnIdentity.base64_eq.mp read, one]

/-! ## A step on one installation -/

def LocalEvent.op : LocalEvent → PeerOp
  | show_qr name device out => .show_qr name device out
  | ensure name device out => .ensure_own_identity name device out
  | pair e => .pair e
  | verify peer_id => .set_trust peer_id .Verified
  | unpair peer_id => .remove peer_id

variable {Addr : Type} {world : PeerWorld Addr} {e : LocalEvent}

/-- A step does to the store what its operation does, or nothing. -/
theorem Installation.step_store (world : PeerWorld Addr) (s : Installation) (e : LocalEvent) :
    (s.step world e).store = (e.op.run world s.device).store ∨ (s.step world e) = s := by
  cases e with
  | show_qr name device out => exact .inl rfl
  | ensure name device out =>
    exact .inl (congrArg (fun r => r.1.store) (PeerWrite.run_ensure s.device name device out))
  | pair e =>
    by_cases own : s.store.own_identity.isSome = true
    · left
      simp only [step, if_pos own]
      rfl
    · right
      simp only [step, if_neg own]
  | verify peer_id =>
    exact .inl (congrArg (fun r => r.1.store) (PeerWrite.run_verify s.device peer_id))
  | unpair peer_id =>
    exact .inl (congrArg (fun r => r.1.store) (PeerWrite.run_unpair s.device peer_id))

theorem Installation.step_public {key : String} (here : s.store.own_public = some key) :
    (s.step world e).store.own_public = some key := by
  rcases s.step_store world e with store | same
  · rw [store]
    cases e with
    | show_qr name device out =>
      change ((PeerWrite.show_qr name device out).run s.device).1.store.own_public = some key
      rcases PeerWrite.run_show_qr s.device name device out with ⟨e, -, same⟩ | ⟨kp, -, made⟩
      · rw [same]
        exact here
      · rw [made, PeerStore.set_own_device_public, PeerStore.set_own_name_public]
        exact PeerStore.ensure_own_identity_public here s.device.keystore name device out
    | ensure name device out =>
      exact PeerStore.ensure_own_identity_public here s.device.keystore name device out
    | pair e =>
      rcases pair_eq world s.device e with same | ⟨stored, -, -, upserted⟩
      · exact (congrArg (fun d => d.store.own_public) same).trans here
      · exact (congrArg (fun d => d.store.own_public) upserted).trans here
    | verify peer_id => exact here
    | unpair peer_id => exact here
  · rw [same, here]

/-- Without an own identity there is nothing to pair with. -/
theorem Installation.step_peers (unidentified : s.store.own_public = none)
    (alone : s.store.peers = []) : (s.step world e).store.peers = [] := by
  cases e with
  | show_qr name device out => exact (PeerWrite.show_qr_peers name device out).trans alone
  | ensure name device out =>
    change ((PeerWrite.ensure name device out).run s.device).1.store.peers = []
    rw [PeerWrite.run_ensure, Device.ensure_peers]
    exact alone
  | pair e =>
    have no_identity : ¬ s.store.own_identity.isSome = true := by
      rw [Option.map_eq_none_iff.mp unidentified]
      exact nofun
    rw [step, if_neg no_identity]
    exact alone
  | verify peer_id =>
    change ((PeerWrite.verify peer_id).run s.device).1.store.peers = []
    rw [PeerWrite.run_verify]
    exact (congrArg (Keyed.modify StoredPeer.id peer_id _) alone).trans rfl
  | unpair peer_id =>
    change ((PeerWrite.unpair peer_id).run s.device).1.store.peers = []
    rw [PeerWrite.run_unpair]
    exact (congrArg (Keyed.remove StoredPeer.id peer_id) alone).trans rfl

/-- A confirmation is lost only when its peer is removed. -/
theorem Installation.mem_step_confirmed {c : Confirmation} (mem : c ∈ s.confirmed)
    (present : ((s.step world e).store.find c.peer_id).isSome) :
      c ∈ (s.step world e).confirmed := by
  cases e with
  | show_qr name device out => exact mem
  | ensure name device out => exact mem
  | pair e =>
    rw [step]
    split
    · exact mem
    · exact mem
  | verify peer_id => exact List.mem_append_right _ mem
  | unpair peer_id =>
    change (((PeerWrite.unpair peer_id).run s.device).1.store.find c.peer_id).isSome at present
    rw [PeerWrite.run_unpair, PeerStore.find_remove] at present
    apply List.mem_filter.mpr
    refine ⟨mem, ?_⟩
    by_cases removed : c.peer_id = peer_id
    · rw [if_pos removed] at present
      cases present
    · simpa using removed

/-- A confirmation that a step adds is that of a call of `pairing_verify_peer`. -/
theorem Installation.step_confirmed {c : Confirmation} (mem : c ∈ (s.step world e).confirmed) :
    c ∈ s.confirmed ∨ ∃ peer_id, s.confirmation world.blake2b peer_id = some c := by
  cases e with
  | show_qr name device out => exact .inl mem
  | ensure name device out => exact .inl mem
  | pair e =>
    left
    rw [step] at mem
    split at mem
    · exact mem
    · exact mem
  | verify peer_id =>
    rcases List.mem_append.mp mem with new | old
    · exact .inr ⟨peer_id, Option.mem_toList.mp new⟩
    · exact .inl old
  | unpair peer_id => exact .inl (List.mem_of_mem_filter mem)

theorem Installation.confirmation_eq_some {peer_id : String} {c : Confirmation} :
    s.confirmation blake2b peer_id = some c ↔ ∃ key p, s.store.own_public = some key ∧
      s.store.find peer_id = some p ∧ c = ⟨peer_id, key, shown_number blake2b key p.static_pk⟩ := by
  simp only [confirmation, PeerStore.own_public, Option.pure_def, Option.bind_eq_bind,
    Option.bind_eq_some_iff, Option.map_eq_some_iff, Option.some.injEq]
  constructor
  · rintro ⟨own, here, p, found, rfl⟩
    exact ⟨own.public_key, p, ⟨own, here, rfl⟩, found, rfl⟩
  · rintro ⟨key, p, ⟨own, here, rfl⟩, found, rfl⟩
    exact ⟨own, here, p, found, rfl⟩

/-- Whose record is verified after a step was verified before it, or by it. -/
theorem Installation.step_verified {id : String} {q : StoredPeer}
    (found : (s.step world e).store.find id = some q) (verified : q.trust = .Verified) :
    (∃ p, s.store.find id = some p ∧ p.trust = .Verified) ∨
      e = .verify id ∧ (s.store.find id).isSome := by
  rcases s.step_store world e with store | same
  · rw [store] at found
    have allowed : e.op.Allowed := by
      cases e <;> trivial
    rcases PeerOp.run_find allowed found with ⟨p, old, kept | set⟩ | ⟨-, new | backed⟩
    · exact .inl ⟨p, old, kept ▸ verified⟩
    · right
      cases e with
      | verify peer_id =>
        obtain ⟨rfl, -⟩ := PeerOp.set_trust.inj set
        exact ⟨rfl, Option.isSome_of_eq_some old⟩
      | show_qr name device out => cases set
      | ensure name device out => cases set
      | pair e => cases set
      | unpair peer_id => cases set
    · rw [verified] at new
      cases new
    · obtain ⟨payload, grant, backed, -⟩ := backed
      cases e <;> cases backed
  · rw [same] at found
    exact .inl ⟨q, found, verified⟩

theorem Installation.sound_step (sound : s.Sound world.blake2b) (e : LocalEvent) :
    (s.step world e).Sound world.blake2b := by
  have wf : s.store.Wf := ⟨sound.ids_nodup, sound.keyed⟩
  have wf_step : (s.step world e).store.Wf := by
    rcases s.step_store world e with store | same
    · rw [store]
      apply PeerOp.run_wf wf
      cases e <;> trivial
    · rw [same]
      exact wf
  refine ⟨wf_step.ids_nodup, wf_step.keyed, ?_, ?_, ?_⟩
  · intro unidentified
    cases own : s.store.own_public with
    | none => exact step_peers own (sound.paired own)
    | some key =>
      rw [step_public own] at unidentified
      cases unidentified
  · intro q mem verified
    have found := wf_step.find_eq_some.mpr ⟨mem, rfl⟩
    have present := Option.isSome_of_eq_some found
    rcases step_verified found verified with ⟨p, old, was⟩ | ⟨rfl, now⟩
    · obtain ⟨here, same⟩ := wf.find_eq_some.mp old
      obtain ⟨c, confirmed, peer, current⟩ := sound.verified p here was
      have id := peer.trans same
      exact ⟨c, mem_step_confirmed confirmed (id ▸ present), id, step_public current⟩
    · obtain ⟨p, old⟩ := Option.isSome_iff_exists.mp now
      cases own : s.store.own_public with
      | none =>
        rw [PeerStore.find, sound.paired own] at old
        cases old
      | some key =>
        refine ⟨⟨q.id, key, shown_number world.blake2b key p.static_pk⟩, ?_, rfl, step_public own⟩
        apply List.mem_append_left
        exact Option.mem_toList.mpr (confirmation_eq_some.mpr ⟨key, p, own, old, rfl⟩)
  · intro c mem
    rcases step_confirmed mem with old | ⟨peer_id, new⟩
    · exact sound.numbers c old
    · obtain ⟨key, p, -, found, rfl⟩ := confirmation_eq_some.mp new
      obtain ⟨here, rfl⟩ := wf.find_eq_some.mp found
      obtain ⟨pk, read, id⟩ := sound.keyed p here
      exact ⟨pk, id, by rw [OwnIdentity.base64_eq.mp read]⟩

/-! ## Backups -/

theorem Backup.sound_of_backup (sound : s.Sound blake2b) {grant : Grant} {b : Backup}
    (made : s.backup grant = some b) : b.Sound blake2b := by
  simp only [Installation.backup, Option.pure_def, Option.bind_eq_bind, Option.bind_eq_some_iff,
    Option.some.injEq] at made
  obtain ⟨own, here, unwrapped, opened, rfl⟩ := made
  have same : unwrapped.public_key = own.public_key := by
    cases result : own.with_unwrapped_secret s.device.keystore grant with
    | error e =>
      rw [result] at opened
      cases opened
    | ok id =>
      rw [result] at opened
      cases opened
      obtain ⟨kp, -, rest⟩ := bind_eq_ok.mp result
      cases rest
      rfl
  have key : s.store.own_public = some unwrapped.public_key := by
    rw [same, PeerStore.own_public, here]
    rfl
  rw [Backup.Sound, ← key]
  exact sound

/-- A record of the store stays verified because its confirmation was made under
the key of the backup, or because it is confirmed in the backup. -/
theorem restored_verified (sound : s.Sound blake2b) {b : Backup} (backed : b.Sound blake2b)
    (continues : Continues s.store b.payload) {q : StoredPeer}
    (found : (apply_backup s.store b.payload).find q.id = some q) (verified : q.trust = .Verified) :
    ∃ c ∈ s.confirmed ++ b.confirmed, c.peer_id = q.id ∧
      some b.payload.own_identity.public_key = some c.own_public := by
  have wf : s.store.Wf := ⟨sound.ids_nodup, sound.keyed⟩
  have of_backup {r : StoredPeer} (mem : r ∈ b.payload.peers) (id : r.id = q.id)
      (was : r.trust = .Verified) : ∃ c ∈ s.confirmed ++ b.confirmed, c.peer_id = q.id ∧
        some b.payload.own_identity.public_key = some c.own_public := by
    obtain ⟨c, confirmed, peer, current⟩ := backed.verified r mem was
    exact ⟨c, List.mem_append_right _ confirmed, peer.trans id, current⟩
  have of_store {p : StoredPeer} (old : s.store.find q.id = some p) (was : p.trust = .Verified) :
      ∃ c ∈ s.confirmed ++ b.confirmed, c.peer_id = q.id ∧
        some b.payload.own_identity.public_key = some c.own_public := by
    obtain ⟨here, id⟩ := wf.find_eq_some.mp old
    rcases continues with ⟨own, is_own, same⟩ | all
    · obtain ⟨c, confirmed, peer, current⟩ := sound.verified p here was
      refine ⟨c, List.mem_append_left _ confirmed, peer.trans id, ?_⟩
      rw [← current, PeerStore.own_public, is_own, ← same]
      rfl
    · obtain ⟨r, mem, same, trust⟩ := all p here was
      exact of_backup mem (same.trans id) trust
  rw [find_apply_backup backed.ids_nodup] at found
  cases backup : Keyed.find StoredPeer.id q.id b.payload.peers with
  | none =>
    rw [backup] at found
    exact of_store found verified
  | some r =>
    rw [backup] at found
    cases old : s.store.find q.id with
    | none =>
      rw [old] at found
      obtain rfl : r = q := Option.some.inj found
      exact of_backup (Keyed.mem_of_find backup) rfl verified
    | some p =>
      rw [old] at found
      apply of_store old
      rw [← verified, ← Option.some.inj found]
      rfl

theorem Installation.sound_restore (sound : s.Sound blake2b) {b : Backup}
    (backed : b.Sound blake2b) (continues : Continues s.store b.payload) (grant : Grant) :
    (s.restore b grant).Sound blake2b := by
  have wf : s.store.Wf := ⟨sound.ids_nodup, sound.keyed⟩
  have wf_restore : (s.restore b grant).store.Wf := wf.apply_backup backed.keyed
  have own : (s.restore b grant).store.own_public = some b.payload.own_identity.public_key := by
    change (apply_backup s.store b.payload).own_public = _
    rw [apply_backup_eq]
    rfl
  refine ⟨wf_restore.ids_nodup, wf_restore.keyed, ?_, ?_, ?_⟩
  · rw [own]
    exact nofun
  · intro q mem verified
    have found := wf_restore.find_eq_some.mpr ⟨mem, rfl⟩
    rw [own]
    exact restored_verified sound backed continues found verified
  · intro c mem
    rcases List.mem_append.mp mem with here | there
    · exact sound.numbers c here
    · exact backed.numbers c there

/-! ## Runs of a fleet -/

namespace Fleet

variable {ι : Type} [DecidableEq ι]

structure Sound (blake2b : Bytes → Bytes) (f : Fleet ι) : Prop where
  installations : ∀ i, (f.installations i).Sound blake2b
  backups : ∀ b ∈ f.backups, b.Sound blake2b

theorem sound_step {f : Fleet ι} (sound : f.Sound world.blake2b) {e : FleetEvent ι}
    (meets : e.Meets f) : (f.step world e).Sound world.blake2b := by
  have update {i : ι} {s : Installation} (one : s.Sound world.blake2b) (j : ι) :
      (Function.update f.installations i s j).Sound world.blake2b := by
    by_cases here : j = i
    · rw [here, Function.update_self]
      exact one
    · rw [Function.update_of_ne here]
      exact sound.installations j
  cases e with
  | at_ i e => exact ⟨update (Installation.sound_step (sound.installations i) e), sound.backups⟩
  | export_identity_backup i grant now_iso =>
    rw [step]
    split
    · exact sound
    · rename_i b made
      refine ⟨update (sound.installations i), ?_⟩
      intro b' mem
      rcases List.mem_append.mp mem with old | new
      · exact sound.backups b' old
      · obtain rfl := List.mem_singleton.mp new
        exact Backup.sound_of_backup (sound.installations i) made
  | import_identity_backup i k grant =>
    rw [step]
    split
    · exact sound
    · rename_i b held
      have backed := sound.backups b (List.mem_of_getElem? held)
      refine ⟨update ?_, sound.backups⟩
      exact Installation.sound_restore (sound.installations i) backed (meets b held) grant

/-- Installations without an identity or peers, whatever is in their keystores. -/
def new (keystores : ι → Keystore) : Fleet ι where
  installations i := ⟨⟨.empty, keystores i⟩, []⟩
  backups := []

omit [DecidableEq ι] in
theorem sound_new (keystores : ι → Keystore) : (new keystores).Sound blake2b where
  installations _ := ⟨List.nodup_nil, nofun, fun _ => rfl, nofun, nofun⟩
  backups := nofun

end Fleet

/-- In a run whose every import is of a backup of the own key, or of one in
which the store's verified records are verified too, every verified record was
confirmed under the own key of now. -/
theorem verified_under_own_key {ι : Type} [DecidableEq ι] (world : PeerWorld Addr)
    (keystores : ι → Keystore) (events : List (FleetEvent ι))
    (meets : Run.Along (Fleet.step world) (fun f e => e.Meets f) (Fleet.new keystores) events)
    (before : List (FleetEvent ι)) (early : before <+: events) (i : ι) :
    Confirmed world.blake2b
      ((run (Fleet.step world) (Fleet.new keystores) before).installations i) := by
  have sound := meets.invariant (Fleet.sound_new keystores)
    (fun _ _ sound meets => Fleet.sound_step sound meets) before early
  exact Installation.Sound.confirmed (sound.installations i)

def tester : PeerWorld Unit := ⟨PeerStore.reader, "/data", no_parsers, fun bytes => bytes⟩

/-- A keypair with one byte throughout. -/
def generating (byte : UInt8) : Outside where
  generate := .ok ⟨FixedBytes.fill 32 byte, FixedBytes.fill 32 (byte + 1)⟩
  iso8601_now := "2026-04-15"
  grant := .all

def pair_bob : LocalEvent :=
  .pair (.responder (FixedBytes.fill 32 1) (FixedBytes.fill 32 2) (.Identity "bob" "phone")
    "2026-04-15" "2026-04-15")

/-- An installation restores its own backup. -/
def restore_own : List (FleetEvent Unit) := [
  .at_ () (.ensure "alice" "laptop" (generating 10)), .at_ () pair_bob, .at_ () (.verify bob),
  .export_identity_backup () .all "2026-04-15", .import_identity_backup () 0 .all]

theorem verified_under_own_key_of_restore :
    Confirmed tester.blake2b
      ((run (Fleet.step tester) (Fleet.new fun _ => ⟨false, none⟩) restore_own).installations
        ()) := by
  apply verified_under_own_key tester (fun _ => ⟨false, none⟩) restore_own ?_ restore_own
    List.prefix_rfl
  refine ⟨trivial, trivial, trivial, trivial, ?_, trivial⟩
  intro backup held
  have exported : some (base64 (FixedBytes.fill 32 10).val) =
      some backup.payload.own_identity.public_key :=
    congrArg (Option.map fun b : Backup => b.payload.own_identity.public_key) held
  exact .inl ⟨_, rfl, Option.some.inj exported⟩

/-- One installation exports its identity; another has verified a peer when it
imports that. -/
def restore_other : List (FleetEvent Bool) := [
  .at_ true (.ensure "alice" "laptop" (generating 10)),
  .export_identity_backup true .all "2026-04-15",
  .at_ false (.ensure "alice" "desktop" (generating 20)), .at_ false pair_bob,
  .at_ false (.verify bob), .import_identity_backup false 0 .all]

theorem verified_under_other_key : ¬ Confirmed tester.blake2b
    ((run (Fleet.step tester) (Fleet.new fun _ => ⟨false, none⟩) restore_other).installations
      false) := by
  intro confirmed
  obtain ⟨own, here, c, mem, -, same, -⟩ := confirmed ⟨bob, "bob", "phone",
    base64 (FixedBytes.fill 32 2).val, "2026-04-15", "2026-04-15", .Verified, []⟩ (by decide) rfl
  have foreign : ∀ c ∈ ((run (Fleet.step tester) (Fleet.new fun _ => ⟨false, none⟩)
      restore_other).installations false).confirmed,
      c.own_public ≠ base64 (FixedBytes.fill 32 10).val := by
    decide
  apply foreign c mem
  rw [same]
  exact congrArg OwnIdentity.public_key (Option.some.inj here).symm

end Qev.Desktop
