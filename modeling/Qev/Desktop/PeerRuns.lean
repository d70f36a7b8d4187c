import Qev.Desktop.PeerLabels

/-! The peer store over runs of everything that changes it. -/

namespace Qev.Desktop

open Pairing
open Commands (Paired pair no_parsers)

/-- A backup exported from a well-formed store has its peers. -/
def Exported (payload : BackupPayload) : Prop :=
  ∃ source : PeerStore, source.Wf ∧ payload.peers = source.peers

inductive PeerOp where
  | pair (e : Paired)
  | show_qr (name device : String) (out : Outside)
  | ensure_own_identity (name device : String) (out : Outside)
  | set_trust (id : String) (trust : TrustLevel)
  | remove (id : String)
  | apply_backup (payload : BackupPayload) (grant : Grant)
  /-- On a disk with anything on it; the save may fail, and so may the load. -/
  | save_and_reload (fs : FileSystem Path) (umask : Mode) (stop : Option Nat) (at_ : Loading)

/-- What the operations take from outside: the reader of the file, its
directory, the parsers of an invite and the hash of safety numbers. -/
structure PeerWorld (Addr : Type) where
  reader : Reader PeerStore.to_value
  app_data_dir : String
  parsers : Parsers Addr
  blake2b : Bytes → Bytes

variable {Addr : Type} (world : PeerWorld Addr)

/-- Nothing is loaded where the save failed. -/
def Device.save_and_reload (d : Device) (fs : FileSystem Path) (umask : Mode) (stop : Option Nat)
    (at_ : Loading) : Device :=
  match d.store.save umask fs (store_path world.app_data_dir) stop with
  | (_, .error _) => d
  | (fs, .ok ()) =>
    match PeerStore.load_or_empty world.reader fs (store_path world.app_data_dir) d.keystore
      at_ with
    | (_, keystore, .error _) => { d with keystore }
    | (_, keystore, .ok store) => ⟨store, keystore⟩

def PeerOp.run (d : Device) : PeerOp → Device
  | pair e => Commands.pair world.parsers world.blake2b d e
  | show_qr name device out => ((PeerWrite.show_qr name device out).run d).1
  | ensure_own_identity name device out => (d.ensure name device out).1
  | set_trust id trust => { d with store := (d.store.set_trust id trust).1 }
  | remove id => { d with store := (d.store.remove id).1 }
  | apply_backup payload grant => d.install payload grant
  | save_and_reload fs umask stop at_ => d.save_and_reload world fs umask stop at_

/-- Every backup in the run was exported from a well-formed store. -/
def PeerOp.Allowed : PeerOp → Prop
  | apply_backup payload _ => Exported payload
  | _ => True

/-! ## What one operation does -/

variable {world} {d : Device} {op : PeerOp} {id : String}

theorem Device.ensure_peers (name device : String) (out : Outside) :
    (d.ensure name device out).1.store.peers = d.store.peers :=
  PeerStore.ensure_own_identity_peers _ _ _ _ _

theorem PeerWrite.show_qr_peers (name device : String) (out : Outside) :
    ((PeerWrite.show_qr name device out).run d).1.store.peers = d.store.peers := by
  rcases run_show_qr d name device out with ⟨e, -, same⟩ | ⟨kp, -, made⟩
  · rw [same]
  · rw [made]
    exact Device.ensure_peers name device out

/-- What was saved is what is loaded, but for the own identity's secret. -/
theorem Device.save_and_reload_peers (fs : FileSystem Path) (umask : Mode) (stop : Option Nat)
    (at_ : Loading) : (d.save_and_reload world fs umask stop at_).store.peers = d.store.peers := by
  unfold save_and_reload
  split
  · rfl
  · rename_i fs' saved
    have held : PeerStore.stored world.reader fs' (store_path world.app_data_dir) =
        some d.store := by
      have written : (d.store.save umask fs (store_path world.app_data_dir) stop).1 = fs' :=
        congrArg Prod.fst saved
      rw [← written]
      exact PeerStore.stored_of_save_ok (congrArg Prod.snd saved)
    split
    · rfl
    · rename_i fs'' keystore store loaded
      obtain ⟨s₀, held', -, -, peers, -⟩ := PeerStore.load_keeps loaded
      rw [held] at held'
      rw [peers, Option.some.inj held']

/-- A pairing leaves the store as it is, or merges an unverified record into it. -/
theorem pair_eq (world : PeerWorld Addr) (d : Device) (e : Paired) :
    pair world.parsers world.blake2b d e = d ∨
    ∃ stored : StoredPeer, stored.Keyed ∧ stored.trust = .Unverified ∧
      pair world.parsers world.blake2b d e =
        { d with store := (d.store.upsert_peer stored).1 } := by
  unfold pair
  cases written : e.write world.parsers world.blake2b with
  | none => exact .inl rfl
  | some w =>
    right
    cases e with
    | responder own_public peer_pk their_identity paired_at last_seen_at =>
      obtain ⟨stored, rfl, keyed, trust⟩ := Commands.responder_record_keyed written
      exact ⟨stored, keyed, trust, rfl⟩
    | initiator qr_text now their_identity paired_at last_seen_at =>
      obtain ⟨stored, rfl, keyed, trust⟩ := Commands.initiator_record_keyed written
      exact ⟨stored, keyed, trust, rfl⟩

/-- The operations, by what they do to the peers. -/
theorem PeerOp.run_cases (world : PeerWorld Addr) (d : Device) (op : PeerOp) :
    (op.run world d).store.peers = d.store.peers ∨
    (∃ stored : StoredPeer, stored.Keyed ∧ stored.trust = .Unverified ∧
      (op.run world d).store = (d.store.upsert_peer stored).1) ∨
    (∃ id trust, op = .set_trust id trust ∧
      (op.run world d).store = (d.store.set_trust id trust).1) ∨
    (∃ id, (op.run world d).store = (d.store.remove id).1) ∨
    ∃ payload grant, op = .apply_backup payload grant ∧
      (op.run world d).store = Pairing.apply_backup d.store payload := by
  cases op with
  | pair e =>
    rcases pair_eq world d e with same | ⟨stored, keyed, trust, upserted⟩
    · exact .inl (congrArg (fun d => d.store.peers) same)
    · exact .inr (.inl ⟨stored, keyed, trust, congrArg Device.store upserted⟩)
  | show_qr name device out => exact .inl (PeerWrite.show_qr_peers name device out)
  | ensure_own_identity name device out => exact .inl (Device.ensure_peers name device out)
  | set_trust id trust => exact .inr (.inr (.inl ⟨id, trust, rfl, rfl⟩))
  | remove id => exact .inr (.inr (.inr (.inl ⟨id, rfl⟩)))
  | apply_backup payload grant => exact .inr (.inr (.inr (.inr ⟨payload, grant, rfl, rfl⟩)))
  | save_and_reload fs umask stop at_ => exact .inl (Device.save_and_reload_peers fs umask stop at_)

theorem PeerOp.run_wf (wf : d.store.Wf) (allowed : op.Allowed) : (op.run world d).store.Wf := by
  rcases op.run_cases world d with same | ⟨stored, keyed, -, upserted⟩ |
    ⟨id, trust, -, set⟩ | ⟨id, removed⟩ | ⟨payload, grant, rfl, applied⟩
  · exact wf.congr same
  · rw [upserted]
    exact wf.upsert_peer keyed
  · rw [set]
    exact wf.set_trust trust
  · rw [removed]
    exact wf.remove
  · obtain ⟨source, source_wf, same⟩ := allowed
    rw [applied]
    apply wf.apply_backup
    rw [same]
    exact source_wf.keyed

/-- A record after an operation was there, with its trust unless that was set;
or it was put there, verified only where a backup had it so. -/
theorem PeerOp.run_find {q : StoredPeer} (allowed : op.Allowed)
    (found : (op.run world d).store.find id = some q) :
    (∃ p, d.store.find id = some p ∧ (q.trust = p.trust ∨ op = .set_trust id q.trust)) ∨
    d.store.find id = none ∧ (q.trust = .Unverified ∨
      ∃ payload grant, op = .apply_backup payload grant ∧
        ∃ r ∈ payload.peers, r.id = id ∧ r.trust = q.trust) := by
  rcases op.run_cases world d with same | ⟨stored, -, unverified, upserted⟩ |
    ⟨id', trust, rfl, set⟩ | ⟨id', removed⟩ | ⟨payload, grant, rfl, applied⟩
  · left
    rw [PeerStore.find, same] at found
    exact ⟨q, found, .inl rfl⟩
  · rw [upserted, PeerStore.find_upsert_peer] at found
    by_cases here : id = stored.id
    · rw [if_pos here] at found
      cases old : d.store.find id with
      | none =>
        rw [old] at found
        exact .inr ⟨rfl, .inl (Option.some.inj found ▸ unverified)⟩
      | some p =>
        rw [old] at found
        exact .inl ⟨p, rfl, .inl (Option.some.inj found ▸ rfl)⟩
    · rw [if_neg here] at found
      exact .inl ⟨q, found, .inl rfl⟩
  · left
    rw [set, PeerStore.find_set_trust] at found
    by_cases here : id = id'
    · rw [if_pos here] at found
      subst here
      cases old : d.store.find id with
      | none =>
        rw [old] at found
        cases found
      | some p =>
        rw [old] at found
        exact ⟨p, rfl, .inr (Option.some.inj found ▸ rfl)⟩
    · rw [if_neg here] at found
      exact ⟨q, found, .inl rfl⟩
  · left
    rw [removed, PeerStore.find_remove] at found
    by_cases here : id = id'
    · rw [if_pos here] at found
      cases found
    · rw [if_neg here] at found
      exact ⟨q, found, .inl rfl⟩
  · obtain ⟨source, source_wf, same⟩ := allowed
    rw [applied, find_apply_backup (same ▸ source_wf.ids_nodup)] at found
    cases backed : Keyed.find StoredPeer.id id payload.peers with
    | none =>
      rw [backed] at found
      exact .inl ⟨q, found, .inl rfl⟩
    | some r =>
      rw [backed] at found
      cases old : d.store.find id with
      | none =>
        rw [old] at found
        obtain rfl : r = q := Option.some.inj found
        exact .inr ⟨rfl, .inr ⟨payload, grant, rfl, r, Keyed.mem_of_find backed,
          Keyed.key_of_find backed, rfl⟩⟩
      | some p =>
        rw [old] at found
        exact .inl ⟨p, rfl, .inl (Option.some.inj found ▸ rfl)⟩

/-! ## Runs -/

/-- What may make a record of `id` a verified one. -/
def PeerOp.Verifies (d : Device) (id : String) : PeerOp → Prop
  | set_trust id' trust => id' = id ∧ trust = .Verified
  | apply_backup payload _ => d.store.find id = none ∧
      ∃ q ∈ payload.peers, q.id = id ∧ q.trust = .Verified
  | _ => False

/-- `id` was verified in the run, and has had a record ever since. -/
def VerifiedSince (world : PeerWorld Addr) (start : Device) (ops : List PeerOp) (id : String) :
    Prop :=
  ∃ before op later, ops = before ++ op :: later ∧
    op.Verifies (run (PeerOp.run world) start before) id ∧
    ∀ mid, mid <+: later →
      ((run (PeerOp.run world) start (before ++ op :: mid)).store.find id).isSome

theorem VerifiedSince.snoc {start : Device} {ops : List PeerOp}
    (since : VerifiedSince world start ops id)
    (present : ((run (PeerOp.run world) start (ops ++ [op])).store.find id).isSome) :
    VerifiedSince world start (ops ++ [op]) id := by
  obtain ⟨before, first, later, rfl, verifies, always⟩ := since
  refine ⟨before, first, later ++ [op], by simp, verifies, ?_⟩
  intro mid early
  rcases List.prefix_concat_iff.mp early with whole | earlier
  · rw [whole]
    simpa using present
  · exact always mid earlier

theorem VerifiedSince.of_verifies {start : Device} {ops : List PeerOp}
    (verifies : op.Verifies (run (PeerOp.run world) start ops) id)
    (present : ((run (PeerOp.run world) start (ops ++ [op])).store.find id).isSome) :
    VerifiedSince world start (ops ++ [op]) id := by
  refine ⟨ops, op, [], rfl, verifies, ?_⟩
  intro mid early
  rw [List.prefix_nil.mp early]
  exact present

/-- A store that a run may reach from the empty one. -/
structure Reached (world : PeerWorld Addr) (start : Device) (ops : List PeerOp) (d : Device) :
    Prop where
  wf : d.store.Wf
  verified : ∀ id p, d.store.find id = some p → p.trust = .Verified →
    VerifiedSince world start ops id

theorem reached (world : PeerWorld Addr) (start : Device) (empty : start.store = .empty)
    (ops : List PeerOp) (allowed : ∀ op ∈ ops, op.Allowed) :
    Reached world start ops (run (PeerOp.run world) start ops) := by
  induction ops using List.reverseRecOn with
  | nil =>
    constructor
    · rw [Run.nil, empty]
      exact .empty
    · intro id p found
      rw [Run.nil, empty] at found
      cases found
  | append_singleton ops op ih =>
    have before := ih fun op mem => allowed op (List.mem_append_left _ mem)
    have this := allowed op (by simp)
    constructor
    · rw [Run.snoc]
      exact PeerOp.run_wf before.wf this
    · intro id q found verified
      have present := Option.isSome_of_eq_some found
      rw [Run.snoc] at found
      rcases PeerOp.run_find this found with ⟨p, old, kept | rfl⟩ | ⟨absent, new | backed⟩
      · exact (before.verified id p old (kept ▸ verified)).snoc present
      · exact .of_verifies ⟨rfl, verified⟩ present
      · rw [verified] at new
        cases new
      · obtain ⟨payload, grant, rfl, r, mem, same, trust⟩ := backed
        exact .of_verifies ⟨absent, r, mem, same, trust.trans verified⟩ present

/-- In every run from the empty store: the ids are distinct, each is that of the
record's key, an id never has two keys, no operation but `set_trust` changes the
trust of a record, and a verified record has been there since it was verified. -/
theorem peer_store_invariant (world : PeerWorld Addr) (keystore : Keystore) (ops : List PeerOp)
    (allowed : ∀ op ∈ ops, op.Allowed) :
    (∀ before, before <+: ops →
      ((run (PeerOp.run world) ⟨.empty, keystore⟩ before).store.peers.map StoredPeer.id).Nodup ∧
      (∀ p ∈ (run (PeerOp.run world) ⟨.empty, keystore⟩ before).store.peers, p.Keyed) ∧
      ∀ p ∈ (run (PeerOp.run world) ⟨.empty, keystore⟩ before).store.peers, p.trust = .Verified →
        VerifiedSince world ⟨.empty, keystore⟩ before p.id) ∧
    (∀ earlier later, earlier <+: ops → later <+: ops →
      ∀ p ∈ (run (PeerOp.run world) ⟨.empty, keystore⟩ earlier).store.peers,
      ∀ q ∈ (run (PeerOp.run world) ⟨.empty, keystore⟩ later).store.peers,
        p.id = q.id → p.static_pk = q.static_pk) ∧
    ∀ before op, before ++ [op] <+: ops →
      ∀ p ∈ (run (PeerOp.run world) ⟨.empty, keystore⟩ before).store.peers,
      ∀ q ∈ (run (PeerOp.run world) ⟨.empty, keystore⟩ (before ++ [op])).store.peers,
        p.id = q.id → q.trust = p.trust ∨ op = .set_trust p.id q.trust := by
  have all (before : List PeerOp) (early : before <+: ops) :=
    reached world ⟨.empty, keystore⟩ rfl before fun op mem =>
      allowed op (early.subset mem)
  refine ⟨?_, ?_, ?_⟩
  · intro before early
    have now := all before early
    refine ⟨now.wf.ids_nodup, now.wf.keyed, ?_⟩
    intro p mem
    exact now.verified p.id p (now.wf.find_eq_some.mpr ⟨mem, rfl⟩)
  · intro earlier later early late p p_mem q q_mem same
    exact ((all earlier early).wf.keyed p p_mem).static_pk_eq ((all later late).wf.keyed q q_mem)
      same
  · intro before op early p p_mem q q_mem same
    have old := (all before ((List.prefix_append _ _).trans early)).wf.find_eq_some.mpr ⟨p_mem, rfl⟩
    have found := (all _ early).wf.find_eq_some.mpr ⟨q_mem, same.symm⟩
    rw [Run.snoc] at found
    rcases PeerOp.run_find (allowed op (early.subset (by simp))) found with
      ⟨p', here, kept⟩ | ⟨absent, -⟩
    · rw [old] at here
      obtain rfl := Option.some.inj here
      exact kept
    · rw [old] at absent
      cases absent

/-- The peer whose key has a two in every byte. -/
def bob : String := Hex.hex (FixedBytes.fill 32 2).val

/-- A run that pairs with a peer, verifies it and imports an empty backup. -/
def verify_and_import : List PeerOp := [
  .pair (.responder (FixedBytes.fill 32 1) (FixedBytes.fill 32 2) (.Identity "bob" "phone")
    "2026-04-15" "2026-04-15"),
  .set_trust bob .Verified,
  .apply_backup ⟨STORE_SCHEMA, ⟨"pk", "sk", "alice", "laptop", "2026-04-15"⟩, []⟩ .all]

theorem peer_store_invariant_of_import :
    VerifiedSince ⟨PeerStore.reader, "/data", no_parsers, fun bytes => bytes⟩
      ⟨.empty, ⟨false, none⟩⟩ verify_and_import bob := by
  have allowed : ∀ op ∈ verify_and_import, op.Allowed := by
    intro op mem
    simp only [verify_and_import, List.mem_cons, List.not_mem_nil, or_false] at mem
    rcases mem with rfl | rfl | rfl
    · trivial
    · trivial
    · exact ⟨.empty, .empty, rfl⟩
  have sound := (peer_store_invariant ⟨PeerStore.reader, "/data", no_parsers, fun bytes => bytes⟩
    ⟨false, none⟩ verify_and_import allowed).1 verify_and_import List.prefix_rfl
  refine sound.2.2 ⟨bob, "bob", "phone", base64 (FixedBytes.fill 32 2).val, "2026-04-15",
    "2026-04-15", .Verified, []⟩ ?_ rfl
  decide

end Qev.Desktop
