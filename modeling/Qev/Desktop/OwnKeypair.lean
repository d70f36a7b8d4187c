import Qev.Desktop.WithWrite

/-! The own keypair: its public half is in the file, its secret there or in the
keystore, and the two are written at different times. -/

namespace Qev.Desktop

open Pairing

/-- The application, while it runs, with the keystore and the disk. -/
structure Machine where
  running : Option PeerStore
  keystore : Keystore
  fs : FileSystem Path

inductive Life where
  | call (c : PeerStoreCall)
  | restart (at_ : Loading)

namespace Machine

variable (reader : Reader PeerStore.to_value) (app_data_dir : String)

/-- The application does not start on a file that it cannot load. -/
def step (m : Machine) : Life → Machine
  | .call c =>
    match m.running with
    | none => m
    | some store =>
      let (held, _) := PeerStoreState.with_write app_data_dir ⟨⟨store, m.keystore⟩, m.fs⟩ c
      ⟨some held.memory.store, held.memory.keystore, held.fs⟩
  | .restart at_ =>
    match PeerStore.load_or_empty reader m.fs (store_path app_data_dir) m.keystore at_ with
    | (fs, keystore, .error _) => ⟨none, keystore, fs⟩
    | (fs, keystore, .ok store) => ⟨some store, keystore, fs⟩

/-- The own identity in the file. -/
def disk_own (m : Machine) : Option OwnIdentity :=
  (PeerStore.stored reader m.fs (store_path app_data_dir)).bind PeerStore.own_identity

def memory_own (m : Machine) : Option OwnIdentity := m.running.bind PeerStore.own_identity

end Machine

/-- Neither the file nor the store in memory gives a pair of halves that do not
belong together. -/
def Machine.Consistent (pubkey : FixedBytes 32 → FixedBytes 32) (reader : Reader PeerStore.to_value)
    (app_data_dir : String) (m : Machine) : Prop :=
  ∀ own, m.disk_own reader app_data_dir = some own ∨ m.memory_own = some own →
    own.Consistent pubkey m.keystore

/-- Generated keypairs are valid, and a backup is the export of a consistent
installation. -/
def PeerWrite.Valid (pubkey : FixedBytes 32 → FixedBytes 32) : PeerWrite → Prop
  | show_qr _ _ out => ∀ kp, out.generate = .ok kp → kp.Valid pubkey
  | ensure _ _ out => ∀ kp, out.generate = .ok kp → kp.Valid pubkey
  | import_backup payload _ => ∃ (own : OwnIdentity) (ks : Keystore) (grant : Grant),
      own.Consistent pubkey ks ∧ own.with_unwrapped_secret ks grant = .ok payload.own_identity
  | _ => True

def Life.Valid (pubkey : FixedBytes 32 → FixedBytes 32) : Life → Prop
  | call c => c.write.Valid pubkey
  | restart _ => True

variable {pubkey : FixedBytes 32 → FixedBytes 32} {reader : Reader PeerStore.to_value}
  {app_data_dir : String} {m : Machine}

/-! ## What a write does to the keys -/

theorem Device.ensure_own (d : Device) (name device : String) (out : Outside)
    (valid : ∀ kp, out.generate = .ok kp → kp.Valid pubkey) :
    (d.ensure name device out).1 = d ∨ d.store.own_identity = none ∧
      ∃ own, (d.ensure name device out).1.store.own_identity = some own ∧ own.Whole pubkey := by
  unfold ensure PeerStore.ensure_own_identity
  cases own : d.store.own_identity with
  | some id => exact .inl rfl
  | none =>
    cases made : out.generate with
    | error e => exact .inl rfl
    | ok kp =>
      right
      refine ⟨rfl, _, rfl, kp.secret, ?_, rfl⟩
      exact congrArg (fun key => base64 key.val) (valid kp made)

/-- A write keeps the keys, or makes the first ones, or is an import. -/
theorem PeerWrite.run_own {w : PeerWrite} (valid : w.Valid pubkey) (d : Device) :
    (w.run d).1.keystore = d.keystore ∧ (w.run d).1.store.own_identity.map OwnIdentity.keys =
      d.store.own_identity.map OwnIdentity.keys ∨
    (d.store.own_identity = none ∧
      ∃ own, (w.run d).1.store.own_identity = some own ∧ own.Whole pubkey) ∨
    ∃ payload grant, w = .import_backup payload grant := by
  cases w with
  | show_qr name device out =>
    rcases run_show_qr d name device out with ⟨e, -, same⟩ | ⟨kp, -, made⟩
    · rw [same]
      exact .inl ⟨rfl, rfl⟩
    · rw [made]
      rcases d.ensure_own name device out valid with same | ⟨unset, own, here, whole⟩
      · left
        rw [same]
        refine ⟨rfl, ?_⟩
        simp only [PeerStore.set_own_device, PeerStore.set_own_name]
        cases d.store.own_identity with
        | none => rfl
        | some own => rfl
      · right
        left
        refine ⟨unset, { own with name, device }, ?_, whole⟩
        simp [PeerStore.set_own_device, PeerStore.set_own_name, here]
  | ensure own_name own_device out =>
    rw [run_ensure]
    rcases d.ensure_own own_name own_device out valid with same | made
    · rw [same]
      exact .inl ⟨rfl, rfl⟩
    · exact .inr (.inl made)
  | upsert stored => exact .inl ⟨rfl, rfl⟩
  | verify peer_id =>
    rw [run_verify]
    exact .inl ⟨rfl, rfl⟩
  | unpair peer_id =>
    rw [run_unpair]
    exact .inl ⟨rfl, rfl⟩
  | record_backup now_iso => exact .inl ⟨rfl, rfl⟩
  | import_backup payload grant => exact .inr (.inr ⟨payload, grant, rfl⟩)

/-- After a call the file holds what it held, or the store in memory. -/
theorem PeerStoreState.stored_with_write (reader : Reader PeerStore.to_value)
    (app_data_dir : String) (s : Held Device) (c : PeerStoreCall) :
    (PeerStoreState.with_write app_data_dir s c).1.memory = (c.write.run s.memory).1 ∧
    (PeerStore.stored reader (PeerStoreState.with_write app_data_dir s c).1.fs
        (store_path app_data_dir) = PeerStore.stored reader s.fs (store_path app_data_dir) ∧
      ((∃ e, (c.write.run s.memory).2 = .error e) ∨
        (c.write.run s.memory).1.store.SaveFails (store_path app_data_dir) c.stop) ∨
    PeerStore.stored reader (PeerStoreState.with_write app_data_dir s c).1.fs
        (store_path app_data_dir) = some (c.write.run s.memory).1.store ∧
      ¬ (c.write.run s.memory).1.store.SaveFails (store_path app_data_dir) c.stop) := by
  cases result : (c.write.run s.memory).2 with
  | error e =>
    rw [with_write, with_write_of_error result]
    exact ⟨rfl, .inl ⟨rfl, .inl ⟨e, rfl⟩⟩⟩
  | ok r =>
    rw [with_write, with_write_of_ok result]
    refine ⟨rfl, ?_⟩
    cases saved : ((c.write.run s.memory).1.store.save c.umask s.fs (store_path app_data_dir)
        c.stop).2 with
    | error e =>
      left
      exact ⟨PeerStore.stored_congr (PeerStore.save_error saved),
        .inr (PeerStore.save_fails.mp ⟨e, saved⟩)⟩
    | ok u =>
      right
      refine ⟨PeerStore.stored_of_save_ok saved, ?_⟩
      intro fails
      obtain ⟨e, failed⟩ := PeerStore.save_fails.mpr fails
      rw [saved] at failed
      cases failed

namespace Machine

/-- An import over a file without its secret, of another key, whose secret goes
to the keystore, is saved. -/
def Meets (reader : Reader PeerStore.to_value) (app_data_dir : String) (m : Machine) : Life → Prop
  | .call ⟨.import_backup payload grant, _, stop⟩ =>
    ∀ store own, m.running = some store → m.disk_own reader app_data_dir = some own →
      own.secret = "" → own.public_key ≠ payload.own_identity.public_key →
      m.keystore.is_available = true → grant.set = true →
      ¬ (apply_backup store payload).SaveFails (store_path app_data_dir) stop
  | _ => True

/-- What the file holds is safe; the store in memory has the same keys, or both
of its own; and it has an identity where the file has one. -/
structure Sound (pubkey : FixedBytes 32 → FixedBytes 32) (reader : Reader PeerStore.to_value)
    (app_data_dir : String) (m : Machine) : Prop where
  disk : ∀ own, m.disk_own reader app_data_dir = some own → own.Safe pubkey m.keystore
  memory : ∀ own, m.memory_own = some own → own.Whole pubkey ∨
    ∃ held, m.disk_own reader app_data_dir = some held ∧ own.keys = held.keys
  unset : m.running.isSome → m.memory_own = none → m.disk_own reader app_data_dir = none

theorem Sound.safe_memory (sound : m.Sound pubkey reader app_data_dir) {own : OwnIdentity}
    (here : m.memory_own = some own) : own.Safe pubkey m.keystore := by
  rcases sound.memory own here with whole | ⟨held, on_disk, same⟩
  · exact .inl whole
  · exact (sound.disk held on_disk).congr same

theorem Sound.consistent (sound : m.Sound pubkey reader app_data_dir) :
    m.Consistent pubkey reader app_data_dir := by
  rintro own (here | here)
  · exact (sound.disk own here).consistent
  · exact (sound.safe_memory here).consistent

/-- After a call the identity in the file is the one from before, or that of the
store in memory. -/
theorem step_call (reader : Reader PeerStore.to_value) (app_data_dir : String) {store : PeerStore}
    (on : m.running = some store) (c : PeerStoreCall) :
    (m.step reader app_data_dir (.call c)).memory_own =
        (c.write.run ⟨store, m.keystore⟩).1.store.own_identity ∧
    (m.step reader app_data_dir (.call c)).keystore = (c.write.run ⟨store, m.keystore⟩).1.keystore ∧
    ((m.step reader app_data_dir (.call c)).disk_own reader app_data_dir =
        m.disk_own reader app_data_dir ∧
      ((∃ e, (c.write.run ⟨store, m.keystore⟩).2 = .error e) ∨
        (c.write.run ⟨store, m.keystore⟩).1.store.SaveFails (store_path app_data_dir) c.stop) ∨
    (m.step reader app_data_dir (.call c)).disk_own reader app_data_dir =
        (m.step reader app_data_dir (.call c)).memory_own ∧
      ¬ (c.write.run ⟨store, m.keystore⟩).1.store.SaveFails (store_path app_data_dir) c.stop) := by
  obtain ⟨memory, file⟩ := PeerStoreState.stored_with_write reader app_data_dir
    ⟨⟨store, m.keystore⟩, m.fs⟩ c
  simp only [step, on, memory_own, disk_own, Option.bind_some, memory]
  refine ⟨trivial, trivial, ?_⟩
  rcases file with ⟨same, failed⟩ | ⟨saved, succeeds⟩
  · exact .inl ⟨by rw [same], failed⟩
  · right
    rw [saved]
    exact ⟨rfl, succeeds⟩

/-- Where the keys are kept. -/
theorem Sound.kept {m' : Machine} (sound : m.Sound pubkey reader app_data_dir)
    (keystore : m'.keystore = m.keystore)
    (keys : m'.memory_own.map OwnIdentity.keys = m.memory_own.map OwnIdentity.keys)
    (on : m.running.isSome)
    (file : m'.disk_own reader app_data_dir = m.disk_own reader app_data_dir ∨
      m'.disk_own reader app_data_dir = m'.memory_own) : m'.Sound pubkey reader app_data_dir := by
  have before {own : OwnIdentity} (here : m'.memory_own = some own) :
      ∃ own', m.memory_own = some own' ∧ own.keys = own'.keys := by
    rw [here] at keys
    obtain ⟨own', is_own, same⟩ := Option.map_eq_some_iff.mp keys.symm
    exact ⟨own', is_own, same.symm⟩
  refine ⟨?_, ?_, ?_⟩
  · intro own here
    rw [keystore]
    rcases file with same | saved
    · exact sound.disk own (same ▸ here)
    · obtain ⟨own', is_own, same⟩ := before (saved ▸ here)
      exact (sound.safe_memory is_own).congr same
  · intro own here
    obtain ⟨own', is_own, same⟩ := before here
    rcases file with unchanged | saved
    · rcases sound.memory own' is_own with whole | ⟨held, on_disk, same_disk⟩
      · exact .inl (whole.congr same)
      · exact .inr ⟨held, unchanged.trans on_disk, same.trans same_disk⟩
    · exact .inr ⟨own, saved.trans here, rfl⟩
  · intro _ unset
    rcases file with same | saved
    · rw [same]
      apply sound.unset on
      rw [unset] at keys
      exact Option.map_eq_none_iff.mp keys.symm
    · rw [saved, unset]

/-- Where the store in memory has got both halves of a keypair. -/
theorem Sound.of_whole {m' : Machine} {own : OwnIdentity} (here : m'.memory_own = some own)
    (whole : own.Whole pubkey)
    (file : (∀ held, m'.disk_own reader app_data_dir = some held → held.Safe pubkey m'.keystore) ∨
      m'.disk_own reader app_data_dir = m'.memory_own) : m'.Sound pubkey reader app_data_dir := by
  refine ⟨?_, ?_, ?_⟩
  · intro held on_disk
    rcases file with safe | saved
    · exact safe held on_disk
    · rw [saved, here] at on_disk
      exact .inl (Option.some.inj on_disk ▸ whole)
  · intro own' is_own
    rw [here] at is_own
    exact .inl (Option.some.inj is_own ▸ whole)
  · intro _ unset
    rw [here] at unset
    cases unset

theorem step_import (reader : Reader PeerStore.to_value) (app_data_dir : String) {store : PeerStore}
    (on : m.running = some store) (payload : BackupPayload) (grant : Grant) (umask : Mode)
    (stop : Option Nat) :
    let m' := m.step reader app_data_dir (.call ⟨.import_backup payload grant, umask, stop⟩)
    m'.memory_own = some payload.own_identity ∧
    m'.keystore = payload.own_identity.migrate_to_keystore m.keystore grant ∧
    (m'.disk_own reader app_data_dir = m.disk_own reader app_data_dir ∧
        (apply_backup store payload).SaveFails (store_path app_data_dir) stop ∨
      m'.disk_own reader app_data_dir = m'.memory_own ∧
        ¬ (apply_backup store payload).SaveFails (store_path app_data_dir) stop) := by
  obtain ⟨memory, keystore, file⟩ := step_call reader app_data_dir on
    ⟨.import_backup payload grant, umask, stop⟩
  refine ⟨?_, keystore, ?_⟩
  · rw [memory]
    simp only [PeerWrite.run, Device.install, apply_backup_eq]
  · rcases file with ⟨same, ⟨e, failed⟩ | fails⟩ | saved
    · cases failed
    · exact .inl ⟨same, fails⟩
    · exact .inr saved

theorem Sound.step_call (sound : m.Sound pubkey reader app_data_dir) {c : PeerStoreCall}
    (valid : c.write.Valid pubkey) (meets : m.Meets reader app_data_dir (.call c)) :
    (m.step reader app_data_dir (.call c)).Sound pubkey reader app_data_dir := by
  cases on : m.running with
  | none =>
    rw [step, on]
    exact sound
  | some store =>
    obtain ⟨memory, keystore, file⟩ := Machine.step_call reader app_data_dir on c
    have unchanged_or_saved := file.imp And.left And.left
    have own : m.memory_own = store.own_identity := by
      rw [memory_own, on]
      rfl
    rcases PeerWrite.run_own valid ⟨store, m.keystore⟩ with
      ⟨same, keys⟩ | ⟨unset, own', made, whole⟩ | ⟨payload, grant, imported⟩
    · apply sound.kept (keystore.trans same) ?_ (by rw [on]; rfl) unchanged_or_saved
      rw [memory, own, keys]
    · apply Sound.of_whole (memory.trans made) whole
      refine unchanged_or_saved.imp_left ?_
      intro same held on_disk
      rw [same, sound.unset (by rw [on]; rfl) (own.trans unset)] at on_disk
      cases on_disk
    · obtain ⟨write, umask, stop⟩ := c
      obtain rfl : write = .import_backup payload grant := imported
      obtain ⟨memory, keystore, file⟩ := step_import reader app_data_dir on payload grant umask
        stop
      obtain ⟨own', ks, unwrapping, consistent, exported⟩ := valid
      have whole := OwnIdentity.whole_of_unwrapped consistent exported
      apply Sound.of_whole memory whole
      refine file.imp ?_ And.left
      rintro ⟨same, fails⟩ held on_disk
      rw [same] at on_disk
      rcases sound.disk held on_disk with both | ⟨bare, key, fits⟩
      · exact .inl both
      · obtain ⟨secret, is_public, is_secret⟩ := whole
        refine .inr ⟨bare, key, ?_⟩
        rw [keystore, OwnIdentity.migrate_of_secret is_secret]
        split
        · apply fits.store_secret
          intro available set
          rw [← is_public]
          by_contra other
          exact meets store held on on_disk bare other available set fails
        · exact fits

/-- A start that repairs the own identity leaves it safe. -/
theorem sound_repair {s₀ s : PeerStore} {own : OwnIdentity} {at_ : Loading} {fs : FileSystem Path}
    {keystore : Keystore} (safe : own.Safe pubkey m.keystore)
    (held : PeerStore.stored reader m.fs (store_path app_data_dir) = some s₀)
    (here : s₀.own_identity = some own)
    (repaired : (fs, keystore, s) =
      s₀.repair own m.fs (store_path app_data_dir) m.keystore at_) :
    (⟨some s, keystore, fs⟩ : Machine).Sound pubkey reader app_data_dir := by
  have disk_own_of {fs' : FileSystem Path} {ks : Keystore} {running : Option PeerStore}
      (same : PeerStore.stored reader fs' (store_path app_data_dir) = some s₀) :
      (⟨running, ks, fs'⟩ : Machine).disk_own reader app_data_dir = some own := by
    rw [disk_own, same]
    exact here
  by_cases empty : own.secret = ""
  · rcases PeerStore.repair_of_empty m.fs (store_path app_data_dir) m.keystore at_ here empty with
      same | ⟨secret, loaded, recovered⟩
    · rw [same] at repaired
      cases repaired
      refine ⟨?_, ?_, ?_⟩
      · intro own' on_disk
        rw [disk_own_of held] at on_disk
        exact Option.some.inj on_disk ▸ safe
      · intro own' in_memory
        exact .inr ⟨own', (disk_own_of held).trans (here.symm.trans in_memory), rfl⟩
      · intro _ unset
        cases here.symm.trans unset
    · rw [recovered] at repaired
      cases repaired
      have is_whole : ({ own with secret := base64 secret.val } : OwnIdentity).Whole pubkey := by
        rcases safe with ⟨other, -, holds⟩ | ⟨-, -, fits⟩
        · exact absurd (holds.symm.trans empty) (OwnIdentity.base64_ne_empty other)
        · exact ⟨secret, fits secret (Keystore.load_secret_eq_ok.mp loaded).2.2, rfl⟩
      apply Sound.of_whole rfl is_whole
      cases saved : ({ s₀ with own_identity := some { own with secret := base64 secret.val } }.save
          at_.umask m.fs (store_path app_data_dir) at_.resave).2 with
      | ok u =>
        right
        rw [disk_own, PeerStore.stored_of_save_ok saved]
        rfl
      | error e =>
        left
        intro own' on_disk
        rw [disk_own_of ((PeerStore.stored_congr (PeerStore.save_error saved)).trans held)]
          at on_disk
        exact Option.some.inj on_disk ▸ safe
  · rw [PeerStore.repair_of_secret here empty] at repaired
    cases repaired
    rcases safe with whole | ⟨bare, -⟩
    · exact Sound.of_whole here whole (.inr ((disk_own_of held).trans here.symm))
    · exact absurd bare empty

theorem Sound.step_restart (sound : m.Sound pubkey reader app_data_dir) (at_ : Loading) :
    (m.step reader app_data_dir (.restart at_)).Sound pubkey reader app_data_dir := by
  cases loaded : PeerStore.load_or_empty reader m.fs (store_path app_data_dir) m.keystore at_ with
  | mk fs rest =>
    obtain ⟨keystore, result⟩ := rest
    cases result with
    | error e =>
      obtain ⟨rfl, rfl⟩ := PeerStore.load_eq_error loaded
      rw [step, loaded]
      exact ⟨sound.disk, nofun, nofun⟩
    | ok s =>
      have stepped : m.step reader app_data_dir (.restart at_) = ⟨some s, keystore, fs⟩ := by
        rw [step, loaded]
      rw [stepped]
      obtain ⟨s₀, held, -, ⟨own, rfl, rfl, rfl⟩ | ⟨own, here, repaired⟩⟩ :=
        PeerStore.load_eq_ok loaded
      · have no_own : m.disk_own reader app_data_dir = none := by
          rw [disk_own, held]
          exact own
        have none_here : (⟨some s, m.keystore, m.fs⟩ : Machine).memory_own = none := own
        refine ⟨sound.disk, ?_, fun _ _ => no_own⟩
        intro own' is_own
        rw [none_here] at is_own
        cases is_own
      · have on_disk : m.disk_own reader app_data_dir = some own := by
          rw [disk_own, held]
          exact here
        exact sound_repair (sound.disk own on_disk) held here repaired

theorem sound_step (sound : m.Sound pubkey reader app_data_dir) {e : Life} (valid : e.Valid pubkey)
    (meets : m.Meets reader app_data_dir e) :
    (m.step reader app_data_dir e).Sound pubkey reader app_data_dir := by
  cases e with
  | call c => exact sound.step_call valid meets
  | restart at_ => exact sound.step_restart at_

/-- Any other import leaves the old key in the file and the new secret in the
keystore. -/
theorem meets_of_consistent (sound : m.Sound pubkey reader app_data_dir) {e : Life}
    (valid : e.Valid pubkey)
    (consistent : (m.step reader app_data_dir e).Consistent pubkey reader app_data_dir) :
    m.Meets reader app_data_dir e := by
  unfold Meets
  split
  · rename_i payload grant umask stop
    intro store own on on_disk bare other available set fails
    obtain ⟨-, keystore, file⟩ := step_import reader app_data_dir on payload grant umask stop
    rcases file with ⟨same, -⟩ | ⟨-, succeeds⟩
    · obtain ⟨own', ks, unwrapping, unwrapped, exported⟩ := valid
      obtain ⟨secret, is_public, is_secret⟩ := OwnIdentity.whole_of_unwrapped unwrapped exported
      rcases sound.disk own on_disk with ⟨half, -, holds⟩ | ⟨-, ⟨key, here⟩, -⟩
      · exact OwnIdentity.base64_ne_empty half (holds.symm.trans bare)
      · rw [OwnIdentity.migrate_of_secret is_secret, if_pos available] at keystore
        have item : (m.step reader app_data_dir
            (.call ⟨.import_backup payload grant, umask, stop⟩)).keystore.item =
              some secret.val := by
          rw [keystore, Keystore.store_secret_item, if_pos available, if_pos set]
        have still : (m.step reader app_data_dir
            (.call ⟨.import_backup payload grant, umask, stop⟩)).keystore.is_available = true := by
          rw [keystore, Keystore.store_secret_available]
          exact available
        apply OwnIdentity.not_consistent bare here still item
        · rw [← is_public]
          exact other
        · exact consistent own (.inl (same.trans on_disk))
    · exact succeeds fails
  · trivial

/-- Not running: a new installation, or the file of an old version, which has the
secret of its key in the keystore. -/
def Start (pubkey : FixedBytes 32 → FixedBytes 32) (reader : Reader PeerStore.to_value)
    (app_data_dir : String) (m : Machine) : Prop :=
  m.running = none ∧ (m.fs (store_path app_data_dir) = none ∨
    ∃ own, m.disk_own reader app_data_dir = some own ∧ own.secret = "" ∧
      ∃ secret : FixedBytes 32, own.public_key = base64 (pubkey secret).val ∧
        m.keystore.item = some secret.val)

theorem Start.sound (start : m.Start pubkey reader app_data_dir) :
    m.Sound pubkey reader app_data_dir := by
  obtain ⟨off, file⟩ := start
  have no_memory : m.memory_own = none := by
    rw [memory_own, off]
    rfl
  refine ⟨?_, ?_, ?_⟩
  · intro own here
    rcases file with new | ⟨own', here', bare, secret, is_public, item⟩
    · rw [disk_own, PeerStore.stored, new] at here
      cases here
    · rw [here] at here'
      obtain rfl := Option.some.inj here'
      refine .inr ⟨bare, ⟨pubkey secret, is_public⟩, ?_⟩
      intro held same
      rw [item] at same
      rw [is_public, Subtype.ext (Option.some.inj same)]
  · intro own here
    rw [no_memory] at here
    cases here
  · intro on
    rw [off] at on
    cases on

end Machine

/-- From a new or an old installation: in every state of a run the file and the
memory give pairs that belong together if and only if every import of another
key over a file without its secret is saved, where its secret gets to the
keystore. -/
theorem own_keypair_consistent_iff (pubkey : FixedBytes 32 → FixedBytes 32)
    (reader : Reader PeerStore.to_value) (app_data_dir : String) (m : Machine)
    (start : m.Start pubkey reader app_data_dir) (events : List Life)
    (valid : ∀ e ∈ events, e.Valid pubkey) :
    (∀ before, before <+: events →
      (run (Machine.step reader app_data_dir) m before).Consistent pubkey reader app_data_dir) ↔
    Run.Along (Machine.step reader app_data_dir) (Machine.Meets reader app_data_dir) m events := by
  apply Run.along_iff_always start.sound
  · intro m sound
    exact sound.consistent
  · intro e mem m sound meets
    exact Machine.sound_step sound (valid e mem) meets
  · intro e mem m sound consistent
    exact Machine.meets_of_consistent sound (valid e mem) consistent

/-- X25519 on the secrets whose bytes are all one, or all two. -/
def x25519 (secret : FixedBytes 32) : FixedBytes 32 :=
  if secret = FixedBytes.fill 32 1 then
    ⟨[164, 224, 146, 146, 182, 81, 194, 120, 185, 119, 44, 86, 159, 95, 169, 187, 19, 217, 6, 180,
      106, 182, 140, 157, 249, 220, 43, 68, 9, 248, 162, 9], rfl⟩
  else
    ⟨[206, 141, 58, 209, 204, 182, 51, 236, 123, 112, 193, 120, 20, 165, 199, 110, 205, 2, 150,
      133, 5, 13, 52, 71, 69, 186, 5, 135, 14, 88, 125, 89], rfl⟩

/-- The record of a secret, with or without it. -/
def identity_of (secret : FixedBytes 32) (held : Bool) : OwnIdentity :=
  ⟨base64 (x25519 secret).val, if held then base64 secret.val else "", "alice", "laptop",
    "2026-04-15"⟩

/-- What an old version left in the file. -/
def old_store : PeerStore :=
  { PeerStore.empty with own_identity := some (identity_of (FixedBytes.fill 32 1) false) }

/-- The file and the keystore of an old version. -/
def old_installation : Machine where
  running := none
  keystore := ⟨true, some (FixedBytes.fill 32 1).val⟩
  fs path := if path = store_path "/data" then some ⟨old_store.to_json, 0o600#9⟩ else none

theorem old_installation_stored :
    PeerStore.stored PeerStore.reader old_installation.fs (store_path "/data") =
      some old_store := by
  have there : old_installation.fs (store_path "/data") = some ⟨old_store.to_json, 0o600#9⟩ := by
    simp only [old_installation, if_true]
  rw [PeerStore.stored, there]
  exact PeerStore.reader.from_slice_to_vec_pretty old_store

theorem old_installation_disk_own : old_installation.disk_own PeerStore.reader "/data" =
    some (identity_of (FixedBytes.fill 32 1) false) := by
  rw [Machine.disk_own, old_installation_stored]
  rfl

theorem old_installation_start : old_installation.Start x25519 PeerStore.reader "/data" :=
  ⟨rfl, .inr ⟨_, old_installation_disk_own, rfl, FixedBytes.fill 32 1, rfl, rfl⟩⟩

def restart_with (recover : Grant) : Life := .restart ⟨true, .all, recover, 0o022#9, none⟩

/-- The secret comes back from the keystore, and stays in the file. -/
def upgrade : List Life := [
  restart_with .all,
  .call ⟨.show_qr "alice" "laptop" ⟨.error "not asked", "2026-04-15", .all⟩, 0o022#9, none⟩,
  restart_with .all]

theorem own_keypair_consistent_of_upgrade :
    (run (Machine.step PeerStore.reader "/data") old_installation upgrade).Consistent x25519
      PeerStore.reader "/data" := by
  have valid : ∀ e ∈ upgrade, e.Valid x25519 := by
    intro e mem
    simp only [upgrade, List.mem_cons, List.not_mem_nil, or_false] at mem
    rcases mem with rfl | rfl | rfl
    · trivial
    · exact nofun
    · trivial
  have always := (own_keypair_consistent_iff x25519 PeerStore.reader "/data" old_installation
    old_installation_start upgrade valid).mpr ⟨trivial, trivial, trivial, trivial⟩
  exact always upgrade List.prefix_rfl

/-- The user keeps the keystore closed, and imports another identity while the
disk is full. -/
def failed_import : List Life := [
  restart_with ⟨true, true, false⟩,
  .call ⟨.import_backup ⟨STORE_SCHEMA, identity_of (FixedBytes.fill 32 2) true, []⟩ .all, 0o022#9,
    some 0⟩]

theorem own_keypair_torn : old_installation.Start x25519 PeerStore.reader "/data" ∧
    (∀ e ∈ failed_import, e.Valid x25519) ∧
    ¬ (run (Machine.step PeerStore.reader "/data") old_installation failed_import).Consistent x25519
      PeerStore.reader "/data" := by
  have whole : (identity_of (FixedBytes.fill 32 2) true).Whole x25519 :=
    ⟨FixedBytes.fill 32 2, rfl, rfl⟩
  have valid : ∀ e ∈ failed_import, e.Valid x25519 := by
    intro e mem
    simp only [failed_import, List.mem_cons, List.not_mem_nil, or_false] at mem
    rcases mem with rfl | rfl
    · trivial
    · exact ⟨identity_of (FixedBytes.fill 32 2) true, ⟨false, none⟩, .all, whole.consistent, rfl⟩
  refine ⟨old_installation_start, valid, ?_⟩
  intro consistent
  rw [failed_import, Run.cons, Run.cons, Run.nil, restart_with] at consistent
  have sound := old_installation_start.sound.step_restart
    ⟨true, .all, ⟨true, true, false⟩, 0o022#9, none⟩
  have meets := Machine.meets_of_consistent sound (valid _ (by simp [failed_import])) consistent
  have started : old_installation.step PeerStore.reader "/data"
      (.restart ⟨true, .all, ⟨true, true, false⟩, 0o022#9, none⟩) =
        { old_installation with running := some old_store } := by
    have there : old_installation.fs (store_path "/data") = some ⟨old_store.to_json, 0o600#9⟩ := by
      simp only [old_installation, if_true]
    have read : PeerStore.reader.from_slice old_store.to_json = some old_store :=
      PeerStore.reader.from_slice_to_vec_pretty old_store
    simp only [Machine.step, PeerStore.load_or_empty, if_true, there, read]
    rfl
  rw [started] at meets
  apply meets old_store _ rfl old_installation_disk_own rfl ?_ rfl rfl
  · refine .inr ⟨0, rfl, ?_⟩
    rw [PeerStore.save_ops, FileSystem.length_replace]
    apply Nat.succ_pos
  · intro same
    have first := congrArg List.head? (base64_injective same)
    exact absurd first (by decide)

end Qev.Desktop
