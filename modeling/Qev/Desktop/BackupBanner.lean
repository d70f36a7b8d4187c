import Qev.Desktop.OwnKeypair

/-! What the banner says of backups. The flag is set by `export_identity_backup`;
the envelope is written to a file afterwards, by the user interface. -/

namespace Qev.Desktop

open Pairing

structure IdentityBackupStatus where
  has_identity : Bool
  has_never_backed_up : Bool
  last_backup_at : String
  peer_count : UInt32
  deriving DecidableEq, Repr

def identity_backup_status (s : PeerStore) : IdentityBackupStatus where
  has_identity := s.own_identity.isSome
  has_never_backed_up := s.last_backup_at.isNone
  last_backup_at := s.last_backup_at.getD ""
  peer_count := UInt32.ofNat s.peers.length

/-- An envelope, with the public key of the identity in it. -/
structure IdentityEnvelope where
  own_public : String
  text : String
  deriving DecidableEq, Repr

/-- The application with its user interface: the envelope it is about to save,
and those it has written to files. -/
structure Desk where
  machine : Machine
  envelope : Option IdentityEnvelope
  written : List IdentityEnvelope

inductive BannerEvent where
  | export_identity_backup (passphrase : String) (grant : Grant) (nonce : FixedBytes 24)
    (now_iso : String) (umask : Mode) (stop : Option Nat)
  /-- The dialog after an export: the file is written, or not. -/
  | save_vault_file (saved : Bool)
  | import_identity_backup (payload : BackupPayload) (grant : Grant) (umask : Mode)
    (stop : Option Nat)
  | ensure (own_name own_device : String) (out : Outside) (umask : Mode) (stop : Option Nat)
  | restart (at_ : Loading)

/-- The envelope that an export makes of the store. -/
def export_envelope (crypto : BackupCrypto) (s : PeerStore) (ks : Keystore) (grant : Grant)
    (passphrase : String) (nonce : FixedBytes 24) (now_iso : String) :
    Except String IdentityEnvelope := do
  match s.own_identity with
  | none => throw "no identity yet — pair a device first"
  | some own =>
    let own_with_secret ← own.with_unwrapped_secret ks grant
    let (_, text) ← export_backup crypto [] own_with_secret s.peers passphrase nonce now_iso
    return ⟨own.public_key, text⟩

namespace Desk

variable (crypto : BackupCrypto) (reader : Reader PeerStore.to_value) (app_data_dir : String)

/-- The flag is recorded, and where that succeeds the envelope is returned. -/
def record (d : Desk) (store : PeerStore) (envelope : IdentityEnvelope) (c : PeerStoreCall) :
    Desk :=
  { d with
    machine := d.machine.step reader app_data_dir (.call c)
    envelope := match (PeerStoreState.with_write app_data_dir
        ⟨⟨store, d.machine.keystore⟩, d.machine.fs⟩ c).2 with
      | .ok _ => some envelope
      | .error _ => none }

def step (d : Desk) : BannerEvent → Desk
  | .export_identity_backup passphrase grant nonce now_iso umask stop =>
    match d.machine.running with
    | none => d
    | some store =>
      match export_envelope crypto store d.machine.keystore grant passphrase nonce now_iso with
      | .error _ => d
      | .ok envelope =>
        d.record reader app_data_dir store envelope ⟨.record_backup now_iso, umask, stop⟩
  | .save_vault_file saved =>
    { d with
      envelope := none
      written := (if saved then d.envelope.toList else []) ++ d.written }
  | .import_identity_backup payload grant umask stop =>
    { d with
      machine := d.machine.step reader app_data_dir
        (.call ⟨.import_backup payload grant, umask, stop⟩) }
  | .ensure own_name own_device out umask stop =>
    { d with
      machine := d.machine.step reader app_data_dir
        (.call ⟨.ensure own_name own_device out, umask, stop⟩) }
  | .restart at_ =>
    { d with
      machine := d.machine.step reader app_data_dir (.restart at_)
      envelope := none }

/-- An envelope of that key has been written to a file. -/
def Backed (written : List IdentityEnvelope) (own_public : String) : Prop :=
  ∃ envelope ∈ written, envelope.own_public = own_public

/-- Where the status says that there is a backup, there is one of the own key. -/
def Truthful (written : List IdentityEnvelope) (s : PeerStore) : Prop :=
  (identity_backup_status s).has_never_backed_up = false →
    ∃ own, s.own_identity = some own ∧ Backed written own.public_key

def BannerTruthful (d : Desk) : Prop :=
  ∀ store, d.machine.running = some store → Truthful d.written store

/-- An export that makes an envelope is of a key of which one was written before,
and so is an import, unless no backup has been recorded. -/
def Meets (d : Desk) : BannerEvent → Prop
  | .export_identity_backup passphrase grant nonce now_iso _ _ =>
    ∀ store envelope, d.machine.running = some store →
      export_envelope crypto store d.machine.keystore grant passphrase nonce now_iso =
        .ok envelope → Backed d.written envelope.own_public
  | .import_identity_backup payload _ _ _ =>
    ∀ store, d.machine.running = some store →
      store.last_backup_at = none ∨ Backed d.written payload.own_identity.public_key
  | _ => True

variable {crypto : BackupCrypto} {reader : Reader PeerStore.to_value} {app_data_dir : String}
  {d : Desk} {s : PeerStore} {written : List IdentityEnvelope}

theorem truthful_iff : Truthful written s ↔
    s.last_backup_at = none ∨ ∃ key, s.own_public = some key ∧ Backed written key := by
  simp only [Truthful, identity_backup_status, PeerStore.own_public]
  cases s.last_backup_at with
  | none => simp
  | some at_ => simp [Option.map_eq_some_iff]

theorem Truthful.congr {t : PeerStore} (truthful : Truthful written s)
    (own : t.own_public = s.own_public) (flag : t.last_backup_at = s.last_backup_at) :
    Truthful written t := by
  rw [truthful_iff] at truthful ⊢
  rwa [own, flag]

theorem Truthful.mono {later : List IdentityEnvelope} (truthful : Truthful written s)
    (more : written ⊆ later) : Truthful later s := by
  intro flag
  obtain ⟨own, here, envelope, mem, same⟩ := truthful flag
  exact ⟨own, here, envelope, more mem, same⟩

/-- The file is truthful too: a restart reads the flag from there. -/
structure Sound (reader : Reader PeerStore.to_value) (app_data_dir : String) (d : Desk) : Prop where
  memory : d.BannerTruthful
  disk : ∀ s, PeerStore.stored reader d.machine.fs (store_path app_data_dir) = some s →
    Truthful d.written s

/-- A call that leaves the store in memory truthful leaves the file so. -/
theorem Sound.call (sound : d.Sound reader app_data_dir) {c : PeerStoreCall}
    (truthful : ∀ store, d.machine.running = some store →
      Truthful d.written (c.write.run ⟨store, d.machine.keystore⟩).1.store) :
    ({ d with machine := d.machine.step reader app_data_dir (.call c) } : Desk).Sound reader
      app_data_dir := by
  cases on : d.machine.running with
  | none =>
    rw [Machine.step, on]
    exact sound
  | some store =>
    obtain ⟨memory, file⟩ := PeerStoreState.stored_with_write reader app_data_dir
      ⟨⟨store, d.machine.keystore⟩, d.machine.fs⟩ c
    have now := truthful store on
    simp only [Machine.step, on]
    constructor
    · intro store' running
      rw [← Option.some.inj running, memory]
      exact now
    · intro s held
      rcases file with ⟨same, -⟩ | ⟨saved, -⟩
      · exact sound.disk s (same.symm.trans held)
      · rw [saved] at held
        exact Option.some.inj held ▸ now

theorem Sound.restart (sound : d.Sound reader app_data_dir) (at_ : Loading) :
    ({ d with machine := d.machine.step reader app_data_dir (.restart at_) } : Desk).Sound reader
      app_data_dir := by
  cases loaded : PeerStore.load_or_empty reader d.machine.fs (store_path app_data_dir)
      d.machine.keystore at_ with
  | mk fs rest =>
    obtain ⟨keystore, result⟩ := rest
    cases result with
    | error e =>
      obtain ⟨rfl, rfl⟩ := PeerStore.load_eq_error loaded
      simp only [Machine.step, loaded]
      constructor
      · intro store running
        cases running
      · exact sound.disk
    | ok s =>
      obtain ⟨s₀, held, own, flag, -, file⟩ := PeerStore.load_keeps loaded
      have old := sound.disk s₀ held
      have now := old.congr own flag
      simp only [Machine.step, loaded]
      constructor
      · intro store running
        exact Option.some.inj running ▸ now
      · intro store saved
        rcases file with same | new
        · rw [same] at saved
          exact Option.some.inj saved ▸ old
        · rw [new] at saved
          exact Option.some.inj saved ▸ now

/-- An envelope is of the own key. -/
theorem export_envelope_public {ks : Keystore} {grant : Grant} {passphrase now_iso : String}
    {nonce : FixedBytes 24} {envelope : IdentityEnvelope}
    (h : export_envelope crypto s ks grant passphrase nonce now_iso = .ok envelope) :
    s.own_public = some envelope.own_public := by
  unfold export_envelope at h
  split at h
  · cases h
  · rename_i own here
    obtain ⟨_, -, h⟩ := bind_eq_ok.mp h
    obtain ⟨_, -, h⟩ := bind_eq_ok.mp h
    cases h
    rw [PeerStore.own_public, here]
    rfl

theorem truthful_record (at_ : String) : Truthful written { s with last_backup_at := some at_ } ↔
    ∃ key, s.own_public = some key ∧ Backed written key := by
  rw [truthful_iff]
  exact or_iff_right nofun

theorem truthful_import (payload : BackupPayload) : Truthful written (apply_backup s payload) ↔
    s.last_backup_at = none ∨ Backed written payload.own_identity.public_key := by
  rw [truthful_iff, apply_backup_eq]
  simp [PeerStore.own_public]

/-- A first identity is made where the flag is not set. -/
theorem Truthful.ensure (truthful : Truthful written s) (ks : Keystore) (name device : String)
    (out : Outside) : Truthful written (s.ensure_own_identity ks name device out).1 := by
  rcases s.ensure_own_identity_eq ks name device out with same | ⟨unset, kp, -, made⟩
  · rwa [same]
  · rw [truthful_iff] at truthful ⊢
    rw [made]
    refine .inl (truthful.resolve_right ?_)
    rintro ⟨key, here, -⟩
    rw [PeerStore.own_public, unset] at here
    cases here

theorem sound_step (sound : d.Sound reader app_data_dir) (e : BannerEvent)
    (meets : d.Meets crypto e) :
    (d.step crypto reader app_data_dir e).Sound reader app_data_dir := by
  cases e with
  | export_identity_backup passphrase grant nonce now_iso umask stop =>
    cases on : d.machine.running with
    | none =>
      simp only [step, on]
      exact sound
    | some store =>
      cases made :
        export_envelope crypto store d.machine.keystore grant passphrase nonce now_iso with
      | error e =>
        simp only [step, on, made]
        exact sound
      | ok envelope =>
        have recorded : (⟨d.machine.step reader app_data_dir
            (.call ⟨.record_backup now_iso, umask, stop⟩), d.envelope, d.written⟩ : Desk).Sound
              reader app_data_dir := by
          apply sound.call
          intro store' on'
          rw [on] at on'
          obtain rfl := Option.some.inj on'
          exact (truthful_record now_iso).mpr
            ⟨envelope.own_public, export_envelope_public made, meets store envelope on made⟩
        simp only [step, on, made]
        exact ⟨recorded.memory, recorded.disk⟩
  | save_vault_file saved =>
    have more : d.written ⊆ (if saved then d.envelope.toList else []) ++ d.written :=
      List.subset_append_right _ _
    exact ⟨fun store running => (sound.memory store running).mono more,
      fun s held => (sound.disk s held).mono more⟩
  | import_identity_backup payload grant umask stop =>
    apply sound.call
    intro store on
    exact (truthful_import payload).mpr (meets store on)
  | ensure own_name own_device out umask stop =>
    apply sound.call
    intro store on
    rw [PeerWrite.run_ensure]
    exact (sound.memory store on).ensure d.machine.keystore own_name own_device out
  | restart at_ =>
    have restarted := sound.restart at_
    exact ⟨restarted.memory, restarted.disk⟩

theorem running_call (reader : Reader PeerStore.to_value) (app_data_dir : String) {m : Machine}
    {store : PeerStore} (on : m.running = some store) (c : PeerStoreCall) :
    (m.step reader app_data_dir (.call c)).running =
      some (c.write.run ⟨store, m.keystore⟩).1.store := by
  have memory := (PeerStoreState.stored_with_write reader app_data_dir
    ⟨⟨store, m.keystore⟩, m.fs⟩ c).1
  simp only [Machine.step, on, memory]

theorem meets_of_truthful (e : BannerEvent)
    (truthful : (d.step crypto reader app_data_dir e).BannerTruthful) : d.Meets crypto e := by
  cases e with
  | export_identity_backup passphrase grant nonce now_iso umask stop =>
    intro store envelope on made
    have now := running_call reader app_data_dir on
      ⟨.record_backup now_iso, umask, stop⟩
    simp only [step, on, made] at truthful
    obtain ⟨key, own, backed⟩ := (truthful_record now_iso).mp (truthful _ now)
    have own_key : store.own_public = some key := own
    rw [export_envelope_public made] at own_key
    exact Option.some.inj own_key ▸ backed
  | save_vault_file saved => trivial
  | import_identity_backup payload grant umask stop =>
    intro store on
    have now := running_call reader app_data_dir on
      ⟨.import_backup payload grant, umask, stop⟩
    exact (truthful_import payload).mp (truthful _ now)
  | ensure own_name own_device out umask stop => trivial
  | restart at_ => trivial

/-- An export whose file is written leaves the status truthful, in memory and in the
file, whether or not there was a backup before. -/
theorem sound_saved {store : PeerStore} {envelope : IdentityEnvelope} {passphrase now_iso : String}
    {grant : Grant} {nonce : FixedBytes 24} (umask : Mode) (sound : d.Sound reader app_data_dir)
    (valid : store.schema = STORE_SCHEMA) (on : d.machine.running = some store)
    (made : export_envelope crypto store d.machine.keystore grant passphrase nonce now_iso =
      .ok envelope) :
    ∃ saved : Desk, ((d.step crypto reader app_data_dir
      (.export_identity_backup passphrase grant nonce now_iso umask none)).step crypto reader
        app_data_dir (.save_vault_file true)) = saved ∧
      saved.Sound reader app_data_dir ∧ saved.written = envelope :: d.written ∧
      saved.machine.running = some { store with last_backup_at := some now_iso } := by
  have recorded : (PeerStoreState.with_write app_data_dir
      ⟨⟨store, d.machine.keystore⟩, d.machine.fs⟩ ⟨.record_backup now_iso, umask, none⟩).2 =
        .ok .unit := by
    have saves : (({ store with last_backup_at := some now_iso } : PeerStore).save umask
        d.machine.fs (store_path app_data_dir) none).2 = .ok () :=
      PeerStore.save_none valid
    simp only [PeerStoreState.with_write, with_write, PeerWrite.run]
    split
    · rename_i saved
      rw [saved] at saves
      cases saves
    · rfl
  -- The call is made as if the envelope had been written before it.
  have early : ({ d with written := envelope :: d.written } : Desk).Sound reader app_data_dir :=
    ⟨fun store running => (sound.memory store running).mono (List.subset_cons_self _ _),
      fun s held => (sound.disk s held).mono (List.subset_cons_self _ _)⟩
  have called := early.call (c := ⟨.record_backup now_iso, umask, none⟩) fun store' on' => by
    obtain rfl := Option.some.inj (on.symm.trans on')
    exact (truthful_record now_iso).mpr
      ⟨envelope.own_public, export_envelope_public made, envelope, List.mem_cons_self, rfl⟩
  refine ⟨⟨d.machine.step reader app_data_dir (.call ⟨.record_backup now_iso, umask, none⟩), none,
    envelope :: d.written⟩, ?_, ⟨called.memory, called.disk⟩, rfl, running_call reader app_data_dir
      on _⟩
  simp only [step, on, made, record, recorded]
  rfl

end Desk

/-- From any state that is truthful in memory and in the file: the status is
truthful in every state of a run if and only if every export that records a
backup is of a key of which one was already written, and so is every import
while one is recorded. -/
theorem banner_truthful_iff (crypto : BackupCrypto) (reader : Reader PeerStore.to_value)
    (app_data_dir : String) (d : Desk) (start : d.Sound reader app_data_dir)
    (events : List BannerEvent) :
    (∀ before, before <+: events →
      (run (Desk.step crypto reader app_data_dir) d before).BannerTruthful) ↔
    Run.Along (Desk.step crypto reader app_data_dir) (Desk.Meets crypto) d events := by
  apply Run.along_iff_always start
  · intro d sound
    exact sound.memory
  · intro e _ d sound meets
    exact Desk.sound_step sound e meets
  · intro e _ d _ truthful
    exact Desk.meets_of_truthful e truthful

def clear_crypto : BackupCrypto := ⟨.clear, fun bytes => bytes⟩

/-- A new installation that has started. -/
def new_desk : Desk := ⟨⟨some .empty, ⟨false, none⟩, fun _ => none⟩, none, []⟩

def first_keys : Outside :=
  ⟨.ok ⟨x25519 (FixedBytes.fill 32 1), FixedBytes.fill 32 1⟩, "2026-04-15", .all⟩

def first_identity : BannerEvent := .ensure "alice" "laptop" first_keys 0o022#9 none

def export_with_dialog (saved : Bool) : List BannerEvent := [
  .export_identity_backup "correct horse battery" .all (FixedBytes.fill 24 7) "2026-04-17" 0o022#9
    none,
  .save_vault_file saved]

/-- One whose identity was backed up once. -/
def backed_desk : Desk :=
  run (Desk.step clear_crypto PeerStore.reader "/data") new_desk
    (first_identity :: export_with_dialog true)

theorem new_desk_sound : new_desk.Sound PeerStore.reader "/data" := by
  constructor
  · intro store running
    exact Option.some.inj running ▸ Desk.truthful_iff.mpr (.inl rfl)
  · intro store held
    exact Option.some.inj held ▸ Desk.truthful_iff.mpr (.inl rfl)

theorem backed_desk_sound : backed_desk.Sound PeerStore.reader "/data" ∧
    ∃ store own, backed_desk.machine.running = some store ∧ store.own_identity = some own ∧
      Desk.Backed backed_desk.written own.public_key := by
  let named := new_desk.step clear_crypto PeerStore.reader "/data" first_identity
  have sound : named.Sound PeerStore.reader "/data" :=
    Desk.sound_step new_desk_sound first_identity trivial
  let store : PeerStore := { PeerStore.empty with
    own_identity := some (identity_of (FixedBytes.fill 32 1) true) }
  have on : named.machine.running = some store :=
    Desk.running_call (m := new_desk.machine) PeerStore.reader "/data" rfl
      ⟨.ensure "alice" "laptop" first_keys, 0o022#9, none⟩
  obtain ⟨envelope, made⟩ := exists_of_isOk (x := export_envelope clear_crypto store
    named.machine.keystore .all "correct horse battery" (FixedBytes.fill 24 7) "2026-04-17")
    (by decide +kernel)
  obtain ⟨saved, done, sound', written, running⟩ :=
    Desk.sound_saved 0o022#9 sound rfl on made
  have reached : backed_desk = saved := done
  have own := Desk.export_envelope_public made
  rw [reached, written]
  exact ⟨sound', _, _, running, rfl, envelope, List.mem_cons_self, (Option.some.inj own).symm⟩

/-- The backup is made once more. -/
theorem banner_truthful_of_backed_desk : (run (Desk.step clear_crypto PeerStore.reader "/data")
    backed_desk (export_with_dialog true)).BannerTruthful := by
  obtain ⟨sound, store, own, on, here, backed⟩ := backed_desk_sound
  apply (banner_truthful_iff clear_crypto PeerStore.reader "/data" backed_desk sound
    (export_with_dialog true)).mpr _ _ List.prefix_rfl
  refine ⟨?_, trivial, trivial⟩
  intro store' envelope running made
  obtain rfl := Option.some.inj (on.symm.trans running)
  have key := Desk.export_envelope_public made
  rw [PeerStore.own_public, here] at key
  exact Option.some.inj key ▸ backed

/-- The dialog after the first export is cancelled. -/
theorem banner_after_cancel : ¬ (run (Desk.step clear_crypto PeerStore.reader "/data") new_desk
    (first_identity :: export_with_dialog false)).BannerTruthful := by
  intro truthful
  obtain ⟨own, -, envelope, mem, -⟩ := truthful _ rfl rfl
  cases mem

end Qev.Desktop
