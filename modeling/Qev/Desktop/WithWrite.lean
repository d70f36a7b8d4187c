import Qev.Desktop.ChatFile
import Qev.Lib.Run
import Qev.Pairing.IdentityBackup
import Qev.Pairing.PeerFile

/-! The write-through state of the desktop (`PeerStoreState` and
`ChatStoreState`), the closures that the commands pass to it, and what a write
that fails leaves behind. -/

namespace Qev.Desktop

open Pairing

/-! ## `with_write` -/

/-- A store in memory, and the disk. -/
structure Held (σ : Type) where
  memory : σ
  fs : FileSystem Path

/-- Apply a closure to the store, then save the store. -/
def with_write {σ τ : Type} (f : σ → σ × Except String τ)
    (save : σ → FileSystem Path → FileSystem Path × Except String Unit) (s : Held σ) :
    Held σ × Except String τ :=
  match f s.memory with
  | (memory, .error e) => ({ s with memory }, .error e)
  | (memory, .ok result) =>
    match save memory s.fs with
    | (fs, .error e) => (⟨memory, fs⟩, .error e)
    | (fs, .ok ()) => (⟨memory, fs⟩, .ok result)

/-- The peer store with the keystore that its closures write to. -/
structure Device where
  store : PeerStore
  keystore : Keystore

/-- What a closure returns when it succeeds. -/
inductive Written where
  | keypair (kp : StaticKeypair)
  | unit
  | count (n : UInt32)

/-- The closures that the commands pass to the peer store. -/
inductive PeerWrite where
  | show_qr (name device : String) (out : Outside)
  | ensure (own_name own_device : String) (out : Outside)
  | upsert (stored : StoredPeer)
  | verify (peer_id : String)
  | unpair (peer_id : String)
  | record_backup (now_iso : String)
  | import_backup (payload : BackupPayload) (grant : Grant)

/-- An import: the payload is applied, and its secret goes to the keystore. -/
def Device.install (d : Device) (payload : BackupPayload) (grant : Grant) : Device where
  store := apply_backup d.store payload
  keystore := payload.own_identity.migrate_to_keystore d.keystore grant

def Device.ensure (d : Device) (name device : String) (out : Outside) :
    Device × Except String StaticKeypair :=
  let (store, keystore, result) := d.store.ensure_own_identity d.keystore name device out
  (⟨store, keystore⟩, result)

def PeerWrite.run (d : Device) : PeerWrite → Device × Except String Written
  | show_qr name device out =>
    match d.ensure name device out with
    | (d, .error e) => (d, .error e)
    | (d, .ok kp) =>
      ({ d with store := (d.store.set_own_name name).set_own_device device }, .ok (.keypair kp))
  | ensure own_name own_device out =>
    match d.ensure own_name own_device out with
    | (d, .error e) => (d, .error e)
    | (d, .ok kp) => (d, .ok (.keypair kp))
  | upsert stored => ({ d with store := (d.store.upsert_peer stored).1 }, .ok .unit)
  | verify peer_id =>
    match d.store.set_trust peer_id .Verified with
    | (store, true) => ({ d with store }, .ok .unit)
    | (store, false) => ({ d with store }, .error ("peer not found: " ++ peer_id))
  | unpair peer_id =>
    match d.store.remove peer_id with
    | (store, true) => ({ d with store }, .ok .unit)
    | (store, false) => ({ d with store }, .error ("peer not found: " ++ peer_id))
  | record_backup now_iso =>
    ({ d with store := { d.store with last_backup_at := some now_iso } }, .ok .unit)
  | import_backup payload grant =>
    (d.install payload grant, .ok (.count (UInt32.ofNat payload.peers.length)))

/-- The closures that the commands pass to the chat store. -/
inductive ChatWrite where
  | add_message (peer_id : String) (msg : ChatMessage)
  | update_status (peer_id msg_id status : String)
  | mark_all_read (peer_id : String)

def ChatWrite.run (s : ChatStore) : ChatWrite → ChatStore × Except String Written
  | add_message peer_id msg => (s.add_message peer_id msg, .ok .unit)
  | update_status peer_id msg_id status => ((s.update_status peer_id msg_id status).1, .ok .unit)
  | mark_all_read peer_id => (s.mark_all_read peer_id, .ok .unit)

/-- One call on the peer store; `stop` is the system call of the save that
fails, if one does. -/
structure PeerStoreCall where
  write : PeerWrite
  umask : Mode
  stop : Option Nat

structure ChatStoreCall where
  write : ChatWrite
  umask : Mode
  chmod : Bool
  stop : Option Nat

def PeerStoreState.with_write (app_data_dir : String) (s : Held Device) (call : PeerStoreCall) :
    Held Device × Except String Written :=
  Desktop.with_write (call.write.run ·)
    (fun d fs => d.store.save call.umask fs (store_path app_data_dir) call.stop) s

def ChatStoreState.with_write (app_data_dir : String) (s : Held ChatStore) (call : ChatStoreCall) :
    Held ChatStore × Except String Written :=
  Desktop.with_write (call.write.run ·)
    (fun store fs => store.save call.umask fs (chat_store_path app_data_dir) call.chmod call.stop) s

/-! ## What a closure that fails leaves behind -/

theorem Device.ensure_error {d : Device} {name device e : String} {out : Outside}
    (h : (d.ensure name device out).2 = .error e) : (d.ensure name device out).1 = d := by
  unfold ensure PeerStore.ensure_own_identity at h ⊢
  cases own : d.store.own_identity with
  | some id => rfl
  | none =>
    cases made : out.generate with
    | error e' => rfl
    | ok kp =>
      simp only [own, made] at h
      cases h

theorem PeerWrite.run_ensure (d : Device) (own_name own_device : String) (out : Outside) :
    (ensure own_name own_device out).run d =
      ((d.ensure own_name own_device out).1,
        (d.ensure own_name own_device out).2.map .keypair) := by
  simp only [run]
  split
  · rename_i d' e ensured
    rw [ensured]
    rfl
  · rename_i d' kp ensured
    rw [ensured]
    rfl

/-- The labels are set where there is an identity. -/
theorem PeerWrite.run_show_qr (d : Device) (name device : String) (out : Outside) :
    (∃ e, (d.ensure name device out).2 = .error e ∧
      (show_qr name device out).run d = (d, .error e)) ∨
    ∃ kp, (d.ensure name device out).2 = .ok kp ∧ (show_qr name device out).run d =
      ({ (d.ensure name device out).1 with
          store := ((d.ensure name device out).1.store.set_own_name name).set_own_device device },
        .ok (.keypair kp)) := by
  simp only [run]
  split
  · rename_i d' e ensured
    left
    have kept := Device.ensure_error (congrArg Prod.snd ensured)
    rw [ensured] at kept ⊢
    obtain rfl : d' = d := kept
    exact ⟨e, rfl, rfl⟩
  · rename_i d' kp ensured
    right
    rw [ensured]
    exact ⟨kp, rfl, rfl⟩

theorem PeerWrite.run_verify (d : Device) (peer_id : String) : (verify peer_id).run d =
    ({ d with store := (d.store.set_trust peer_id .Verified).1 },
      if (d.store.find peer_id).isSome then .ok .unit
      else .error ("peer not found: " ++ peer_id)) := by
  have found : (d.store.set_trust peer_id .Verified).2 = (d.store.find peer_id).isSome := rfl
  simp only [run]
  split
  · rename_i store set
    rw [← found, set]
    rfl
  · rename_i store set
    rw [← found, set]
    rfl

theorem PeerWrite.run_unpair (d : Device) (peer_id : String) : (unpair peer_id).run d =
    ({ d with store := (d.store.remove peer_id).1 },
      if (d.store.remove peer_id).2 then .ok .unit
      else .error ("peer not found: " ++ peer_id)) := by
  simp only [run]
  split
  · rename_i store removed
    rw [removed]
    rfl
  · rename_i store removed
    rw [removed]
    rfl

/-- No closure of a command changes its store and then fails. -/
theorem PeerWrite.run_error {d : Device} {w : PeerWrite} {e : String}
    (h : (w.run d).2 = .error e) : (w.run d).1 = d := by
  cases w with
  | show_qr name device out =>
    rcases run_show_qr d name device out with ⟨e', -, same⟩ | ⟨kp, -, made⟩
    · rw [same]
    · rw [made] at h
      cases h
  | ensure own_name own_device out =>
    rw [run_ensure] at h ⊢
    cases ensured : (d.ensure own_name own_device out).2 with
    | error e' => exact Device.ensure_error ensured
    | ok kp =>
      rw [ensured] at h
      cases h
  | upsert stored => cases h
  | verify peer_id =>
    rw [run_verify] at h ⊢
    by_cases found : (d.store.find peer_id).isSome = true
    · rw [if_pos found] at h
      cases h
    · rw [PeerStore.set_trust_not_found (Bool.not_eq_true _ ▸ found)]
  | unpair peer_id =>
    rw [run_unpair] at h ⊢
    by_cases found : (d.store.remove peer_id).2 = true
    · rw [if_pos found] at h
      cases h
    · rw [PeerStore.remove_not_found (Bool.not_eq_true _ ▸ found)]
  | record_backup now_iso => cases h
  | import_backup payload grant => cases h

theorem ChatWrite.run_ok (s : ChatStore) (w : ChatWrite) : ∃ r, (w.run s).2 = .ok r := by
  cases w with
  | add_message peer_id msg => exact ⟨_, rfl⟩
  | update_status peer_id msg_id status => exact ⟨_, rfl⟩
  | mark_all_read peer_id => exact ⟨_, rfl⟩

/-! ## What a write that fails leaves behind -/

section Atomic

variable {σ τ α : Type} {f : σ → σ × Except String τ}
  {save : σ → FileSystem Path → FileSystem Path × Except String Unit} {s : Held σ}

/-- Where the call returned an error, the store in memory, seen through `view`,
and its file are as they were. -/
def Atomic (view : σ → α) (path : Path) (s : Held σ) (called : Held σ × Except String τ) : Prop :=
  (∃ e, called.2 = .error e) →
    view called.1.memory = view s.memory ∧ called.1.fs path = s.fs path

/-- A write fails in the closure, or in the save after it. -/
theorem with_write_error_iff : (∃ e, (with_write f save s).2 = .error e) ↔
    (∃ e, (f s.memory).2 = .error e) ∨
      (∃ r, (f s.memory).2 = .ok r) ∧ ∃ e, (save (f s.memory).1 s.fs).2 = .error e := by
  unfold with_write
  cases applied : f s.memory with
  | mk memory result =>
    cases result with
    | error e => simp
    | ok r =>
      cases saved : save memory s.fs with
      | mk fs outcome =>
        cases outcome with
        | error e => simp [saved]
        | ok u => simp [saved]

theorem with_write_eq_ok {r : τ} : (with_write f save s).2 = .ok r ↔
    (f s.memory).2 = .ok r ∧ (save (f s.memory).1 s.fs).2 = .ok () := by
  unfold with_write
  cases applied : f s.memory with
  | mk memory result =>
    cases result with
    | error e => simp
    | ok r' =>
      cases saved : save memory s.fs with
      | mk fs outcome =>
        cases outcome with
        | error e => simp [saved]
        | ok u => simp [saved]

theorem with_write_of_error {e : String} (h : (f s.memory).2 = .error e) :
    (with_write f save s).1 = { s with memory := (f s.memory).1 } := by
  unfold with_write
  cases applied : f s.memory with
  | mk memory result =>
    rw [applied] at h
    cases h
    rfl

theorem with_write_of_ok {r : τ} (h : (f s.memory).2 = .ok r) :
    (with_write f save s).1 = ⟨(f s.memory).1, (save (f s.memory).1 s.fs).1⟩ := by
  unfold with_write
  cases applied : f s.memory with
  | mk memory result =>
    rw [applied] at h
    cases h
    cases saved : save memory s.fs with
    | mk fs outcome => cases outcome <;> simp [saved]

/-- A call on a store is atomic but for one case: the closure changes the store
and then the save fails. -/
theorem atomic_iff (view : σ → α) (path : Path)
    (closure_keeps : ∀ e, (f s.memory).2 = .error e → view (f s.memory).1 = view s.memory)
    (save_keeps : ∀ e, (save (f s.memory).1 s.fs).2 = .error e →
      (save (f s.memory).1 s.fs).1 path = s.fs path) :
    Atomic view path s (with_write f save s) ↔ ¬ ((∃ r, (f s.memory).2 = .ok r) ∧
      view (f s.memory).1 ≠ view s.memory ∧ ∃ e, (save (f s.memory).1 s.fs).2 = .error e) := by
  constructor
  · rintro atomic ⟨⟨r, succeeded⟩, changed, failed⟩
    have kept := (atomic (with_write_error_iff.mpr (.inr ⟨⟨r, succeeded⟩, failed⟩))).1
    rw [with_write_of_ok succeeded] at kept
    exact changed kept
  · intro harmless error
    rcases with_write_error_iff.mp error with ⟨e, refused⟩ | ⟨⟨r, succeeded⟩, e, failed⟩
    · rw [with_write_of_error refused]
      exact ⟨closure_keeps e refused, rfl⟩
    · rw [with_write_of_ok succeeded]
      constructor
      · by_contra changed
        exact harmless ⟨⟨r, succeeded⟩, changed, e, failed⟩
      · exact save_keeps e failed

end Atomic

def PeerStoreState.step (app_data_dir : String) (s : Held Device) (call : PeerStoreCall) :
    Held Device :=
  (PeerStoreState.with_write app_data_dir s call).1

def ChatStoreState.step (app_data_dir : String) (s : Held ChatStore) (call : ChatStoreCall) :
    Held ChatStore :=
  (ChatStoreState.with_write app_data_dir s call).1

/-- The closure fails, or leaves the store as it is, or no call of the save fails. -/
def PeerStoreState.Meets (app_data_dir : String) (s : Held Device) (call : PeerStoreCall) : Prop :=
  ¬ ((∃ r, (call.write.run s.memory).2 = .ok r) ∧
    (call.write.run s.memory).1.store ≠ s.memory.store ∧
    (call.write.run s.memory).1.store.SaveFails (store_path app_data_dir) call.stop)

def ChatStoreState.Meets (app_data_dir : String) (s : Held ChatStore) (call : ChatStoreCall) :
    Prop :=
  ¬ ((call.write.run s.memory).1 ≠ s.memory ∧
    (call.write.run s.memory).1.SaveFails (chat_store_path app_data_dir) call.chmod call.stop)

theorem PeerStoreState.atomic_iff (app_data_dir : String) (s : Held Device)
    (call : PeerStoreCall) :
    Atomic Device.store (store_path app_data_dir) s (with_write app_data_dir s call) ↔
      Meets app_data_dir s call := by
  rw [with_write, Desktop.atomic_iff, Meets]
  · simp only [PeerStore.save_fails]
  · intro e refused
    rw [PeerWrite.run_error refused]
  · intro e failed
    exact PeerStore.save_error failed

theorem ChatStoreState.atomic_iff (app_data_dir : String) (s : Held ChatStore)
    (call : ChatStoreCall) :
    Atomic id (chat_store_path app_data_dir) s (with_write app_data_dir s call) ↔
      Meets app_data_dir s call := by
  have succeeds := call.write.run_ok s.memory
  rw [with_write, Desktop.atomic_iff, Meets]
  · simp only [ChatStore.save_fails, succeeds, true_and, id]
  · intro e refused
    obtain ⟨r, succeeded⟩ := succeeds
    rw [succeeded] at refused
    cases refused
  · intro e failed
    exact ChatStore.save_error failed

/-- For both stores, and from any state: every call of a run is atomic if and
only if in none of them a save fails after the closure changed the store. -/
theorem with_write_atomic_iff (app_data_dir : String) :
    (∀ (s : Held Device) (calls : List PeerStoreCall),
      (∀ before call, before ++ [call] <+: calls →
        Atomic Device.store (store_path app_data_dir)
          (run (PeerStoreState.step app_data_dir) s before)
          (PeerStoreState.with_write app_data_dir
            (run (PeerStoreState.step app_data_dir) s before) call)) ↔
      Run.Along (PeerStoreState.step app_data_dir) (PeerStoreState.Meets app_data_dir) s calls) ∧
    ∀ (s : Held ChatStore) (calls : List ChatStoreCall),
      (∀ before call, before ++ [call] <+: calls →
        Atomic id (chat_store_path app_data_dir)
          (run (ChatStoreState.step app_data_dir) s before)
          (ChatStoreState.with_write app_data_dir
            (run (ChatStoreState.step app_data_dir) s before) call)) ↔
      Run.Along (ChatStoreState.step app_data_dir) (ChatStoreState.Meets app_data_dir) s calls := by
  simp only [PeerStoreState.atomic_iff, ChatStoreState.atomic_iff, Run.along_iff, implies_true,
    and_self]

/-- A new installation, on a system without a keystore. -/
def fresh : Held Device := ⟨⟨.empty, ⟨false, none⟩⟩, fun _ => none⟩

/-- The first pairing of an installation whose directory cannot be made. -/
def first_pairing : PeerStoreCall where
  write := .show_qr "alice" "laptop"
    ⟨.ok ⟨FixedBytes.fill 32 1, FixedBytes.fill 32 2⟩, "2026-04-15T23:59:59Z", .all⟩
  umask := 0o022#9
  stop := some 0

theorem first_pairing_not_atomic : ¬ Atomic Device.store (store_path "/data") fresh
    (PeerStoreState.with_write "/data" fresh first_pairing) := by
  intro atomic
  have kept := (atomic ⟨"io", rfl⟩).1
  cases congrArg (fun s => s.own_identity.isSome) kept

end Qev.Desktop
