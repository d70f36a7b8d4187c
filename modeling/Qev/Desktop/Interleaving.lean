import Qev.Desktop.WithWrite
import Qev.Lib.WriteThrough

/-! Concurrent calls of `with_write`: between the closure and the save of a call
the store is unlocked, and any other call may take its steps. -/

namespace Qev.Desktop

open Pairing (Keystore Loading PeerStore store_path STORE_SCHEMA)

/-- The saves succeed. -/
def PeerStoreState.shared (app_data_dir : String) (umask : Mode) :
    WriteThrough Device (FileSystem Path) PeerWrite where
  apply d w := ((w.run d).1, (w.run d).2.isOk)
  save d fs := (d.store.save umask fs (store_path app_data_dir) none).1

def ChatStoreState.shared (app_data_dir : String) (umask : Mode) (chmod : Bool) :
    WriteThrough ChatStore (FileSystem Path) ChatWrite where
  apply s w := ((w.run s).1, (w.run s).2.isOk)
  save s fs := (s.save umask fs (chat_store_path app_data_dir) chmod none).1

/-- A call that runs by itself takes its two steps one after the other. -/
theorem with_write_alone {σ τ ω : Type} {W : WriteThrough σ (FileSystem Path) ω}
    {f : σ → σ × Except String τ}
    {save : σ → FileSystem Path → FileSystem Path × Except String Unit} {s : Held σ} {w : ω}
    (applies : W.apply s.memory w = ((f s.memory).1, (f s.memory).2.isOk))
    (saves : ∀ memory fs, W.save memory fs = (save memory fs).1) :
    (with_write f save s).1 =
      ⟨(run W.step (.quiet s.memory s.fs) [.first w, .second 0]).memory,
        (run W.step (.quiet s.memory s.fs) [.first w, .second 0]).disk⟩ := by
  cases result : (f s.memory).2 with
  | error e =>
    have refused : (f s.memory).2.isOk = false := by
      rw [result]
      rfl
    rw [with_write_of_error result]
    simp [WriteThrough.step, WriteThrough.State.quiet, applies, refused]
  | ok r =>
    have accepted : (f s.memory).2.isOk = true := by
      rw [result]
      rfl
    rw [with_write_of_ok result]
    simp [WriteThrough.step, WriteThrough.State.quiet, applies, accepted, saves]

theorem PeerStoreState.with_write_eq_run (app_data_dir : String) (umask : Mode) (s : Held Device)
    (w : PeerWrite) : (with_write app_data_dir s ⟨w, umask, none⟩).1 =
      ⟨(run (shared app_data_dir umask).step (.quiet s.memory s.fs) [.first w, .second 0]).memory,
        (run (shared app_data_dir umask).step (.quiet s.memory s.fs)
          [.first w, .second 0]).disk⟩ := by
  rw [with_write]
  apply with_write_alone
  · rfl
  · intro memory fs
    rfl

theorem ChatStoreState.with_write_eq_run (app_data_dir : String) (umask : Mode) (chmod : Bool)
    (s : Held ChatStore) (w : ChatWrite) :
    (with_write app_data_dir s ⟨w, umask, chmod, none⟩).1 =
      ⟨(run (shared app_data_dir umask chmod).step (.quiet s.memory s.fs)
          [.first w, .second 0]).memory,
        (run (shared app_data_dir umask chmod).step (.quiet s.memory s.fs)
          [.first w, .second 0]).disk⟩ := by
  rw [with_write]
  apply with_write_alone
  · rfl
  · intro memory fs
    rw [shared]

/-- The file holds the peer store that is in memory. -/
def PeerStoreState.Image (reader : Reader PeerStore.to_value) (app_data_dir : String) (d : Device)
    (fs : FileSystem Path) : Prop :=
  PeerStore.stored reader fs (store_path app_data_dir) = some d.store

/-- A load of the file returns the chat store that is in memory. -/
def ChatStoreState.Image (reader : Reader ChatFile.to_value) (app_data_dir : String)
    (s : ChatStore) (fs : FileSystem Path) : Prop :=
  ChatStore.load_or_empty reader fs (chat_store_path app_data_dir) true = .ok s

theorem Device.ensure_schema (d : Device) (name device : String) (out : Pairing.Outside) :
    (d.ensure name device out).1.store.schema = d.store.schema := by
  change (d.store.ensure_own_identity d.keystore name device out).1.schema = _
  rcases d.store.ensure_own_identity_eq d.keystore name device out with same | ⟨-, kp, -, made⟩
  · rw [same]
  · rw [made]

theorem PeerWrite.run_schema (d : Device) (w : PeerWrite) :
    (w.run d).1.store.schema = d.store.schema := by
  cases w with
  | show_qr name device out =>
    rcases run_show_qr d name device out with ⟨e, -, same⟩ | ⟨kp, -, made⟩
    · rw [same]
    · rw [made]
      exact d.ensure_schema name device out
  | ensure own_name own_device out =>
    rw [run_ensure]
    exact d.ensure_schema own_name own_device out
  | upsert stored => rfl
  | verify peer_id => rw [run_verify]; rfl
  | unpair peer_id => rw [run_unpair]; rfl
  | record_backup now_iso => rfl
  | import_backup payload grant =>
    simp only [run, Device.install, Pairing.apply_backup_eq]

theorem PeerStoreState.faithful (reader : Reader PeerStore.to_value) (app_data_dir : String)
    (umask : Mode) : (shared app_data_dir umask).Faithful
      (fun d => d.store.schema = STORE_SCHEMA) (Image reader app_data_dir) where
  apply_valid d w valid := (w.run_schema d).trans valid
  saves _ _ valid := PeerStore.stored_of_save_ok (PeerStore.save_none valid)
  failing d w failed := by
    cases result : (w.run d).2 with
    | error e => exact PeerWrite.run_error result
    | ok r =>
      simp only [shared, result] at failed
      cases failed

theorem ChatStoreState.faithful (reader : Reader ChatFile.to_value) (app_data_dir : String)
    (umask : Mode) (chmod : Bool) : (shared app_data_dir umask chmod).Faithful
      (fun _ => True) (Image reader app_data_dir) where
  apply_valid _ _ _ := trivial
  saves s fs _ := by
    have succeeds : (s.save umask fs (chat_store_path app_data_dir) chmod none).2 = .ok () := rfl
    obtain ⟨mode, placed⟩ := ChatStore.save_ok succeeds
    simp only [Image, shared, ChatStore.load_or_empty, if_true, placed, ChatStore.to_json,
      reader.from_slice_to_vec_pretty, ne_eq, not_true_eq_false, if_false]
  failing s w failed := by
    obtain ⟨r, succeeds⟩ := w.run_ok s
    simp only [shared, succeeds] at failed
    cases failed

/-- Both stores, from the state that a start of the application leaves, over
every interleaving of any number of calls. -/
theorem with_write_keeps_all (peers : Reader PeerStore.to_value) (chats : Reader ChatFile.to_value)
    (app_data_dir : String) (umask : Mode) (chmod : Bool) (fs fs' : FileSystem Path)
    (ks ks' : Keystore) (at_ : Loading) (store : PeerStore) (history : ChatStore)
    (saves : at_.resave = none)
    (loaded : PeerStore.load_or_empty peers fs (store_path app_data_dir) ks at_ =
      (fs', ks', .ok store))
    (chat_loaded : ChatStore.load_or_empty chats fs (chat_store_path app_data_dir) true =
      .ok history) :
    (∀ events, (PeerStoreState.shared app_data_dir umask).KeepsAll
      (PeerStoreState.Image peers app_data_dir) ⟨store, ks'⟩ fs' events) ∧
    ∀ events, (ChatStoreState.shared app_data_dir umask chmod).KeepsAll
      (ChatStoreState.Image chats app_data_dir) history fs events := by
  obtain ⟨valid, held⟩ := PeerStore.stored_of_load loaded saves
  constructor
  · exact WriteThrough.keeps_all (PeerStoreState.faithful peers app_data_dir umask) valid held
  · exact WriteThrough.keeps_all (ChatStoreState.faithful chats app_data_dir umask chmod) trivial
      chat_loaded

/-- A new installation. -/
theorem with_write_keeps_all_of_new :
    (∀ events, (PeerStoreState.shared "/data" 0o022#9).KeepsAll
      (PeerStoreState.Image PeerStore.reader "/data") ⟨.empty, ⟨false, none⟩⟩ (fun _ => none)
      events) ∧
    ∀ events, (ChatStoreState.shared "/data" 0o022#9 true).KeepsAll
      (ChatStoreState.Image ChatFile.reader "/data") .empty (fun _ => none) events :=
  with_write_keeps_all _ _ _ _ _ (fun _ => none) _ ⟨false, none⟩ _
    ⟨true, .all, .all, 0o022#9, none⟩ _ _ rfl rfl rfl

end Qev.Desktop
