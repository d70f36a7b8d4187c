import Qev.Pairing.PeerStore

/-! The file of the peer store: `load_or_empty` and `save`, and what stands on
the disk at every moment of a save. -/

namespace Qev.Pairing

open Desktop (Value Reader base64 utf8)

def store_path (app_data_dir : String) : Path := ⟨app_data_dir, "peers", "json"⟩

/-- What a start of the application meets: whether the file can be read, what
the system lets it do with the keystore, and where the save of a recovered
secret fails, if it does. -/
structure Loading where
  readable : Bool
  migrate : Grant
  recover : Grant
  umask : Mode
  resave : Option Nat

namespace PeerStore

def to_json (s : PeerStore) : Bytes := s.to_value.to_vec_pretty

def save_ops (s : PeerStore) (path : Path) : List (FsOp Path) :=
  FileSystem.replace (path.with_extension "json.tmp") path s.to_json (some 0o600#9)

/-- `stop` is the number of the call that fails, if one does. -/
def save (s : PeerStore) (umask : Mode) (fs : FileSystem Path) (path : Path) (stop : Option Nat) :
    FileSystem Path × Except String Unit :=
  match s.validate with
  | .error e => (fs, .error e)
  | .ok () => FileSystem.attempt umask (fun _ => "io") fs (s.save_ops path) stop

/-- The two repairs of a load: a copy of the secret goes to the keystore, or
comes back from it and the store is saved, whatever becomes of that. -/
def repair (s : PeerStore) (own : OwnIdentity) (fs : FileSystem Path) (path : Path) (ks : Keystore)
    (at_ : Loading) : FileSystem Path × Keystore × PeerStore :=
  let ks := own.migrate_to_keystore ks at_.migrate
  let (own, recovered) := own.recover_secret_from_keystore ks at_.recover
  let s := { s with own_identity := some own }
  (if recovered then (s.save at_.umask fs path at_.resave).1 else fs, ks, s)

def load_or_empty (reader : Reader to_value) (fs : FileSystem Path) (path : Path) (ks : Keystore)
    (at_ : Loading) : FileSystem Path × Keystore × Except String PeerStore :=
  if at_.readable then
    match fs path with
    | none => (fs, ks, .ok empty)
    | some file =>
      match reader.from_slice file.content with
      | none => (fs, ks, .error "internal bug: store decode")
      | some s =>
        match s.validate, s.own_identity with
        | .error e, _ => (fs, ks, .error e)
        | .ok (), none => (fs, ks, .ok s)
        | .ok (), some own =>
          let (fs, ks, s) := s.repair own fs path ks at_
          (fs, ks, .ok s)
  else (fs, ks, .error "io")

variable {s : PeerStore} {umask : Mode} {fs : FileSystem Path} {path : Path} {stop : Option Nat}
  {app_data_dir : String}

@[simp] theorem validate_eq_ok : s.validate = .ok () ↔ s.schema = STORE_SCHEMA := by
  unfold validate
  by_cases same : s.schema = STORE_SCHEMA
  · simp [same]
  · simp [same]

theorem validate_of_ne (other : s.schema ≠ STORE_SCHEMA) : s.validate =
    .error ("internal bug: unsupported store schema: " ++ s.schema ++ " (expected " ++
      STORE_SCHEMA ++ ")") :=
  if_pos other

theorem tmp_ne : (store_path app_data_dir).with_extension "json.tmp" ≠ store_path app_data_dir :=
  Path.with_extension_ne (show "json" ≠ "json.tmp" by decide)

/-- A save that returns `Ok` has put all of the store into its file. -/
theorem save_ok (h : (s.save umask fs path stop).2 = .ok ()) :
    (s.save umask fs path stop).1 path = some ⟨s.to_json, 0o600#9⟩ := by
  unfold save at h ⊢
  cases valid : s.validate with
  | error e =>
    rw [valid] at h
    cases h
  | ok u =>
    rw [valid] at h
    exact FileSystem.attempt_ok h

/-- One that returns an error has left the file as it was. -/
theorem save_error {e : String}
    (h : (s.save umask fs (store_path app_data_dir) stop).2 = .error e) :
    (s.save umask fs (store_path app_data_dir) stop).1 (store_path app_data_dir) =
      fs (store_path app_data_dir) := by
  unfold save at h ⊢
  cases valid : s.validate with
  | error e' => rfl
  | ok u =>
    rw [valid] at h
    exact FileSystem.attempt_error tmp_ne h

/-- Whatever becomes of a save, other files are as they were. -/
theorem save_elsewhere {elsewhere : Path} (beside : elsewhere ≠ path.with_extension "json.tmp")
    (other : elsewhere ≠ path) : (s.save umask fs path stop).1 elsewhere = fs elsewhere := by
  unfold save
  cases s.validate with
  | error e => rfl
  | ok u => exact FileSystem.attempt_elsewhere beside other

/-- A save fails on a store of another schema, and where a system call fails. -/
def SaveFails (s : PeerStore) (path : Path) (stop : Option Nat) : Prop :=
  s.schema ≠ STORE_SCHEMA ∨ ∃ n, stop = some n ∧ n < (s.save_ops path).length

theorem save_fails : (∃ e, (s.save umask fs path stop).2 = .error e) ↔ s.SaveFails path stop := by
  by_cases valid : s.schema = STORE_SCHEMA
  · have run : s.save umask fs path stop =
        FileSystem.attempt umask (fun _ => "io") fs (s.save_ops path) stop := by
      rw [save, validate_eq_ok.mpr valid]
    rw [run, FileSystem.attempt_fails, SaveFails]
    simp [valid]
  · rw [save, validate_of_ne valid]
    exact ⟨fun _ => .inl valid, fun _ => ⟨_, rfl⟩⟩

theorem save_succeeds : (s.save umask fs path stop).2 = .ok () ↔ ¬ s.SaveFails path stop := by
  rw [← @save_fails s umask fs path stop]
  cases (s.save umask fs path stop).2 with
  | ok u => simp
  | error e => simp

theorem save_none (valid : s.schema = STORE_SCHEMA) : (s.save umask fs path none).2 = .ok () := by
  cases saved : (s.save umask fs path none).2 with
  | ok u => rfl
  | error e =>
    rcases save_fails.mp ⟨e, saved⟩ with other | ⟨n, none, -⟩
    · exact absurd valid other
    · cases none

/-! ## Loading -/

/-- The store that the file holds. -/
def stored (reader : Reader to_value) (fs : FileSystem Path) (path : Path) : Option PeerStore :=
  match fs path with
  | none => some empty
  | some file => reader.from_slice file.content

variable {reader : Reader to_value} {ks ks' : Keystore} {at_ : Loading} {fs' : FileSystem Path}

theorem stored_of_save_ok (h : (s.save umask fs path stop).2 = .ok ()) :
    stored reader (s.save umask fs path stop).1 path = some s := by
  rw [stored, save_ok h]
  exact reader.from_slice_to_vec_pretty s

theorem stored_congr {fs' : FileSystem Path} (same : fs' path = fs path) :
    stored reader fs' path = stored reader fs path := by
  rw [stored, same, stored]

/-- A load ends with what the file holds, repaired where there is an identity. -/
theorem load_eq_ok (h : load_or_empty reader fs path ks at_ = (fs', ks', .ok s)) :
    ∃ s₀, stored reader fs path = some s₀ ∧ s₀.schema = STORE_SCHEMA ∧
      (s₀.own_identity = none ∧ fs' = fs ∧ ks' = ks ∧ s = s₀ ∨
        ∃ own, s₀.own_identity = some own ∧ (fs', ks', s) = s₀.repair own fs path ks at_) := by
  unfold load_or_empty at h
  split at h
  · split at h
    · rename_i absent
      cases h
      exact ⟨empty, by rw [stored, absent], rfl, .inl ⟨rfl, rfl, rfl, rfl⟩⟩
    · rename_i file there
      split at h
      · cases h
      · rename_i s₀ read
        have held : stored reader fs path = some s₀ := by
          rw [stored, there]
          exact read
        split at h
        · cases h
        · rename_i valid own
          cases h
          exact ⟨s, held, validate_eq_ok.mp valid, .inl ⟨own, rfl, rfl, rfl⟩⟩
        · rename_i id valid own
          cases h
          exact ⟨s₀, held, validate_eq_ok.mp valid, .inr ⟨id, own, rfl⟩⟩
  · cases h

/-- A load that fails has changed nothing. -/
theorem load_eq_error {e : String}
    (h : load_or_empty reader fs path ks at_ = (fs', ks', .error e)) : fs' = fs ∧ ks' = ks := by
  unfold load_or_empty at h
  split at h
  · split at h
    · cases h
    · split at h
      · cases h
        exact ⟨rfl, rfl⟩
      · split at h
        · cases h
          exact ⟨rfl, rfl⟩
        · cases h
        · cases h
  · cases h
    exact ⟨rfl, rfl⟩

theorem repair_of_secret {own : OwnIdentity} (here : s.own_identity = some own)
    (secret : own.secret ≠ "") : s.repair own fs path ks at_ =
      (fs, own.migrate_to_keystore ks at_.migrate, s) := by
  rw [repair, OwnIdentity.recover_of_secret secret]
  simp [← here]

/-- A record without its secret stays as it is, or gets the keystore's. -/
theorem repair_of_empty (fs : FileSystem Path) (path : Path) (ks : Keystore) (at_ : Loading)
    {own : OwnIdentity} (here : s.own_identity = some own) (empty : own.secret = "") :
    s.repair own fs path ks at_ = (fs, ks, s) ∨
      ∃ secret : FixedBytes 32, ks.load_secret at_.recover = .ok (some secret) ∧
        s.repair own fs path ks at_ =
          (({ s with own_identity := some { own with secret := base64 secret.val } }.save
              at_.umask fs path at_.resave).1, ks,
            { s with own_identity := some { own with secret := base64 secret.val } }) := by
  rw [repair, OwnIdentity.migrate_of_empty empty]
  rcases own.recover_eq empty ks at_.recover with none | ⟨secret, loaded, recovered⟩
  · left
    rw [none]
    simp [← here]
  · right
    rw [recovered]
    exact ⟨secret, loaded, rfl⟩

/-- After a load whose saves succeed, the file holds the store in memory. -/
theorem stored_of_load (h : load_or_empty reader fs path ks at_ = (fs', ks', .ok s))
    (saves : at_.resave = none) :
    s.schema = STORE_SCHEMA ∧ stored reader fs' path = some s := by
  obtain ⟨s₀, held, valid, ⟨own, rfl, rfl, rfl⟩ | ⟨own, here, repaired⟩⟩ := load_eq_ok h
  · exact ⟨valid, held⟩
  · by_cases empty : own.secret = ""
    · rcases repair_of_empty fs path ks at_ here empty with same | ⟨secret, -, recovered⟩
      · rw [same] at repaired
        cases repaired
        exact ⟨valid, held⟩
      · rw [recovered, saves] at repaired
        cases repaired
        exact ⟨valid, stored_of_save_ok (save_none valid)⟩
    · rw [repair_of_secret here empty] at repaired
      cases repaired
      exact ⟨valid, held⟩

/-- A load keeps all but the own identity's secret, in memory and in the file. -/
theorem load_keeps
    (h : load_or_empty reader fs (store_path app_data_dir) ks at_ = (fs', ks', .ok s)) :
    ∃ s₀, stored reader fs (store_path app_data_dir) = some s₀ ∧ s.own_public = s₀.own_public ∧
      s.last_backup_at = s₀.last_backup_at ∧ s.peers = s₀.peers ∧
      (stored reader fs' (store_path app_data_dir) = some s₀ ∨
        stored reader fs' (store_path app_data_dir) = some s) := by
  obtain ⟨s₀, held, -, ⟨own, rfl, rfl, rfl⟩ | ⟨own, here, repaired⟩⟩ := load_eq_ok h
  · exact ⟨s, held, rfl, rfl, rfl, .inl held⟩
  · refine ⟨s₀, held, ?_⟩
    by_cases empty : own.secret = ""
    · rcases repair_of_empty fs (store_path app_data_dir) ks at_ here empty with
        same | ⟨secret, -, recovered⟩
      · rw [same] at repaired
        cases repaired
        exact ⟨rfl, rfl, rfl, .inl held⟩
      · rw [recovered] at repaired
        cases repaired
        refine ⟨?_, rfl, rfl, ?_⟩
        · rw [own_public, own_public, here]
          rfl
        · cases saved :
            ({ s₀ with own_identity := some { own with secret := base64 secret.val } }.save
              at_.umask fs (store_path app_data_dir) at_.resave).2 with
          | ok u => exact .inr (stored_of_save_ok saved)
          | error e => exact .inl ((stored_congr (save_error saved)).trans held)
    · rw [repair_of_secret here empty] at repaired
      cases repaired
      exact ⟨rfl, rfl, rfl, .inl held⟩

/-! ## The private scalar on the disk -/

/-- The text of the scalar, where the own identity has one in its record. -/
def Scalar (s : PeerStore) (text : String) : Prop :=
  ∃ own, s.own_identity = some own ∧ ∃ secret : FixedBytes 32, own.secret = base64 secret.val ∧
    text = own.secret

/-- Some file has the scalar of `s` in it and is open to others than its owner. -/
def Exposed (s : PeerStore) (fs : FileSystem Path) : Prop :=
  ∃ text, s.Scalar text ∧ ∃ path file, fs path = some file ∧ utf8 text <:+: file.content ∧
    ¬ file.mode.Private

/-- The disk after `n` system calls of a save. -/
def disk (s : PeerStore) (umask : Mode) (fs : FileSystem Path) (path : Path) (n : Nat) :
    FileSystem Path :=
  if s.schema = STORE_SCHEMA then FileSystem.run umask fs ((s.save_ops path).take n) else fs

theorem Scalar.ne_nil {text : String} (scalar : s.Scalar text) : utf8 text ≠ [] := by
  obtain ⟨own, -, secret, here, rfl⟩ := scalar
  intro h
  have long := Utf8.length_le_encode own.secret.toList
  rw [utf8] at h
  rw [h, List.length_nil, Nat.le_zero, List.length_eq_zero_iff, String.toList_eq_nil_iff] at long
  exact OwnIdentity.base64_ne_empty secret (here ▸ long)

theorem escape_char64 {n : Nat} (h : n < 64) :
    Value.escape (Base64.char64 n) = [Base64.char64 n] := by
  interval_cases n <;> decide

/-- Base64 text stands in a JSON string as it is. -/
theorem quote_base64 (bytes : Bytes) :
    Value.quote (base64 bytes) = '"' :: (base64 bytes).toList ++ ['"'] := by
  have plain : (Base64.encode bytes).flatMap Value.escape = Base64.encode bytes := by
    have units (cs : List Char) (each : ∀ c ∈ cs, Value.escape c = [c]) :
        cs.flatMap Value.escape = cs := by
      induction cs with
      | nil => rfl
      | cons c cs ih =>
        rw [List.flatMap_cons, each c List.mem_cons_self, ih fun d mem => each d
          (List.mem_cons_of_mem _ mem), List.singleton_append]
    apply units
    intro c mem
    obtain ⟨n, here, rfl⟩ := List.mem_map.mp mem
    exact escape_char64 (Base64.sextets_lt bytes n here)
  rw [Value.quote, base64, String.toList_ofList, plain]

/-- The JSON text of a store has the scalar in it. -/
theorem Scalar.infix_to_json {text : String} (scalar : s.Scalar text) :
    utf8 text <:+: s.to_json := by
  obtain ⟨own, here, secret, same, rfl⟩ := scalar
  have own_text : Value.pretty 1 own.to_value <:+: Value.pretty 0 s.to_value := by
    apply Value.infix_pretty_obj (k := "own_identity")
    simp [here]
  have secret_text : Value.pretty 2 (.str own.secret) <:+: Value.pretty 1 own.to_value := by
    apply Value.infix_pretty_obj (k := "secret")
    simp
  have inner : own.secret.toList <:+: Value.pretty 2 (.str own.secret) := by
    have quoted : Value.pretty 2 (.str own.secret) = '"' :: own.secret.toList ++ ['"'] := by
      rw [same]
      exact quote_base64 secret.val
    exact ⟨['"'], ['"'], by rw [quoted]; rfl⟩
  obtain ⟨before, after, whole⟩ := (inner.trans secret_text).trans own_text
  refine ⟨Utf8.encode before, Utf8.encode after, ?_⟩
  rw [to_json, Value.to_vec_pretty, ← whole, utf8]
  simp [Utf8.encode]

end PeerStore

end Qev.Pairing
