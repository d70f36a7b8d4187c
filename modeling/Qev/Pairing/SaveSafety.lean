import Qev.Pairing.PeerFile

/-! A save that stops anywhere: what the file of the store holds, and who can
read the private scalar. -/

namespace Qev.Pairing

open Desktop (base64 utf8)

namespace PeerStore

variable {s : PeerStore} {umask : Mode} {fs : FileSystem Path} {app_data_dir : String} {n k : Nat}

/-- A save that fails at call number `n` leaves the disk of that moment. -/
theorem save_some (path : Path) : (s.save umask fs path (some n)).1 = s.disk umask fs path n := by
  by_cases valid : s.schema = STORE_SCHEMA
  · rw [save, validate_eq_ok.mpr valid, disk, if_pos valid]
    rfl
  · rw [save, validate_of_ne valid, disk, if_neg valid]

/-- The file of the store is whole at every moment. -/
theorem disk_whole (k : Nat) :
    s.disk umask fs (store_path app_data_dir) k (store_path app_data_dir) =
        fs (store_path app_data_dir) ∨
      s.disk umask fs (store_path app_data_dir) k (store_path app_data_dir) =
        some ⟨s.to_json, 0o600#9⟩ := by
  unfold disk
  split
  · exact FileSystem.run_take_replace tmp_ne k
  · exact .inl rfl

/-- The scalar shows in a file that was not there before. -/
theorem exposed_update {path : Path} {file : Option File} :
    s.Exposed (Function.update fs path file) →
      s.Exposed fs ∨ ∃ text, s.Scalar text ∧ ∃ f, file = some f ∧ utf8 text <:+: f.content ∧
        ¬ f.mode.Private := by
  rintro ⟨text, scalar, path', f, found, inside, wide⟩
  by_cases here : path' = path
  · subst here
    rw [Function.update_self] at found
    exact .inr ⟨text, scalar, f, found, inside, wide⟩
  · rw [Function.update_of_ne here] at found
    exact .inl ⟨text, scalar, path', f, found, inside, wide⟩

/-- The temporary file is open to others, and the scalar is in its part that has
been written when the save stops at call number `n`. -/
def Window (s : PeerStore) (umask : Mode) (fs : FileSystem Path) (path : Path) (n : Nat) : Prop :=
  s.schema = STORE_SCHEMA ∧
    ¬ (FileSystem.created umask fs (path.with_extension "json.tmp")).Private ∧
    ∃ text, s.Scalar text ∧ utf8 text <:+: s.to_json.take (n - 2)

/-- In the window the scalar can be read by others. -/
theorem exposed_of_window {path : Path} (window : s.Window umask fs path n) :
    s.Exposed (s.disk umask fs path (min (n - 2) s.to_json.length + 2)) := by
  obtain ⟨valid, wide, text, scalar, inside⟩ := window
  have written : s.to_json.take (min (n - 2) s.to_json.length) = s.to_json.take (n - 2) :=
    List.take_eq_take_iff.mpr (by omega)
  rw [disk, if_pos valid, save_ops, FileSystem.run_take_writing (by omega), written]
  exact ⟨text, scalar, _, _, Function.update_self _ _ _, inside, wide⟩

/-- Outside it nobody else can read the scalar, if nobody could before. -/
theorem not_exposed {path : Path} (before : ¬ s.Exposed fs)
    (closed : ¬ s.Window umask fs path k) : ¬ s.Exposed (s.disk umask fs path k) := by
  by_cases valid : s.schema = STORE_SCHEMA
  · rw [disk, if_pos valid, save_ops]
    have narrow : Mode.Private 0o600#9 := by decide
    by_cases start : k < 2
    · rwa [FileSystem.run_take_start start]
    · obtain ⟨k, rfl⟩ := Nat.exists_eq_add_of_le' (Nat.not_lt.mp start)
      by_cases writing : k ≤ s.to_json.length
      · rw [FileSystem.run_take_writing writing]
        intro exposed
        rcases exposed_update exposed with old | ⟨text, scalar, f, same, inside, wide⟩
        · exact before old
        · cases same
          exact closed ⟨valid, wide, text, scalar, by simpa using inside⟩
      · by_cases written : k = s.to_json.length + 1
        · subst written
          rw [FileSystem.run_take_written]
          intro exposed
          rcases exposed_update exposed with old | ⟨text, scalar, f, same, inside, wide⟩
          · exact before old
          · cases same
            exact wide narrow
        · rw [List.take_of_length_le (by rw [FileSystem.length_replace]; omega),
            FileSystem.run_replace]
          intro exposed
          rcases exposed_update exposed with old | ⟨text, scalar, f, same, inside, wide⟩
          · rcases exposed_update old with older | ⟨text, scalar, f, none, -⟩
            · exact before older
            · cases none
          · cases same
            exact wide narrow
  · rwa [disk, if_neg valid]

/-- Until the save stops, the store's file is whole and nobody else can read the
private scalar. -/
def SafeSave (s : PeerStore) (umask : Mode) (fs : FileSystem Path) (path : Path) (n : Nat) : Prop :=
  (∀ k ≤ n, (s.save umask fs path (some k)).1 path = fs path ∨
    (s.save umask fs path (some k)).1 path = some ⟨s.to_json, 0o600#9⟩) ∧
  ∀ k ≤ n, ¬ s.Exposed (s.save umask fs path (some k)).1

theorem Window.mono {path : Path} (window : s.Window umask fs path k) (h : k ≤ n) :
    s.Window umask fs path n := by
  obtain ⟨valid, wide, text, scalar, inside⟩ := window
  refine ⟨valid, wide, text, scalar, inside.trans ?_⟩
  exact (List.take_prefix_take_left (by omega)).isInfix

/-- Nothing is in the temporary file before its first byte. -/
theorem Window.two_lt {path : Path} (window : s.Window umask fs path n) : 2 < n := by
  obtain ⟨-, -, text, scalar, inside⟩ := window
  by_contra early
  rw [show n - 2 = 0 by omega, List.take_zero, List.infix_nil] at inside
  exact scalar.ne_nil inside

theorem save_safe_iff : s.SafeSave umask fs (store_path app_data_dir) n ↔
    ¬ s.Exposed fs ∧ ¬ s.Window umask fs (store_path app_data_dir) n := by
  simp only [SafeSave, save_some]
  constructor
  · rintro ⟨-, unseen⟩
    constructor
    · have start := unseen 0 (Nat.zero_le n)
      by_cases valid : s.schema = STORE_SCHEMA
      · rwa [disk, if_pos valid] at start
      · rwa [disk, if_neg valid] at start
    · intro window
      have late := window.two_lt
      exact unseen _ (by omega) (exposed_of_window window)
  · rintro ⟨before, closed⟩
    constructor
    · intro k _
      exact disk_whole k
    · intro k early
      apply not_exposed before
      intro window
      exact closed (window.mono early)

/-- A new installation's store, with the umask that most systems have: the save
stops after the last byte of the temporary file. -/
def sample : PeerStore :=
  { empty with
    own_identity := some
      { public_key := base64 (List.replicate 32 1), secret := base64 (List.replicate 32 2)
        name := "alice", device := "laptop", created_at := "2026-04-15T23:59:59Z" } }

theorem sample_exposed : ¬ sample.SafeSave 0o022#9 (fun _ => none) (store_path "/data")
    (sample.to_json.length + 2) := by
  have scalar : sample.Scalar (base64 (List.replicate 32 2)) :=
    ⟨_, rfl, FixedBytes.fill 32 2, rfl, rfl⟩
  have inside : utf8 (base64 (List.replicate 32 2)) <:+: sample.to_json.take
      (sample.to_json.length + 2 - 2) := by
    rw [Nat.add_sub_cancel, List.take_length]
    exact scalar.infix_to_json
  have window : sample.Window 0o022#9 (fun _ => none) (store_path "/data")
      (sample.to_json.length + 2) := ⟨rfl, by decide, _, scalar, inside⟩
  rintro ⟨-, unseen⟩
  simp only [save_some] at unseen
  apply unseen _ _ (exposed_of_window window)
  omega

end PeerStore

end Qev.Pairing
