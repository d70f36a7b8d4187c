import Mathlib.Data.List.TakeDrop
import Mathlib.Logic.Function.Basic
import Qev.Lib.Bytes

/-! Files with permissions, and the system calls of a program that writes them.
A program may stop between any two calls; each byte is written by a call of its
own, so that a write may end anywhere. -/

namespace Qev

/-- The bits `rwxrwxrwx`. -/
abbrev Mode := BitVec 9

structure File where
  content : Bytes
  mode : Mode
  deriving DecidableEq, Repr

/-- No more than reading and writing, by the owner. -/
def Mode.Private (m : Mode) : Prop := m &&& 0o600#9 = m

instance (m : Mode) : Decidable m.Private := inferInstanceAs (Decidable (_ = _))

/-- A path by its directory and the two parts of its file name. -/
structure Path where
  parent : String
  file_stem : String
  extension : String
  deriving DecidableEq, Repr

def Path.with_extension (p : Path) (extension : String) : Path := { p with extension }

theorem Path.with_extension_ne {p : Path} {extension : String} (other : p.extension ≠ extension) :
    p.with_extension extension ≠ p := by
  intro same
  exact other (congrArg Path.extension same).symm

abbrev FileSystem (π : Type) := π → Option File

inductive FsOp (π : Type) where
  | create_dir_all
  /-- Open for writing: a new file, or the old one without its content. -/
  | create (path : π)
  | append (path : π) (byte : UInt8)
  | set_permissions (path : π) (mode : Mode)
  | rename (src dst : π)
  deriving DecidableEq, Repr

namespace FileSystem

variable {π : Type} [DecidableEq π] (umask : Mode)

def created (fs : FileSystem π) (path : π) : Mode :=
  match fs path with
  | some file => file.mode
  | none => 0o666#9 &&& ~~~umask

def step (fs : FileSystem π) : FsOp π → FileSystem π
  | .create_dir_all => fs
  | .create path => Function.update fs path (some ⟨[], created umask fs path⟩)
  | .append path byte =>
    Function.update fs path
      ((fs path).map fun file => { file with content := file.content ++ [byte] })
  | .set_permissions path mode => Function.update fs path ((fs path).map ({ · with mode }))
  | .rename src dst =>
    match fs src with
    | some file => Function.update (Function.update fs src none) dst (some file)
    | none => fs

def run (fs : FileSystem π) (ops : List (FsOp π)) : FileSystem π := ops.foldl (step umask) fs

/-- Calls up to the one that fails, if one does; that call comes with the result. -/
def perform (fs : FileSystem π) (ops : List (FsOp π)) (stop : Option Nat) :
    FileSystem π × Option (FsOp π) :=
  match stop with
  | none => (run umask fs ops, none)
  | some n => (run umask fs (ops.take n), ops[n]?)

/-- The calls as a fallible operation, with a text for each call that may fail. -/
def attempt (failure : FsOp π → String) (fs : FileSystem π) (ops : List (FsOp π))
    (stop : Option Nat) : FileSystem π × Except String Unit :=
  ((perform umask fs ops stop).1,
    match (perform umask fs ops stop).2 with
    | none => .ok ()
    | some op => .error (failure op))

def write (path : π) (content : Bytes) : List (FsOp π) :=
  .create path :: content.map (.append path)

/-- Write a file beside `path` and move it there; with `mode`, its permissions
are set first. -/
def replace (tmp path : π) (content : Bytes) (mode : Option Mode) : List (FsOp π) :=
  .create_dir_all :: write tmp content ++
    (mode.map (FsOp.set_permissions tmp)).toList ++ [.rename tmp path]

variable {umask} {fs : FileSystem π} {tmp path : π} {content : Bytes} {mode : Option Mode}

@[simp] theorem run_nil : run umask fs [] = fs := rfl

@[simp] theorem run_cons (op : FsOp π) (ops : List (FsOp π)) :
    run umask fs (op :: ops) = run umask (step umask fs op) ops := rfl

theorem run_append (ops more : List (FsOp π)) :
    run umask fs (ops ++ more) = run umask (run umask fs ops) more := by
  simp [run]

/-- The bytes of a file are appended one by one. -/
theorem run_appends {file : File} (here : fs path = some file) (bytes : Bytes) :
    run umask fs (bytes.map (.append path)) =
      Function.update fs path (some { file with content := file.content ++ bytes }) := by
  induction bytes generalizing fs file with
  | nil => simp [← here]
  | cons b bytes ih =>
    have next : step umask fs (.append path b) path =
        some { file with content := file.content ++ [b] } := by
      simp [step, here]
    rw [List.map_cons, run_cons, ih next]
    simp [step]

theorem run_write : run umask fs (write path content) =
    Function.update fs path (some ⟨content, created umask fs path⟩) := by
  have opened : step umask fs (.create path) path = some ⟨[], created umask fs path⟩ := by
    simp [step]
  rw [write, run_cons, run_appends opened]
  simp [step]

omit [DecidableEq π] in
theorem write_take (n : Nat) : (write path content).take (n + 1) = write path (content.take n) := by
  simp [write, List.map_take]

/-! ## Replacing a file -/

/-- A call that has nothing to do with a path. -/
def Misses (path : π) : FsOp π → Prop
  | .create_dir_all => True
  | .create p | .append p _ | .set_permissions p _ => path ≠ p
  | .rename src dst => path ≠ src ∧ path ≠ dst

theorem step_misses {op : FsOp π} (misses : Misses path op) : step umask fs op path = fs path := by
  cases op with
  | create_dir_all => rfl
  | create p => exact Function.update_of_ne misses _ _
  | append p b => exact Function.update_of_ne misses _ _
  | set_permissions p m => exact Function.update_of_ne misses _ _
  | rename src dst =>
    cases there : fs src with
    | none => simp only [step, there]
    | some file =>
      simp only [step, there]
      rw [Function.update_of_ne misses.2, Function.update_of_ne misses.1]

theorem run_misses {ops : List (FsOp π)} (misses : ∀ op ∈ ops, Misses path op) :
    run umask fs ops path = fs path := by
  induction ops generalizing fs with
  | nil => rfl
  | cons op ops ih =>
    rw [run_cons, ih fun op mem => misses op (List.mem_cons_of_mem _ mem),
      step_misses (misses op List.mem_cons_self)]

omit [DecidableEq π] in
/-- All calls but the last are about the file beside. -/
theorem misses_writing {elsewhere : π} (apart : elsewhere ≠ tmp) :
    ∀ op ∈ .create_dir_all :: write tmp content ++ (mode.map (FsOp.set_permissions tmp)).toList,
      Misses elsewhere op := by
  intro op mem
  simp only [write, List.mem_append, List.mem_cons, List.mem_map, Option.mem_toList,
    Option.map_eq_some_iff] at mem
  rcases mem with (rfl | rfl | ⟨b, -, rfl⟩) | ⟨m, -, rfl⟩
  · exact trivial
  · exact apart
  · exact apart
  · exact apart

/-- Before anything has been moved, `path` is as it was. -/
theorem run_take_before (apart : tmp ≠ path) {n : Nat}
    (h : n < (replace tmp path content mode).length) :
    run umask fs ((replace tmp path content mode).take n) path = fs path := by
  apply run_misses
  intro op mem
  rw [replace, List.take_append_of_le_length (by simp [replace] at h ⊢; omega)] at mem
  exact misses_writing (Ne.symm apart) op (List.mem_of_mem_take mem)

/-- All the calls together leave the new content under `path`. -/
theorem run_replace : run umask fs (replace tmp path content mode) =
    Function.update (Function.update fs tmp none) path
      (some ⟨content, mode.getD (created umask fs tmp)⟩) := by
  rw [replace, List.cons_append, List.cons_append, run_cons, run_append, run_append, step,
    run_write]
  cases mode with
  | none => simp [step]
  | some m => simp [step]

/-- At every moment `path` holds what it held, or all of the new content. -/
theorem run_take_replace (apart : tmp ≠ path) (n : Nat) :
    run umask fs ((replace tmp path content mode).take n) path = fs path ∨
      run umask fs ((replace tmp path content mode).take n) path =
        some ⟨content, mode.getD (created umask fs tmp)⟩ := by
  by_cases early : n < (replace tmp path content mode).length
  · exact .inl (run_take_before apart early)
  · rw [List.take_of_length_le (Nat.not_lt.mp early), run_replace]
    exact .inr (Function.update_self _ _ _)

variable {failure : FsOp π → String} {stop : Option Nat}

theorem attempt_eq_ok {ops : List (FsOp π)} : (attempt umask failure fs ops stop).2 = .ok () ↔
    (perform umask fs ops stop).2 = none := by
  simp only [attempt]
  cases (perform umask fs ops stop).2 with
  | none => simp
  | some op => simp

/-- A replacement that ends well has put the new content in place. -/
theorem attempt_ok
    (h : (attempt umask failure fs (replace tmp path content mode) stop).2 = .ok ()) :
    (attempt umask failure fs (replace tmp path content mode) stop).1 path =
      some ⟨content, mode.getD (created umask fs tmp)⟩ := by
  rw [attempt_eq_ok] at h
  change (perform umask fs (replace tmp path content mode) stop).1 path = _
  have whole : (perform umask fs (replace tmp path content mode) stop).1 =
      run umask fs (replace tmp path content mode) := by
    cases stop with
    | none => rfl
    | some n =>
      exact congrArg (run umask fs) (List.take_of_length_le (List.getElem?_eq_none_iff.mp h))
  rw [whole, run_replace, Function.update_self]

/-- Only calls that there are can fail. -/
theorem perform_failed {ops : List (FsOp π)} : (perform umask fs ops stop).2 ≠ none ↔
    ∃ n, stop = some n ∧ n < ops.length := by
  cases stop with
  | none => simp [perform]
  | some n => simp [perform]

theorem attempt_fails {ops : List (FsOp π)} :
    (∃ e, (attempt umask failure fs ops stop).2 = .error e) ↔
      ∃ n, stop = some n ∧ n < ops.length := by
  rw [← @perform_failed π _ umask fs, ne_eq, ← @attempt_eq_ok π _ umask fs failure]
  cases (attempt umask failure fs ops stop).2 with
  | error e => simp
  | ok u => simp

/-- One that fails has left `path` as it was. -/
theorem attempt_error (apart : tmp ≠ path) {e : String}
    (h : (attempt umask failure fs (replace tmp path content mode) stop).2 = .error e) :
    (attempt umask failure fs (replace tmp path content mode) stop).1 path = fs path := by
  have failed : (perform umask fs (replace tmp path content mode) stop).2 ≠ none := by
    rw [ne_eq, ← @attempt_eq_ok π _ umask fs failure, h]
    exact nofun
  obtain ⟨n, rfl, early⟩ := perform_failed.mp failed
  exact run_take_before apart early

/-- Whatever becomes of it, other files are as they were. -/
theorem attempt_elsewhere {elsewhere : π} (beside : elsewhere ≠ tmp) (other : elsewhere ≠ path) :
    (attempt umask failure fs (replace tmp path content mode) stop).1 elsewhere = fs elsewhere := by
  have misses : ∀ op ∈ replace tmp path content mode, Misses elsewhere op := by
    intro op mem
    rcases List.mem_append.mp mem with writing | last
    · exact misses_writing beside op writing
    · obtain rfl := List.mem_singleton.mp last
      exact ⟨beside, other⟩
  cases stop with
  | none => exact run_misses misses
  | some n => exact run_misses fun op mem => misses op (List.mem_of_mem_take mem)

/-! ## The moments of a replacement -/

/-- Before the file beside it is opened, nothing has changed. -/
theorem run_take_start {n : Nat} (h : n < 2) :
    run umask fs ((replace tmp path content mode).take n) = fs := by
  match n with
  | 0 => rfl
  | 1 => rfl

/-- While it is written it has the permissions it was created with. -/
theorem run_take_writing {n : Nat} (h : n ≤ content.length) :
    run umask fs ((replace tmp path content mode).take (n + 2)) =
      Function.update fs tmp (some ⟨content.take n, created umask fs tmp⟩) := by
  have early : (replace tmp path content mode).take (n + 2) =
      .create_dir_all :: write tmp (content.take n) := by
    rw [replace, List.cons_append, List.cons_append, List.take_succ_cons, List.append_assoc,
      List.take_append_of_le_length (by simp [write]; omega), write_take]
  rw [early, run_cons, step, run_write]

/-- After it has been written, its permissions are set. -/
theorem run_take_written (m : Mode) :
    run umask fs ((replace tmp path content (some m)).take (content.length + 3)) =
      Function.update fs tmp (some ⟨content, m⟩) := by
  have early : (replace tmp path content (some m)).take (content.length + 3) =
      .create_dir_all :: write tmp content ++ [.set_permissions tmp m] := by
    rw [replace, List.take_append_of_le_length (by simp [write]), List.take_of_length_le]
    · rfl
    · simp [write]
  rw [early, List.cons_append, run_cons, run_append, step, run_write]
  simp [step]

omit [DecidableEq π] in
theorem length_replace (m : Mode) :
    (replace tmp path content (some m)).length = content.length + 4 := by
  simp [replace, write]

end FileSystem

end Qev
