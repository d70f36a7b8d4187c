import Qev.Bry.Tokens
import Qev.Lib.Double
import Qev.Lib.Except
import Qev.Lib.Hex
import Qev.Lib.Sha256

/-! The schedule of a message: one row of turning parameters for each token,
derived from key, nonce, context and configuration. -/

namespace Qev.Bry

open Py (Str)
open Sha256 (hmac sha256)

structure NFETConfig where
  state_bytes : ℤ := 32
  transform_bucket_count : ℤ := 16
  dummy_insertion_modulus : ℤ := 7
  deriving DecidableEq, Repr

def NFETConfig.validate (c : NFETConfig) : Except Exc Unit :=
  if ¬ (16 ≤ c.state_bytes ∧ c.state_bytes ≤ 64) then
    .error (.ValueError "state_bytes must be between 16 and 64")
  else if ¬ (4 ≤ c.transform_bucket_count ∧ c.transform_bucket_count ≤ 256) then
    .error (.ValueError "transform_bucket_count must be between 4 and 256")
  else if ¬ (2 ≤ c.dummy_insertion_modulus ∧ c.dummy_insertion_modulus ≤ 64) then
    .error (.ValueError "dummy_insertion_modulus must be between 2 and 64")
  else .ok ()

/-! ## State -/

structure NFETState where
  step : Nat
  state_bytes : Bytes

structure NFETSchedulerView where
  transform_bucket : ℤ
  channel_index : Nat
  dummy_insert : Bool
  intensity : ℚ
  ridge_signal : ℚ
  mask_byte : Nat

structure NFETScheduleRow extends NFETSchedulerView where
  index : Nat
  state_hex : String

/-- A bytes literal. -/
def b (s : String) : Bytes := Utf8.encode s.toList

def encode (s : Str) : Except Exc Bytes := (Py.encode s).elim (.error .UnicodeEncodeError) .ok

def to_bytes (n : Nat) : Except Exc Bytes := (Py.to_bytes n).elim (.error .OverflowError) .ok

def u32 (data : Bytes) (offset : Nat) : Except Exc Nat :=
  let chunk := (data.drop offset).take 4
  if chunk.length ≠ 4 then .error (.ValueError "Need 4 bytes to parse u32") else .ok (beNat chunk)

/-- The value of the float nearest to a number, which is not negative. -/
def float (q : ℚ) : ℚ := Double.magnitude (Double.nearest q)

/-- `round(x, 6)`. -/
def round6 (x : ℚ) : ℚ := float (Double.roundHalfEven (x * 10 ^ 6) / 10 ^ 6)

def clamp_unit (value : Nat) : ℚ := float (value / 0xFFFFFFFF)

def derive_session_key (master_key nonce context : Bytes) : Bytes :=
  hmac master_key (b "BRY-NFET-SX|SESSION|" ++ nonce ++ b "|" ++ context)

/-- The loop that hashes until there is enough material, which each turn makes
longer. -/
def extend (state_bytes : Nat) : (fuel : Nat) → Bytes → Bytes
  | 0, material => material
  | fuel + 1, material =>
    if material.length < state_bytes then extend state_bytes fuel (material ++ sha256 material)
    else material

def initialize_scheduler_state (session_key nonce context : Bytes) (state_bytes : Nat) :
    NFETState :=
  let digest := hmac session_key (b "BRY-NFET-SX|SCHED|INIT|" ++ nonce ++ b "|" ++ context)
  ⟨0, (extend state_bytes state_bytes digest).take state_bytes⟩

def step_scheduler_state (current : NFETState) (session_key : Bytes) (position : Nat) :
    Except Exc NFETState := do
  let step ← to_bytes current.step
  let position ← to_bytes position
  let payload := b "BRY-NFET-SX|SCHED|STEP|" ++ step ++ b "|" ++ position ++ b "|" ++
    current.state_bytes
  let digest := hmac session_key payload
  let mixed := List.zipWith (· ^^^ ·) (digest.take current.state_bytes.length) current.state_bytes
  return ⟨current.step + 1, mixed⟩

def scheduler_view (state : NFETState) (transform_bucket_count dummy_insertion_modulus : ℤ) :
    Except Exc NFETSchedulerView := do
  let raw := state.state_bytes
  let a ← u32 raw 0
  let b ← u32 raw 4
  let c ← u32 raw 8
  let d ← u32 raw 12
  let ridge_signal := float (float (float (clamp_unit b + clamp_unit c) + clamp_unit d) / 3)
  return {
    transform_bucket := a % transform_bucket_count
    channel_index := b % 4
    dummy_insert := (c : ℤ) % dummy_insertion_modulus == 0
    intensity := round6 (clamp_unit a)
    ridge_signal := round6 ridge_signal
    mask_byte := (if 16 < raw.length then raw.getD 16 0 else raw.getD 0 0).toNat }

/-! ## Rows -/

/-- The loop of `build_schedule` for `n` more tokens, from position `i` on. -/
def scheduleRows (session_key : Bytes) (config : NFETConfig) :
    (n i : Nat) → NFETState → Except Exc (List NFETScheduleRow)
  | 0, _, _ => .ok []
  | n + 1, i, state => do
    let state ← step_scheduler_state state session_key i
    let view ← scheduler_view state config.transform_bucket_count config.dummy_insertion_modulus
    let rows ← scheduleRows session_key config n (i + 1) state
    return ⟨view, i, Hex.hex state.state_bytes⟩ :: rows

structure NFETScheduleResult where
  token_count : Nat
  initial_state_hex : String
  rows : List NFETScheduleRow

def build_schedule (token_count : Nat) (master_key nonce context : Str) (config : NFETConfig) :
    Except Exc NFETScheduleResult := do
  config.validate
  let master_key ← encode master_key
  let nonce ← encode nonce
  let context ← encode context
  let session_key := derive_session_key master_key nonce context
  let state := initialize_scheduler_state session_key nonce context config.state_bytes.toNat
  let rows ← scheduleRows session_key config token_count 0 state
  return ⟨token_count, Hex.hex state.state_bytes, rows⟩

/-- The trace of a message; what its rows say besides the schedule's, of
neighbours and digests, is left out. -/
structure NFETTraceResult where
  normalized_plaintext : Str
  canonical_bry : Str
  tokens : List Str
  initial_state_hex : String
  rows : List NFETScheduleRow

def build_trace (plaintext master_key nonce context : Str) (config : NFETConfig) :
    Except Exc NFETTraceResult := do
  config.validate
  let normalized ← normalize_plaintext plaintext
  let canonical_bry ← encode_to_bry normalized
  let tokens ← tokenize_bry canonical_bry
  let schedule ← build_schedule tokens.length master_key nonce context config
  return ⟨normalized, canonical_bry, tokens, schedule.initial_state_hex, schedule.rows⟩

theorem length_rows {session_key : Bytes} {config : NFETConfig} {n i : Nat} {state : NFETState}
    {rows : List NFETScheduleRow} (h : scheduleRows session_key config n i state = .ok rows) :
    rows.length = n := by
  induction n generalizing i state rows with
  | zero =>
    cases h
    rfl
  | succ n ih =>
    obtain ⟨state', -, h⟩ := bind_eq_ok.mp h
    obtain ⟨view, -, h⟩ := bind_eq_ok.mp h
    obtain ⟨rows', later, h⟩ := bind_eq_ok.mp h
    cases h
    rw [List.length_cons, ih later]

section Schedule

variable {n : Nat} {master_key nonce context : Str} {config : NFETConfig}
  {schedule : NFETScheduleResult}

/-- What a schedule is made of. -/
theorem schedule_eq_ok (h : build_schedule n master_key nonce context config = .ok schedule) :
    config.validate = .ok () ∧ ∃ key drawn place, encode master_key = .ok key ∧
      encode nonce = .ok drawn ∧ encode context = .ok place ∧
      let session_key := derive_session_key key drawn place
      let state := initialize_scheduler_state session_key drawn place config.state_bytes.toNat
      schedule.token_count = n ∧ schedule.initial_state_hex = Hex.hex state.state_bytes ∧
        scheduleRows session_key config n 0 state = .ok schedule.rows := by
  obtain ⟨⟨⟩, valid, h⟩ := bind_eq_ok.mp h
  obtain ⟨key, key_bytes, h⟩ := bind_eq_ok.mp h
  obtain ⟨drawn, nonce_bytes, h⟩ := bind_eq_ok.mp h
  obtain ⟨place, context_bytes, h⟩ := bind_eq_ok.mp h
  obtain ⟨rows, scheduled, h⟩ := bind_eq_ok.mp h
  cases h
  exact ⟨valid, key, drawn, place, key_bytes, nonce_bytes, context_bytes, rfl, rfl, scheduled⟩

theorem length_schedule (h : build_schedule n master_key nonce context config = .ok schedule) :
    schedule.rows.length = n := by
  obtain ⟨-, key, drawn, place, -, -, -, -, -, scheduled⟩ := schedule_eq_ok h
  exact length_rows scheduled

end Schedule

/-! ## Valid configurations -/

def NFETConfig.Valid (c : NFETConfig) : Prop :=
  (16 ≤ c.state_bytes ∧ c.state_bytes ≤ 64) ∧
    (4 ≤ c.transform_bucket_count ∧ c.transform_bucket_count ≤ 256) ∧
    (2 ≤ c.dummy_insertion_modulus ∧ c.dummy_insertion_modulus ≤ 64)

instance (c : NFETConfig) : Decidable c.Valid := inferInstanceAs (Decidable (_ ∧ _))

theorem validate_eq_ok {c : NFETConfig} : c.validate = .ok () ↔ c.Valid := by
  unfold NFETConfig.validate NFETConfig.Valid
  split
  · rename_i state
    exact iff_of_false nofun fun h => state h.1
  split
  · rename_i buckets
    exact iff_of_false nofun fun h => buckets h.2.1
  split
  · rename_i modulus
    exact iff_of_false nofun fun h => modulus h.2.2
  · rename_i state buckets modulus
    exact iff_of_true rfl
      ⟨Decidable.not_not.mp state, Decidable.not_not.mp buckets, Decidable.not_not.mp modulus⟩

theorem to_bytes_eq_ok {n : Nat} : (∃ bytes, to_bytes n = .ok bytes) ↔ n < 2 ^ 64 := by
  rw [to_bytes, Py.to_bytes]
  split_ifs with small
  · exact iff_of_true ⟨_, rfl⟩ small
  · exact iff_of_false nofun small

theorem u32_ok (data : Bytes) (offset : Nat) (long : offset + 4 ≤ data.length) :
    ∃ n, u32 data offset = .ok n := by
  have length : ((data.drop offset).take 4).length = 4 := by
    rw [List.length_take, List.length_drop]
    omega
  exact ⟨_, if_neg (not_not_intro length)⟩

theorem length_extend {state_bytes fuel : Nat} {material : Bytes}
    (enough : state_bytes ≤ fuel + material.length) :
    state_bytes ≤ (extend state_bytes fuel material).length := by
  induction fuel generalizing material with
  | zero => simpa [extend] using enough
  | succ fuel ih =>
    rw [extend]
    split_ifs with short
    · apply ih
      rw [List.length_append, Sha256.length_sha256]
      omega
    · exact Nat.le_of_not_lt short

theorem length_initial (session_key nonce context : Bytes) (state_bytes : Nat) :
    (initialize_scheduler_state session_key nonce context state_bytes).state_bytes.length =
      state_bytes := by
  rw [initialize_scheduler_state, List.length_take]
  exact Nat.min_eq_left (length_extend (Nat.le_add_right _ _))

theorem scheduler_view_ok {state : NFETState} (long : 16 ≤ state.state_bytes.length)
    (transform_bucket_count dummy_insertion_modulus : ℤ) :
    ∃ view, scheduler_view state transform_bucket_count dummy_insertion_modulus = .ok view := by
  obtain ⟨a, first⟩ := u32_ok state.state_bytes 0 (by omega)
  obtain ⟨b, second⟩ := u32_ok state.state_bytes 4 (by omega)
  obtain ⟨c, third⟩ := u32_ok state.state_bytes 8 (by omega)
  obtain ⟨d, fourth⟩ := u32_ok state.state_bytes 12 (by omega)
  rw [scheduler_view, first, second, third, fourth]
  exact ⟨_, rfl⟩

/-- Only a position beyond eight bytes stops the loop. -/
theorem rows_ok {session_key : Bytes} (config : NFETConfig) {n i : Nat} {state : NFETState}
    (long : 16 ≤ state.state_bytes.length) (step : state.step = i) (small : i + n ≤ 2 ^ 64) :
    ∃ rows, scheduleRows session_key config n i state = .ok rows := by
  induction n generalizing i state with
  | zero => exact ⟨[], rfl⟩
  | succ n ih =>
    obtain ⟨bytes, fits⟩ := to_bytes_eq_ok.mpr (by omega : i < 2 ^ 64)
    obtain ⟨next, stepped, step', long'⟩ : ∃ next,
        step_scheduler_state state session_key i = .ok next ∧
        next.step = i + 1 ∧ 16 ≤ next.state_bytes.length := by
      rw [step_scheduler_state, step, fits]
      refine ⟨_, rfl, rfl, ?_⟩
      dsimp only
      rw [List.length_zipWith, List.length_take, Sha256.length_hmac]
      omega
    obtain ⟨view, viewed⟩ := scheduler_view_ok long' config.transform_bucket_count
      config.dummy_insertion_modulus
    obtain ⟨rows, later⟩ := ih long' step' (by omega)
    rw [scheduleRows, stepped, ok_bind, viewed, ok_bind, later]
    exact ⟨_, rfl⟩

theorem rows_small {session_key : Bytes} {config : NFETConfig} {n i : Nat} {state : NFETState}
    {rows : List NFETScheduleRow} (h : scheduleRows session_key config n i state = .ok rows) :
    n = 0 ∨ i + n ≤ 2 ^ 64 := by
  induction n generalizing i state rows with
  | zero => exact .inl rfl
  | succ n ih =>
    obtain ⟨state', stepped, h⟩ := bind_eq_ok.mp h
    obtain ⟨view, -, h⟩ := bind_eq_ok.mp h
    obtain ⟨rows', later, -⟩ := bind_eq_ok.mp h
    obtain ⟨_, -, stepped⟩ := bind_eq_ok.mp stepped
    obtain ⟨bytes, position, -⟩ := bind_eq_ok.mp stepped
    have small := to_bytes_eq_ok.mp ⟨bytes, position⟩
    rcases ih later with rfl | bound
    · exact .inr (by omega)
    · exact .inr (by omega)

theorem exists_schedule {n : Nat} (small : n ≤ 2 ^ 64) {master_key nonce context : Str}
    {key drawn place : Bytes} (key_bytes : encode master_key = .ok key)
    (nonce_bytes : encode nonce = .ok drawn) (context_bytes : encode context = .ok place)
    {config : NFETConfig} (valid : config.Valid) :
    ∃ schedule, build_schedule n master_key nonce context config = .ok schedule := by
  have bound := valid.1.1
  obtain ⟨rows, scheduled⟩ := @rows_ok (derive_session_key key drawn place) config n 0
    (initialize_scheduler_state (derive_session_key key drawn place) drawn place
      config.state_bytes.toNat) (by rw [length_initial]; omega) rfl (by omega)
  rw [build_schedule, validate_eq_ok.mpr valid, ok_bind, key_bytes, ok_bind, nonce_bytes, ok_bind,
    context_bytes, ok_bind]
  exact ⟨_, congrArg (· >>= _) scheduled⟩

/-- Where there is a schedule, there is one for every valid configuration. -/
theorem schedule_of_valid {n : Nat} {master_key nonce context : Str} {config : NFETConfig}
    {schedule : NFETScheduleResult}
    (h : build_schedule n master_key nonce context config = .ok schedule) {other : NFETConfig}
    (valid : other.Valid) :
    ∃ schedule', build_schedule n master_key nonce context other = .ok schedule' := by
  obtain ⟨-, key, drawn, place, key_bytes, nonce_bytes, context_bytes, -, -, scheduled⟩ :=
    schedule_eq_ok h
  apply exists_schedule _ key_bytes nonce_bytes context_bytes valid
  rcases rows_small scheduled with rfl | small
  · exact Nat.zero_le _
  · omega

/-! ## The width of the state -/

/-- The state after `n` steps of the loop of `build_schedule`. -/
def stateAfter (session_key nonce context : Bytes) (config : NFETConfig) :
    Nat → Except Exc NFETState
  | 0 => .ok (initialize_scheduler_state session_key nonce context config.state_bytes.toNat)
  | n + 1 => do
    let state ← stateAfter session_key nonce context config n
    step_scheduler_state state session_key n

section Width

variable {session_key nonce context : Bytes} {config : NFETConfig}

/-- A step leaves no more bytes than a digest has. -/
theorem length_step {current next : NFETState} {position : Nat}
    (h : step_scheduler_state current session_key position = .ok next) :
    next.state_bytes.length = min 32 current.state_bytes.length := by
  obtain ⟨step, -, h⟩ := bind_eq_ok.mp h
  obtain ⟨position, -, h⟩ := bind_eq_ok.mp h
  cases h
  dsimp only
  rw [List.length_zipWith, List.length_take, Sha256.length_hmac]
  omega

theorem length_stateAfter {n : Nat} {state : NFETState}
    (h : stateAfter session_key nonce context config (n + 1) = .ok state) :
    state.state_bytes.length = min 32 config.state_bytes.toNat := by
  induction n generalizing state with
  | zero =>
    rw [stateAfter, stateAfter, ok_bind] at h
    rw [length_step h, length_initial]
  | succ n ih =>
    rw [stateAfter] at h
    obtain ⟨before, earlier, h⟩ := bind_eq_ok.mp h
    rw [length_step h, ih earlier]
    omega

theorem first_step_ok : ∃ state, stateAfter session_key nonce context config 1 = .ok state := by
  obtain ⟨bytes, fits⟩ := to_bytes_eq_ok.mpr (by decide : 0 < 2 ^ 64)
  rw [stateAfter, stateAfter, ok_bind, step_scheduler_state, initialize_scheduler_state, fits,
    ok_bind]
  exact ⟨_, rfl⟩

/-- For every configuration that is accepted and any number of steps: after each of
them the state has the width of the configuration and can be viewed, if and only
if there are no steps or the width is no more than that of a digest. -/
theorem scheduler_width_iff (session_key nonce context : Bytes) (config : NFETConfig)
    (accepted : config.validate = .ok ()) (n : Nat) :
    (∀ k < n, ∀ state, stateAfter session_key nonce context config (k + 1) = .ok state →
      state.state_bytes.length = config.state_bytes ∧
        ∃ view, scheduler_view state config.transform_bucket_count
          config.dummy_insertion_modulus = .ok view) ↔
    n = 0 ∨ config.state_bytes ≤ 32 := by
  have wide := (validate_eq_ok.mp accepted).1.1
  constructor
  · intro each
    refine n.eq_zero_or_pos.imp id fun some_step => ?_
    obtain ⟨state, stepped⟩ : ∃ state, stateAfter session_key nonce context config 1 = .ok state :=
      first_step_ok
    have length := length_stateAfter stepped
    have width := (each 0 some_step state stepped).1
    omega
  · rintro (rfl | narrow) k before state stepped
    · exact absurd before (Nat.not_lt_zero k)
    · have length := length_stateAfter stepped
      refine ⟨by omega, scheduler_view_ok (by omega) _ _⟩

theorem scheduler_width_default : ∃ state, stateAfter [] [] [] {} 1 = .ok state ∧
    (state.state_bytes.length : ℤ) = 32 := by
  obtain ⟨state, stepped⟩ : ∃ state, stateAfter [] [] [] {} 1 = .ok state := first_step_ok
  have width := (scheduler_width_iff [] [] [] {} (by decide) 1).mpr (.inr (by decide)) 0 (by decide)
    state stepped
  exact ⟨state, stepped, width.1⟩

/-- Of 64 bytes, half are left after a step. -/
theorem wide_state_halved : ¬ ∀ (session_key nonce context : Bytes) (config : NFETConfig),
    config.validate = .ok () → ∀ n, ∀ k < n, ∀ state,
      stateAfter session_key nonce context config (k + 1) = .ok state →
      (state.state_bytes.length : ℤ) = config.state_bytes ∧
        ∃ view, scheduler_view state config.transform_bucket_count
          config.dummy_insertion_modulus = .ok view := by
  intro all
  obtain ⟨state, stepped⟩ : ∃ state, stateAfter [] [] [] { state_bytes := 64 } 1 = .ok state :=
    first_step_ok
  have half := length_stateAfter stepped
  have whole := (all [] [] [] { state_bytes := 64 } (by decide) 1 0 (by decide) state stepped).1
  rw [half] at whole
  exact absurd whole (by decide)

end Width

end Qev.Bry
