import Qev.Bry.Reading
import Qev.Bry.Schedule
import Qev.Lib.Rotation

/-! Turning the tokens of a message along their rings, and back. -/

namespace Qev.Bry

open Py (Str cp py)
open Rotation (rotate rotate_mem rotate_neg rotate_rotate rotate_zero)

def LETTER_TOKENS : List Str := (py "ABCDEFGHIJKLMNOPQRSTUVWXYZ").map tokenOf

def PUNCT_TOKENS : List Str := (py ".,?!'").map tokenOf

def SPACE_TOKEN : Str := tokenOf (cp ' ')

def token_ring (token : Str) : Except Exc (List Str) :=
  if token ∈ LETTER_TOKENS then .ok LETTER_TOKENS
  else if token ∈ PUNCT_TOKENS then .ok PUNCT_TOKENS
  else if token = SPACE_TOKEN then .ok [SPACE_TOKEN]
  else .error (.UnsupportedTokenClass token)

def signed_direction (channel_index : Nat) (dummy_insert : Bool) : ℤ :=
  let parity := (channel_index + if dummy_insert then 1 else 0) % 2
  if parity = 0 then 1 else -1

/-- `_shift_amount` in a ring of this size. -/
def places (size : Nat) (sched : NFETScheduleRow) : ℤ :=
  if size ≤ 1 then 0
  else
    let ridge_scaled := ⌊float (sched.ridge_signal * 1000)⌋
    let base := sched.transform_bucket * 131 + sched.mask_byte + ridge_scaled + sched.index * 17
    1 + base % (size - 1)

def shift_amount (token : Str) (sched : NFETScheduleRow) : Except Exc ℤ := do
  let ring ← token_ring token
  return places ring.length sched

def transform_token (token : Str) (sched : NFETScheduleRow) : Except Exc Str := do
  let ring ← token_ring token
  if ring.length ≤ 1 then return token
  let shift ← shift_amount token sched
  let direction := signed_direction sched.channel_index sched.dummy_insert
  return rotate ring (direction * shift) token

def inverse_transform_token (token : Str) (sched : NFETScheduleRow) : Except Exc Str := do
  let ring ← token_ring token
  if ring.length ≤ 1 then return token
  let shift ← shift_amount token sched
  let direction := signed_direction sched.channel_index sched.dummy_insert
  return rotate ring (-(direction * shift)) token

/-- The rows of the source, a table to report, are left out. -/
structure TransformResult where
  original_compact : Str
  original_human : Str
  transformed_compact : Str
  transformed_human : Str
  recovered_compact : Str
  recovered_human : Str
  recovered_plaintext : Str
  roundtrip_ok : Bool

def apply_transform_from_plaintext (plaintext master_key nonce context : Str)
    (config : NFETConfig) :
    Except Exc TransformResult := do
  let trace ← build_trace plaintext master_key nonce context config
  let rows ← (trace.tokens.zip trace.rows).mapM fun (token, sched) => do
    let transformed ← transform_token token sched
    let recovered ← inverse_transform_token transformed sched
    return (transformed, recovered)
  let transformed_tokens := rows.map Prod.fst
  let recovered_tokens := rows.map Prod.snd
  let original_compact ← untokenize_bry trace.tokens
  let transformed_compact ← untokenize_bry transformed_tokens
  let recovered_compact ← untokenize_bry recovered_tokens
  return {
    original_compact, transformed_compact, recovered_compact
    original_human := ← render_human_bry trace.tokens
    transformed_human := ← render_human_bry transformed_tokens
    recovered_human := ← render_human_bry recovered_tokens
    recovered_plaintext := ← decode_from_bry recovered_compact
    roundtrip_ok := original_compact = recovered_compact }

def reverse_transform_from_bry (bry_text master_key nonce context : Str) (config : NFETConfig) :
    Except Exc TransformResult := do
  let transformed_tokens ← parse_bry_input bry_text
  let schedule ← build_schedule transformed_tokens.length master_key nonce context config
  let rows ← (transformed_tokens.zip schedule.rows).mapM fun (token, sched) => do
    let recovered ← inverse_transform_token token sched
    let reforward ← transform_token recovered sched
    return (recovered, reforward)
  let recovered_tokens := rows.map Prod.fst
  let recovered_compact ← untokenize_bry recovered_tokens
  let transformed_compact ← untokenize_bry transformed_tokens
  return {
    original_compact := recovered_compact
    original_human := ← render_human_bry recovered_tokens
    transformed_compact
    transformed_human := ← render_human_bry transformed_tokens
    recovered_compact := transformed_compact
    recovered_human := ← render_human_bry transformed_tokens
    recovered_plaintext := ← decode_from_bry recovered_compact
    roundtrip_ok := transformed_compact = (← untokenize_bry (rows.map Prod.snd)) }

/-! ## Rings -/

/-- The ring of a token of the table. -/
def ringOf (token : Str) : List Str :=
  if token ∈ LETTER_TOKENS then LETTER_TOKENS
  else if token ∈ PUNCT_TOKENS then PUNCT_TOKENS
  else [SPACE_TOKEN]

/-- By how many places a row turns a token. -/
def turn (token : Str) (sched : NFETScheduleRow) : ℤ :=
  signed_direction sched.channel_index sched.dummy_insert * places (ringOf token).length sched

theorem token_class : ∀ t ∈ TOKEN_ORDER,
    t ∈ LETTER_TOKENS ∨ t ∈ PUNCT_TOKENS ∨ t = SPACE_TOKEN := by
  decide +kernel

theorem rings_apart : ∀ t ∈ PUNCT_TOKENS, t ∉ LETTER_TOKENS := by decide

theorem space_apart : SPACE_TOKEN ∉ LETTER_TOKENS ∧ SPACE_TOKEN ∉ PUNCT_TOKENS := by decide

theorem rings_known : (∀ t ∈ LETTER_TOKENS, t ∈ TOKEN_ORDER) ∧
    (∀ t ∈ PUNCT_TOKENS, t ∈ TOKEN_ORDER) ∧
    SPACE_TOKEN ∈ TOKEN_ORDER := by
  decide +kernel

theorem nodup_letters : LETTER_TOKENS.Nodup := by decide

theorem nodup_puncts : PUNCT_TOKENS.Nodup := by decide

theorem ringOf_cases {t : Str} (mem : t ∈ TOKEN_ORDER) :
    token_ring t = .ok (ringOf t) ∧ t ∈ ringOf t := by
  unfold token_ring ringOf
  split
  · exact ⟨rfl, ‹_›⟩
  split
  · exact ⟨rfl, ‹_›⟩
  · rename_i letter punct
    obtain rfl := ((token_class t mem).resolve_left letter).resolve_left punct
    exact ⟨if_pos rfl, List.mem_singleton_self _⟩

theorem nodup_ringOf (t : Str) : (ringOf t).Nodup := by
  unfold ringOf
  split
  · exact nodup_letters
  split
  · exact nodup_puncts
  · exact List.nodup_singleton _

/-- A token's ring is that of every token in it. -/
theorem ringOf_mem {t u : Str} (here : u ∈ ringOf t) : u ∈ TOKEN_ORDER ∧ ringOf u = ringOf t := by
  revert here
  rw [ringOf]
  split
  · intro here
    exact ⟨rings_known.1 u here, if_pos here⟩
  split
  · intro here
    refine ⟨rings_known.2.1 u here, ?_⟩
    rw [ringOf, if_neg (rings_apart u here), if_pos here]
  · intro here
    obtain rfl := List.mem_singleton.mp here
    refine ⟨rings_known.2.2, ?_⟩
    rw [ringOf, if_neg space_apart.1, if_neg space_apart.2]

/-! ## Tokens -/

theorem turn_alone {t : Str} (alone : (ringOf t).length ≤ 1) (sched : NFETScheduleRow) :
    turn t sched = 0 := by
  rw [turn, places, if_pos alone, mul_zero]

theorem transform_known {t : Str} (mem : t ∈ TOKEN_ORDER) (sched : NFETScheduleRow) :
    transform_token t sched = .ok (rotate (ringOf t) (turn t sched) t) := by
  obtain ⟨ring, here⟩ := ringOf_cases mem
  rw [transform_token, ring, ok_bind]
  split
  · rename_i alone
    rw [turn_alone alone, rotate_zero (nodup_ringOf t) here]
    rfl
  · rw [shift_amount, ring]
    rfl

theorem inverse_known {t : Str} (mem : t ∈ TOKEN_ORDER) (sched : NFETScheduleRow) :
    inverse_transform_token t sched = .ok (rotate (ringOf t) (-turn t sched) t) := by
  obtain ⟨ring, here⟩ := ringOf_cases mem
  rw [inverse_transform_token, ring, ok_bind]
  split
  · rename_i alone
    rw [turn_alone alone, neg_zero, rotate_zero (nodup_ringOf t) here]
    rfl
  · rw [shift_amount, ring]
    rfl

theorem rotated_known {t : Str} (mem : t ∈ TOKEN_ORDER) (k : ℤ) :
    rotate (ringOf t) k t ∈ TOKEN_ORDER ∧ ringOf (rotate (ringOf t) k t) = ringOf t :=
  ringOf_mem (rotate_mem (ringOf_cases mem).2 k)

/-- A turn moves a token of a ring that has others. -/
theorem rotate_turn_ne {t : Str} (mem : t ∈ TOKEN_ORDER) (apart : t ≠ SPACE_TOKEN)
    (sched : NFETScheduleRow) : rotate (ringOf t) (turn t sched) t ≠ t ∧
      rotate (ringOf t) (-turn t sched) t ≠ t := by
  have here := (ringOf_cases mem).2
  have size : 1 < (ringOf t).length := by
    unfold ringOf
    split_ifs with letter punct
    · decide
    · decide
    · exact absurd (((token_class t mem).resolve_left letter).resolve_left punct) apart
  have shift : 1 ≤ places (ringOf t).length sched ∧
      places (ringOf t).length sched < (ringOf t).length := by
    rw [places, if_neg (by omega)]
    dsimp only
    have lower := Int.emod_nonneg (sched.transform_bucket * 131 + sched.mask_byte +
      ⌊float (sched.ridge_signal * 1000)⌋ + sched.index * 17)
      (by omega : ((ringOf t).length : ℤ) - 1 ≠ 0)
    have upper := Int.emod_lt_of_pos (sched.transform_bucket * 131 + sched.mask_byte +
      ⌊float (sched.ridge_signal * 1000)⌋ + sched.index * 17)
      (by omega : (0 : ℤ) < (ringOf t).length - 1)
    omega
  have direction (n : Nat) (b : Bool) : signed_direction n b = 1 ∨ signed_direction n b = -1 := by
    unfold signed_direction
    exact ite_eq_or_eq _ _ _
  have partial_ : ¬ ((ringOf t).length : ℤ) ∣ turn t sched := by
    have small : ¬ ((ringOf t).length : ℤ) ∣ places (ringOf t).length sched := by
      intro whole
      have bound := Int.le_of_dvd (by omega) whole
      omega
    rw [turn]
    rcases direction sched.channel_index sched.dummy_insert with forth | back
    · rwa [forth, one_mul]
    · rwa [back, neg_one_mul, dvd_neg]
  exact ⟨Rotation.rotate_ne (nodup_ringOf t) here partial_,
    Rotation.rotate_ne (nodup_ringOf t) here (by rwa [dvd_neg])⟩

/-- Turning a token by a row, and back by the same. -/
theorem turned_token {t : Str} (mem : t ∈ TOKEN_ORDER) (sched : NFETScheduleRow) :
    ∃ u, transform_token t sched = .ok u ∧ inverse_transform_token u sched = .ok t ∧
      token_ring u = token_ring t ∧ (t ≠ SPACE_TOKEN → u ≠ t) := by
  obtain ⟨mem', ring⟩ := rotated_known mem (turn t sched)
  have size : turn (rotate (ringOf t) (turn t sched) t) sched = turn t sched := by
    rw [turn, ring, ← turn]
  refine ⟨_, transform_known mem sched, ?_, ?_, fun apart => (rotate_turn_ne mem apart sched).1⟩
  · rw [inverse_known mem', ring, size, rotate_neg (nodup_ringOf t) (ringOf_cases mem).2]
  · rw [(ringOf_cases mem').1, (ringOf_cases mem).1, ring]

theorem turnedBack_token {t : Str} (mem : t ∈ TOKEN_ORDER) (sched : NFETScheduleRow) :
    ∃ u, inverse_transform_token t sched = .ok u ∧ transform_token u sched = .ok t ∧
      token_ring u = token_ring t ∧ (t ≠ SPACE_TOKEN → u ≠ t) := by
  obtain ⟨mem', ring⟩ := rotated_known mem (-turn t sched)
  have size : turn (rotate (ringOf t) (-turn t sched) t) sched = turn t sched := by
    rw [turn, ring, ← turn]
  have forth := rotate_neg (nodup_ringOf t) (ringOf_cases mem).2 (-turn t sched)
  rw [neg_neg] at forth
  refine ⟨_, inverse_known mem sched, ?_, ?_, fun apart => (rotate_turn_ne mem apart sched).2⟩
  · rw [transform_known mem', ring, size, forth]
  · rw [(ringOf_cases mem').1, (ringOf_cases mem).1, ring]

/-! ## Messages -/

/-- The tokens as the schedule turns them. -/
def turned (tokens : List Str) (rows : List NFETScheduleRow) : List Str :=
  (tokens.zip rows).map fun (t, sched) => rotate (ringOf t) (turn t sched) t

def turnedBack (tokens : List Str) (rows : List NFETScheduleRow) : List Str :=
  (tokens.zip rows).map fun (t, sched) => rotate (ringOf t) (-turn t sched) t

/-- The tokens moved by the differences of the turns of two schedules. -/
def drifted (tokens : List Str) (rows other : List NFETScheduleRow) : List Str :=
  (tokens.zip (rows.zip other)).map fun (t, sched, sched') =>
    rotate (ringOf t) (turn t sched - turn t sched') t

theorem spelled_rotated {β : Type} {tokens : List Str} (h : Spelled tokens) (rows : List β)
    (k : Str → β → ℤ) :
    Spelled ((tokens.zip rows).map fun (t, sched) => rotate (ringOf t) (k t sched) t) := by
  intro u here
  obtain ⟨⟨t, sched⟩, mem, rfl⟩ := List.mem_map.mp here
  exact (rotated_known (h t (List.of_mem_zip mem).1) _).1

theorem spelled_turned {tokens : List Str} (h : Spelled tokens) (rows : List NFETScheduleRow) :
    Spelled (turned tokens rows) :=
  spelled_rotated h rows turn

theorem spelled_turnedBack {tokens : List Str} (h : Spelled tokens) (rows : List NFETScheduleRow) :
    Spelled (turnedBack tokens rows) :=
  spelled_rotated h rows fun t sched => -turn t sched

theorem spelled_drifted {tokens : List Str} (h : Spelled tokens)
    (rows other : List NFETScheduleRow) :
    Spelled (drifted tokens rows other) :=
  spelled_rotated h (rows.zip other) fun t scheds => turn t scheds.1 - turn t scheds.2

theorem turnedBack_turned {tokens : List Str} (h : Spelled tokens)
    (rows other : List NFETScheduleRow) :
    turnedBack (turned tokens rows) other = drifted tokens rows other := by
  induction tokens generalizing rows other with
  | nil => rfl
  | cons t tokens ih =>
    obtain ⟨mem, later⟩ := spelled_cons.mp h
    cases rows with
    | nil => rfl
    | cons sched rows =>
      cases other with
      | nil => rfl
      | cons sched' other =>
        have ring := (rotated_known mem (turn t sched)).2
        have size : turn (rotate (ringOf t) (turn t sched) t) sched' = turn t sched' := by
          rw [turn, ring, ← turn]
        have back : rotate (ringOf t) (-turn t sched') (rotate (ringOf t) (turn t sched) t) =
            rotate (ringOf t) (turn t sched - turn t sched') t := by
          rw [rotate_rotate (nodup_ringOf t) (ringOf_cases mem).2, sub_eq_add_neg]
        have rest := ih later rows other
        simp only [turnedBack, turned, drifted, List.zip_cons_cons, List.map_cons] at rest ⊢
        rw [rest, ring, size, back]

/-- A schedule undoes its own turns. -/
theorem drifted_self {tokens : List Str} (h : Spelled tokens) {rows : List NFETScheduleRow}
    (length : rows.length = tokens.length) : drifted tokens rows rows = tokens := by
  induction tokens generalizing rows with
  | nil => rfl
  | cons t tokens ih =>
    obtain ⟨mem, later⟩ := spelled_cons.mp h
    cases rows with
    | nil => cases length
    | cons sched rows =>
      have rest := ih later (Nat.succ.inj length)
      simp only [drifted, List.zip_cons_cons, List.map_cons, sub_self] at rest ⊢
      rw [rest, rotate_zero (nodup_ringOf t) (ringOf_cases mem).2]

/-- What is traced is spelled in tokens, one to a row. -/
theorem trace_spelled {plaintext master_key nonce context : Str} {config : NFETConfig}
    {trace : NFETTraceResult}
    (h : build_trace plaintext master_key nonce context config = .ok trace) :
    ∃ entries, Entries entries ∧ normalize_plaintext plaintext = .ok (entries.map Prod.snd) ∧
      trace.tokens.flatten = (entries.map Prod.fst).flatten ∧
      LongestMatch.scan SORTED_TOKENS 0 0 (entries.map Prod.fst).flatten = .ok trace.tokens ∧
      Spelled trace.tokens ∧
      build_schedule trace.tokens.length master_key nonce context config =
        .ok ⟨trace.tokens.length, trace.initial_state_hex, trace.rows⟩ := by
  obtain ⟨⟨⟩, -, h⟩ := bind_eq_ok.mp h
  obtain ⟨normalized, canonical, h⟩ := bind_eq_ok.mp h
  obtain ⟨code, encoded, h⟩ := bind_eq_ok.mp h
  obtain ⟨tokens, tokenized, h⟩ := bind_eq_ok.mp h
  obtain ⟨schedule, scheduled, h⟩ := bind_eq_ok.mp h
  cases h
  obtain ⟨entries, all, rfl⟩ := exists_entries canonical
  rw [encode_entries all] at encoded
  cases encoded
  have read := (longestMatch_spelled all.spelled _).mp tokenized
  obtain ⟨flat, known, -⟩ := LongestMatch.scan_eq_ok nonempty_sorted read
  obtain ⟨-, key, drawn, place, -, -, -, count, -⟩ := schedule_eq_ok scheduled
  have whole : schedule = ⟨tokens.length, schedule.initial_state_hex, schedule.rows⟩ := by
    rw [← count]
  rw [whole] at scheduled
  exact ⟨entries, all, canonical, flat, read, fun t mem => mem_sorted.mp (known t mem), scheduled⟩

theorem length_trace {plaintext master_key nonce context : Str} {config : NFETConfig}
    {trace : NFETTraceResult}
    (h : build_trace plaintext master_key nonce context config = .ok trace) :
    trace.rows.length = trace.tokens.length := by
  obtain ⟨-, -, -, -, -, -, scheduled⟩ := trace_spelled h
  exact length_schedule scheduled

/-- What is sent are the turned tokens between bars. -/
theorem apply_transform_of_trace {plaintext master_key nonce context : Str} {config : NFETConfig}
    {trace : NFETTraceResult}
    (traced : build_trace plaintext master_key nonce context config = .ok trace) :
    ∃ result,
      apply_transform_from_plaintext plaintext master_key nonce context config = .ok result ∧
      result.transformed_human = Py.join HUMAN_SEPARATOR (turned trace.tokens trace.rows) := by
  obtain ⟨-, -, -, -, -, spelled_, -⟩ := trace_spelled traced
  have turns : (trace.tokens.zip trace.rows).mapM (fun (token, sched) => do
      let transformed ← transform_token token sched
      let recovered ← inverse_transform_token transformed sched
      return (transformed, recovered)) = .ok ((trace.tokens.zip trace.rows).map fun (t, sched) =>
        (rotate (ringOf t) (turn t sched) t, t)) := by
    apply mapM_of_ok
    rintro ⟨t, sched⟩ mem
    have known := spelled_ t (List.of_mem_zip mem).1
    obtain ⟨known', ring⟩ := rotated_known known (turn t sched)
    have back : turn (rotate (ringOf t) (turn t sched) t) sched = turn t sched := by
      rw [turn, ring, ← turn]
    simp only [transform_known known, ok_bind, inverse_known known', ring, back,
      rotate_neg (nodup_ringOf t) (ringOf_cases known).2]
    rfl
  have sent : ((trace.tokens.zip trace.rows).map fun (t, sched) =>
      (rotate (ringOf t) (turn t sched) t, t)).map Prod.fst = turned trace.tokens trace.rows := by
    rw [List.map_map]
    rfl
  have recovered : Spelled (((trace.tokens.zip trace.rows).map fun (t, sched) =>
      (rotate (ringOf t) (turn t sched) t, t)).map Prod.snd) := by
    intro t here
    rw [List.map_map] at here
    obtain ⟨⟨u, sched⟩, mem, rfl⟩ := List.mem_map.mp here
    exact spelled_ u (List.of_mem_zip mem).1
  have known := spelled_turned spelled_ trace.rows
  obtain ⟨read, -, -, -, decoded⟩ := exists_read recovered
  rw [apply_transform_from_plaintext, traced, ok_bind, turns, ok_bind, sent]
  dsimp only
  rw [untokenize_spelled spelled_, ok_bind, untokenize_spelled known, ok_bind,
    untokenize_spelled recovered, ok_bind, render_spelled spelled_, ok_bind, render_spelled known,
    ok_bind, render_spelled recovered, ok_bind, decoded]
  exact ⟨_, rfl, rfl⟩

theorem apply_transform_eq_ok {plaintext master_key nonce context : Str} {config : NFETConfig}
    {result : TransformResult}
    (h : apply_transform_from_plaintext plaintext master_key nonce context config = .ok result) :
    ∃ trace, build_trace plaintext master_key nonce context config = .ok trace ∧
      result.transformed_human = Py.join HUMAN_SEPARATOR (turned trace.tokens trace.rows) := by
  obtain ⟨trace, traced, -⟩ := bind_eq_ok.mp h
  obtain ⟨result', applied, human⟩ := apply_transform_of_trace traced
  cases h.symm.trans applied
  exact ⟨trace, traced, human⟩

/-- What is received is turned back and decoded, by any schedule there is. -/
theorem reverse_transform_rendered {tokens : List Str} (h : Spelled tokens)
    {master_key nonce context : Str} {config : NFETConfig} {schedule : NFETScheduleResult}
    (scheduled : build_schedule tokens.length master_key nonce context config = .ok schedule) :
    ∃ result, reverse_transform_from_bry (Py.join HUMAN_SEPARATOR tokens) master_key nonce context
        config = .ok result ∧
      result.original_human = Py.join HUMAN_SEPARATOR (turnedBack tokens schedule.rows) ∧
      decode_from_bry (turnedBack tokens schedule.rows).flatten =
        .ok result.recovered_plaintext := by
  have turns : (tokens.zip schedule.rows).mapM (fun (token, sched) => do
      let recovered ← inverse_transform_token token sched
      let reforward ← transform_token recovered sched
      return (recovered, reforward)) = .ok ((tokens.zip schedule.rows).map fun (t, sched) =>
        (rotate (ringOf t) (-turn t sched) t, t)) := by
    apply mapM_of_ok
    rintro ⟨t, sched⟩ mem
    have known := h t (List.of_mem_zip mem).1
    obtain ⟨known', ring⟩ := rotated_known known (-turn t sched)
    have forth : turn (rotate (ringOf t) (-turn t sched) t) sched = turn t sched := by
      rw [turn, ring, ← turn]
    have undone := rotate_neg (nodup_ringOf t) (ringOf_cases known).2 (-turn t sched)
    rw [neg_neg] at undone
    simp only [inverse_known known, ok_bind, transform_known known', ring, forth, undone]
    rfl
  have recovered : ((tokens.zip schedule.rows).map fun (t, sched) =>
      (rotate (ringOf t) (-turn t sched) t, t)).map Prod.fst = turnedBack tokens schedule.rows := by
    rw [List.map_map]
    rfl
  have reforward : Spelled (((tokens.zip schedule.rows).map fun (t, sched) =>
      (rotate (ringOf t) (-turn t sched) t, t)).map Prod.snd) := by
    intro t here
    rw [List.map_map] at here
    obtain ⟨⟨u, sched⟩, mem, rfl⟩ := List.mem_map.mp here
    exact h u (List.of_mem_zip mem).1
  have known := spelled_turnedBack h schedule.rows
  obtain ⟨read, -, -, -, decoded⟩ := exists_read known
  rw [reverse_transform_from_bry, parse_rendered h, ok_bind, scheduled, ok_bind, turns,
    ok_bind, recovered]
  dsimp only
  rw [untokenize_spelled known, ok_bind, untokenize_spelled h, ok_bind, render_spelled known,
    ok_bind, render_spelled h, ok_bind, ok_bind, decoded, ok_bind, untokenize_spelled reforward]
  exact ⟨_, rfl, rfl, rfl⟩

theorem reverse_transform_eq_ok {tokens : List Str} (h : Spelled tokens)
    {master_key nonce context : Str} {config : NFETConfig} {result : TransformResult}
    (done : reverse_transform_from_bry (Py.join HUMAN_SEPARATOR tokens) master_key nonce context
      config = .ok result) :
    ∃ schedule, build_schedule tokens.length master_key nonce context config = .ok schedule := by
  rw [reverse_transform_from_bry, parse_rendered h, ok_bind] at done
  obtain ⟨schedule, scheduled, -⟩ := bind_eq_ok.mp done
  exact ⟨schedule, scheduled⟩

end Qev.Bry
