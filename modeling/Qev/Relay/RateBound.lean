import Qev.Lib.Run
import Qev.Lib.TokenBucket
import Qev.Relay.RateLimiter

/-! How many calls of one key the limiter lets through in a window of time. -/

namespace Qev.Relay

/-- One call of `check`. -/
structure RateCall where
  pk : Pk
  now : ℚ

namespace RateLimiter

def call (l : RateLimiter) (c : RateCall) : RateLimiter := (l.check c.pk c.now).1

def after (l : RateLimiter) (calls : List RateCall) : RateLimiter := run call l calls

/-- The calls with what each of them returns. -/
def decisions : RateLimiter → List RateCall → List (RateCall × Except String Unit)
  | _, [] => []
  | l, c :: calls => (c, (l.check c.pk c.now).2) :: decisions (l.call c) calls

/-- How many calls of `pk` between `start` and `stop` are let through. -/
def admitted (l : RateLimiter) (calls : List RateCall) (pk : Pk) (start stop : ℚ) : Nat :=
  (l.decisions calls).countP fun d =>
    decide (d.1.pk = pk ∧ start ≤ d.1.now ∧ d.1.now ≤ stop) && d.2.isOk

/-! ## The bucket of one key -/

/-- The bucket of `pk`; a key without one has a full bucket. -/
def bucket (l : RateLimiter) (pk : Pk) : TokenBucket ℚ :=
  match l.buckets.get pk with
  | some b => ⟨b.tokens, b.last⟩
  | none => ⟨l.max_per_minute, 0⟩

def rate (l : RateLimiter) : ℚ := l.max_per_minute / 60

theorem rate_nonneg (l : RateLimiter) : 0 ≤ l.rate := by
  unfold rate
  positivity

theorem refill_bucket (l : RateLimiter) (pk : Pk) (now : ℚ) :
    (l.refill pk now).tokens =
      ((l.bucket pk).refill l.rate l.max_per_minute now).tokens := by
  cases known : l.buckets.get pk with
  | some b => simp [refill, bucket, TokenBucket.refill, rate, known]
  | none =>
    have gained : 0 ≤ max now 0 * l.rate := mul_nonneg (le_max_right _ _) l.rate_nonneg
    simp [refill, bucket, TokenBucket.refill, known, gained]

theorem admits_iff (l : RateLimiter) (pk : Pk) (now : ℚ) :
    l.Admits pk now ↔ (l.bucket pk).succeeds l.rate l.max_per_minute now = true := by
  rw [Admits, refill_bucket, TokenBucket.succeeds, decide_eq_true_iff]

@[simp] theorem call_max_per_minute (l : RateLimiter) (c : RateCall) :
    (l.call c).max_per_minute = l.max_per_minute := check_max_per_minute l c.pk c.now

@[simp] theorem call_rate (l : RateLimiter) (c : RateCall) : (l.call c).rate = l.rate := by
  rw [rate, call_max_per_minute, rate]

theorem call_buckets (l : RateLimiter) (c : RateCall) :
    (l.call c).buckets = l.buckets.insert c.pk
      (if l.Admits c.pk c.now then
        { l.refill c.pk c.now with tokens := (l.refill c.pk c.now).tokens - 1 }
      else l.refill c.pk c.now) := by
  by_cases admits : l.Admits c.pk c.now
  · have enough : (l.refill c.pk c.now).tokens ≥ 1 := admits
    simp only [call, check, if_pos enough, if_pos admits]
  · have short : ¬ (l.refill c.pk c.now).tokens ≥ 1 := admits
    simp only [call, check, if_neg short, if_neg admits]

theorem refill_eq (l : RateLimiter) (pk : Pk) (now : ℚ) :
    (⟨(l.refill pk now).tokens, (l.refill pk now).last⟩ : TokenBucket ℚ) =
      (l.bucket pk).refill l.rate l.max_per_minute now := by
  rw [refill_bucket]
  rfl

/-- A call is an attempt on the bucket of its key and on no other. -/
theorem call_bucket (l : RateLimiter) (c : RateCall) (pk : Pk) :
    (l.call c).bucket pk =
      if c.pk = pk then (l.bucket pk).attempt l.rate l.max_per_minute c.now else l.bucket pk := by
  by_cases same : c.pk = pk
  · subst same
    have filled := refill_eq l c.pk c.now
    rw [if_pos rfl, bucket, call_buckets, HashMap.get_insert_self]
    by_cases admits : l.Admits c.pk c.now
    · have succeeds := (admits_iff l c.pk c.now).mp admits
      rw [TokenBucket.attempt, if_pos succeeds, ← filled]
      simp only [if_pos admits]
      rfl
    · have fails := mt (admits_iff l c.pk c.now).mpr admits
      rw [TokenBucket.attempt, if_neg fails, ← filled]
      simp only [if_neg admits]
  · have other : pk ≠ c.pk := fun h => same h.symm
    rw [if_neg same, bucket, call_buckets, HashMap.get_insert, if_neg other, call_max_per_minute]
    rfl

/-- What a call returns depends on the bucket of its key. -/
theorem check_congr {l l' : RateLimiter} {pk : Pk} (same_max : l.max_per_minute = l'.max_per_minute)
    (same : l.bucket pk = l'.bucket pk) (now : ℚ) : (l.check pk now).2 = (l'.check pk now).2 := by
  have same_rate : l.rate = l'.rate := by rw [rate, same_max, rate]
  by_cases admits : l.Admits pk now
  · have admits' : l'.Admits pk now := by
      rwa [admits_iff, ← same, ← same_rate, ← same_max, ← admits_iff]
    rw [check_admits admits, check_admits admits']
  · have refuses : ¬ l'.Admits pk now := by
      rwa [admits_iff, ← same, ← same_rate, ← same_max, ← admits_iff]
    rw [check_refuses admits, check_refuses refuses, same_max]

/-! ## A run of calls -/

theorem decisions_congr {l l' : RateLimiter} {pk : Pk}
    (same_max : l.max_per_minute = l'.max_per_minute) (same : l.bucket pk = l'.bucket pk)
    (calls : List RateCall) :
    (l.decisions calls).filter (·.1.pk = pk) = l'.decisions (calls.filter (·.pk = pk)) := by
  induction calls generalizing l l' with
  | nil => rfl
  | cons c calls ih =>
    by_cases own : c.pk = pk
    · have here := check_congr same_max same c.now
      have later : (l.call c).bucket pk = (l'.call c).bucket pk := by
        rw [call_bucket, call_bucket, if_pos own, if_pos own, same, rate, same_max, rate]
      rw [List.filter_cons_of_pos (by simpa using own), decisions, decisions,
        List.filter_cons_of_pos (by simpa using own), ih (by simpa using same_max) later, own, here]
    · have later : (l.call c).bucket pk = l'.bucket pk := by
        rw [call_bucket, if_neg own, same]
      rw [List.filter_cons_of_neg (by simpa using own), decisions,
        List.filter_cons_of_neg (by simpa using own), ih (by simpa using same_max) later]

theorem admitted_eq (l : RateLimiter) (calls : List RateCall) (pk : Pk) (start stop : ℚ) :
    l.admitted calls pk start stop =
      TokenBucket.successes l.rate l.max_per_minute (fun t => decide (start ≤ t ∧ t ≤ stop))
        (l.bucket pk) ((calls.filter (·.pk = pk)).map (·.now)) := by
  induction calls generalizing l with
  | nil => rfl
  | cons c calls ih =>
    have later := ih (l.call c)
    rw [call_rate, call_max_per_minute, call_bucket] at later
    rw [admitted, decisions, List.countP_cons, ← admitted, later]
    by_cases own : c.pk = pk
    · subst own
      rw [if_pos rfl, List.filter_cons_of_pos (by simp), List.map_cons, TokenBucket.successes,
        Nat.add_comm]
      congr 1
      by_cases admits : l.Admits c.pk c.now
      · have succeeds := (admits_iff l c.pk c.now).mp admits
        simp [check_admits admits, succeeds, Except.isOk, Except.toBool]
      · have fails := mt (admits_iff l c.pk c.now).mpr admits
        simp [check_refuses admits, fails, Except.isOk, Except.toBool]
    · rw [if_neg own, List.filter_cons_of_neg (by simpa using own)]
      simp [own]

theorem bucket_after_valid (l : RateLimiter)
    (start : ∀ pk, (l.bucket pk).Valid (l.max_per_minute : ℚ))
    (calls : List RateCall) :
    (l.after calls).max_per_minute = l.max_per_minute ∧
      ∀ pk, ((l.after calls).bucket pk).Valid (l.max_per_minute : ℚ) := by
  refine Run.invariant
    (P := fun _ (s : RateLimiter) => s.max_per_minute = l.max_per_minute ∧
      ∀ pk, (s.bucket pk).Valid (l.max_per_minute : ℚ)) ⟨rfl, start⟩ ?_ calls
  intro events c ⟨same_max, valid⟩
  refine ⟨by rw [call_max_per_minute, same_max], fun pk => ?_⟩
  rw [call_bucket]
  split
  · rw [same_max]
    exact TokenBucket.attempt_valid (rate_nonneg _) (valid pk)
  · exact valid pk

theorem new_valid (max_per_minute : Nat) (pk : Pk) :
    ((new max_per_minute).bucket pk).Valid (max_per_minute : ℚ) := by
  simp [new, bucket, TokenBucket.Valid]

/-- After `n` calls of one key at one instant, `n` tokens are gone. -/
theorem after_replicate {max_per_minute n : Nat} (pk : Pk) (few : n ≤ max_per_minute) :
    ((new max_per_minute).after (.replicate n ⟨pk, 0⟩)).bucket pk = ⟨max_per_minute - n, 0⟩ := by
  induction n with
  | zero => simp [after, new, bucket]
  | succ n ih =>
    have before := ih (by omega)
    have same_max := (bucket_after_valid _ (new_valid max_per_minute) (.replicate n ⟨pk, 0⟩)).1
    have enough : (1 : ℚ) ≤ max_per_minute - n := by
      rw [le_sub_iff_add_le, add_comm]
      exact_mod_cast few
    have within : (max_per_minute : ℚ) - n ≤ max_per_minute := sub_le_self _ n.cast_nonneg
    have still : TokenBucket.refill ((max_per_minute : ℚ) / 60) max_per_minute
        ⟨max_per_minute - n, 0⟩ 0 = ⟨max_per_minute - n, 0⟩ := TokenBucket.refill_last within
    rw [List.replicate_succ', after, Run.snoc, ← after, call_bucket, if_pos rfl, before, rate,
      same_max, TokenBucket.attempt, TokenBucket.succeeds]
    rw [show (new max_per_minute).max_per_minute = max_per_minute from rfl, still]
    simp only [decide_eq_true enough, if_true]
    rw [Nat.cast_add_one, sub_sub]

/-- The call after `n` calls of one key at one instant. -/
theorem admits_after_replicate {max_per_minute n : Nat} (pk : Pk) (few : n ≤ max_per_minute) :
    ((new max_per_minute).after (.replicate n ⟨pk, 0⟩)).Admits pk 0 ↔ n < max_per_minute := by
  have same_max := (bucket_after_valid _ (new_valid max_per_minute) (.replicate n ⟨pk, 0⟩)).1
  have within : (max_per_minute : ℚ) - n ≤ max_per_minute := sub_le_self _ n.cast_nonneg
  have still : TokenBucket.refill ((max_per_minute : ℚ) / 60) max_per_minute
      ⟨max_per_minute - n, 0⟩ 0 = ⟨max_per_minute - n, 0⟩ := TokenBucket.refill_last within
  rw [admits_iff, after_replicate pk few, rate, same_max, TokenBucket.succeeds]
  rw [show (new max_per_minute).max_per_minute = max_per_minute from rfl, still]
  rw [decide_eq_true_iff, le_sub_iff_add_le, add_comm]
  exact_mod_cast Nat.succ_le_iff

/-- In a window of `T` seconds a key gets at most a full bucket and what `T`
seconds bring; its bucket stays within bounds, and other keys do not matter. -/
theorem rate_limiter_bound (max_per_minute : Nat) {calls : List RateCall}
    (ordered : calls.Pairwise (·.now ≤ ·.now)) (pk : Pk) :
    (∀ start T, 0 ≤ T →
      ((new max_per_minute).admitted calls pk start (start + T) : ℚ) ≤
        max_per_minute + T * max_per_minute / 60) ∧
    (∀ b, ((new max_per_minute).after calls).buckets.get pk = some b →
      0 ≤ b.tokens ∧ b.tokens ≤ max_per_minute) ∧
    ∀ other : List RateCall, other.filter (·.pk = pk) = calls.filter (·.pk = pk) →
      ((new max_per_minute).decisions other).filter (·.1.pk = pk) =
        ((new max_per_minute).decisions calls).filter (·.1.pk = pk) := by
  have valid := new_valid max_per_minute
  refine ⟨?_, ?_, ?_⟩
  · intro start T nonneg
    have sorted : ((calls.filter (·.pk = pk)).map (·.now)).Pairwise (· ≤ ·) :=
      List.pairwise_map.mpr (ordered.sublist List.filter_sublist)
    rw [admitted_eq]
    calc _ ≤ (max_per_minute : ℚ) + T * (new max_per_minute).rate :=
          TokenBucket.successes_window (rate_nonneg (new max_per_minute)) (valid pk) sorted nonneg
      _ = max_per_minute + T * max_per_minute / 60 := by rw [rate, mul_div_assoc]; rfl
  · intro b found
    have kept := (bucket_after_valid (new max_per_minute) valid calls).2 pk
    rw [bucket, found] at kept
    exact kept
  · intro other same
    rw [decisions_congr rfl rfl, decisions_congr rfl rfl, same]

theorem rate_limiter_bound_of_three :
    ((new 1).admitted [⟨.fill _ 1, 0⟩, ⟨.fill _ 2, 15⟩, ⟨.fill _ 1, 30⟩] (.fill _ 1) 0
      (0 + 30) : ℚ) ≤ (1 : Nat) + 30 * (1 : Nat) / 60 :=
  (rate_limiter_bound 1 (by norm_num) (.fill _ 1)).1 0 30 (by norm_num)

end RateLimiter

end Qev.Relay
