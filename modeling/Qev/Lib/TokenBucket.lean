import Mathlib.Algebra.Order.Field.Basic
import Mathlib.Tactic.Linarith
import Mathlib.Tactic.Positivity

/-! Token buckets over a linearly ordered field: a bucket fills at a rate, up to a
cap, and an attempt succeeds where it takes a whole token. -/

namespace Qev

structure TokenBucket (K : Type) where
  tokens : K
  last : K

namespace TokenBucket

variable {K : Type} [Field K] [LinearOrder K]

/-- The bucket at `now`. -/
def refill (rate cap : K) (b : TokenBucket K) (now : K) : TokenBucket K :=
  ⟨min (b.tokens + max (now - b.last) 0 * rate) cap, now⟩

def succeeds (rate cap : K) (b : TokenBucket K) (now : K) : Bool :=
  decide (1 ≤ (b.refill rate cap now).tokens)

/-- One attempt at `now`. -/
def attempt (rate cap : K) (b : TokenBucket K) (now : K) : TokenBucket K :=
  if b.succeeds rate cap now then ⟨(b.refill rate cap now).tokens - 1, now⟩
  else b.refill rate cap now

/-- How many of the attempts at these times succeed that satisfy `p`. -/
def successes (rate cap : K) (p : K → Bool) : TokenBucket K → List K → Nat
  | _, [] => 0
  | b, now :: later => (if p now ∧ b.succeeds rate cap now then 1 else 0) +
      successes rate cap p (b.attempt rate cap now) later

/-- A bucket whose tokens are within bounds. -/
def Valid (cap : K) (b : TokenBucket K) : Prop := 0 ≤ b.tokens ∧ b.tokens ≤ cap

variable {rate cap : K} {b : TokenBucket K} {now : K}

theorem attempt_last : (b.attempt rate cap now).last = now := by
  unfold attempt
  split <;> rfl

/-- At the instant of the last attempt nothing has come in since. -/
theorem refill_last (within : b.tokens ≤ cap) : b.refill rate cap b.last = b := by
  simp [refill, within]

theorem successes_eq_zero {p : K → Bool} {times : List K} (none : ∀ t ∈ times, p t = false) :
    successes rate cap p b times = 0 := by
  induction times generalizing b with
  | nil => rfl
  | cons t times ih =>
    have here := none t List.mem_cons_self
    rw [successes, ih fun t' mem => none t' (List.mem_cons_of_mem _ mem)]
    simp [here]

/-- Nothing after `stop` is in a window that ends there. -/
theorem successes_past {start stop t : K} {times : List K} (sorted : (t :: times).Pairwise (· ≤ ·))
    (past : stop < t) :
    successes rate cap (fun t => decide (start ≤ t ∧ t ≤ stop)) b (t :: times) = 0 := by
  refine successes_eq_zero fun t' mem => ?_
  have le : t ≤ t' := by
    rcases List.mem_cons.mp mem with rfl | mem
    · exact le_refl _
    · exact (List.pairwise_cons.mp sorted).1 t' mem
  simp only [decide_eq_false_iff_not, not_and, not_le]
  intro _
  exact lt_of_lt_of_le past le

theorem attempt_tokens_le_cap : (if b.succeeds rate cap now then 1 else 0) +
    (b.attempt rate cap now).tokens ≤ cap := by
  have filled : (b.refill rate cap now).tokens ≤ cap := min_le_right _ _
  unfold attempt
  split_ifs with h
  · simpa using filled
  · simpa using filled

variable [IsStrictOrderedRing K]

theorem refill_valid (rate_nonneg : 0 ≤ rate) (valid : b.Valid cap) :
    (b.refill rate cap now).Valid cap := by
  have gained : 0 ≤ max (now - b.last) 0 * rate := mul_nonneg (le_max_right _ _) rate_nonneg
  have cap_nonneg : 0 ≤ cap := le_trans valid.1 valid.2
  exact ⟨le_min (add_nonneg valid.1 gained) cap_nonneg, min_le_right _ _⟩

theorem attempt_valid (rate_nonneg : 0 ≤ rate) (valid : b.Valid cap) :
    (b.attempt rate cap now).Valid cap := by
  have filled : (b.refill rate cap now).Valid cap := refill_valid rate_nonneg valid
  unfold attempt
  split_ifs with h
  · have enough : 1 ≤ (b.refill rate cap now).tokens := of_decide_eq_true h
    refine ⟨sub_nonneg.mpr enough, ?_⟩
    exact le_trans (sub_le_self _ zero_le_one) filled.2
  · exact filled

/-- What an attempt takes and leaves is at most what was there and what came in. -/
theorem attempt_tokens (later : b.last ≤ now) :
    (if b.succeeds rate cap now then 1 else 0) + (b.attempt rate cap now).tokens ≤
      b.tokens + (now - b.last) * rate := by
  have filled : (b.refill rate cap now).tokens ≤ b.tokens + (now - b.last) * rate := by
    have least : (b.refill rate cap now).tokens ≤ b.tokens + max (now - b.last) 0 * rate :=
      min_le_left _ _
    rwa [max_eq_left (sub_nonneg.mpr later)] at least
  unfold attempt
  split_ifs with h
  · simpa using filled
  · simpa using filled

/-- Up to `stop`, the attempts take at most what is there and what comes in. -/
theorem successes_until {start stop : K} {times : List K} (rate_nonneg : 0 ≤ rate)
    (valid : b.Valid cap) (ordered : (b.last :: times).Pairwise (· ≤ ·)) (open_ : b.last ≤ stop) :
    (successes rate cap (fun t => decide (start ≤ t ∧ t ≤ stop)) b times : K) ≤
      b.tokens + (stop - b.last) * rate := by
  induction times generalizing b with
  | nil =>
    have gained : 0 ≤ (stop - b.last) * rate := mul_nonneg (sub_nonneg.mpr open_) rate_nonneg
    simpa [successes] using add_nonneg valid.1 gained
  | cons t times ih =>
    obtain ⟨after_last, sorted⟩ := List.pairwise_cons.mp ordered
    have first := after_last t List.mem_cons_self
    by_cases inside : t ≤ stop
    · have sorted' : ((b.attempt rate cap t).last :: times).Pairwise (· ≤ ·) := by
        rwa [attempt_last]
      have later := ih (attempt_valid rate_nonneg valid) sorted' (by rwa [attempt_last])
      have taken : _ + (b.attempt rate cap t).tokens ≤ _ := attempt_tokens first
      rw [attempt_last] at later
      have counted : ((if decide (start ≤ t ∧ t ≤ stop) = true ∧ b.succeeds rate cap t = true
          then 1 else 0 : Nat) : K) ≤ if b.succeeds rate cap t then 1 else 0 := by
        split_ifs with both succeeds
        · simp
        · exact absurd both.2 succeeds
        · simp
        · simp
      rw [successes, Nat.cast_add]
      linarith
    · rw [successes_past sorted (not_le.mp inside), Nat.cast_zero]
      exact add_nonneg valid.1 (mul_nonneg (sub_nonneg.mpr open_) rate_nonneg)

/-- In a window the attempts take at most a full bucket and what comes in. -/
theorem successes_window {start length : K} {times : List K} (rate_nonneg : 0 ≤ rate)
    (valid : b.Valid cap) (ordered : times.Pairwise (· ≤ ·)) (length_nonneg : 0 ≤ length) :
    (successes rate cap (fun t => decide (start ≤ t ∧ t ≤ start + length)) b times : K) ≤
      cap + length * rate := by
  induction times generalizing b with
  | nil =>
    have cap_nonneg : 0 ≤ cap := le_trans valid.1 valid.2
    simpa [successes] using add_nonneg cap_nonneg (mul_nonneg length_nonneg rate_nonneg)
  | cons t times ih =>
    obtain ⟨first, sorted⟩ := List.pairwise_cons.mp ordered
    by_cases before : t < start
    · have outside : ¬ (start ≤ t ∧ t ≤ start + length) := fun h => absurd h.1 (not_le.mpr before)
      simpa [successes, outside] using ih (attempt_valid rate_nonneg valid) sorted
    · by_cases inside : t ≤ start + length
      · have sorted' : ((b.attempt rate cap t).last :: times).Pairwise (· ≤ ·) := by
          rwa [attempt_last]
        have remains : (b.attempt rate cap t).last ≤ start + length := by
          rw [attempt_last]
          exact inside
        have later : (successes rate cap (fun t => decide (start ≤ t ∧ t ≤ start + length))
            (b.attempt rate cap t) times : K) ≤ _ :=
          successes_until rate_nonneg (attempt_valid rate_nonneg valid) sorted' remains
        have taken : _ + (b.attempt rate cap t).tokens ≤ cap := attempt_tokens_le_cap
        have within : (start + length - t) * rate ≤ length * rate :=
          mul_le_mul_of_nonneg_right (by linarith [not_lt.mp before]) rate_nonneg
        have counted : (start ≤ t ∧ t ≤ start + length) := ⟨not_lt.mp before, inside⟩
        rw [attempt_last] at later
        rw [successes, Nat.cast_add]
        simp only [counted, and_self, decide_true, true_and] at later ⊢
        push_cast
        linarith
      · have cap_nonneg : 0 ≤ cap := le_trans valid.1 valid.2
        rw [successes_past ordered (not_le.mp inside), Nat.cast_zero]
        exact add_nonneg cap_nonneg (mul_nonneg length_nonneg rate_nonneg)

end TokenBucket

end Qev
