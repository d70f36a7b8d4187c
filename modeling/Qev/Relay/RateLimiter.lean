import Mathlib.Tactic.FieldSimp
import Mathlib.Tactic.Linarith
import Mathlib.Tactic.Positivity
import Qev.Relay.Message
import Qev.Lib.HashMap

/-! `RateLimiter` of `service.rs`: a token bucket for each key. Instants and
tokens are exact numbers of seconds and tokens. -/

namespace Qev.Relay

structure RateBucket where
  tokens : ℚ
  last : ℚ

structure RateLimiter where
  buckets : HashMap Pk RateBucket
  max_per_minute : Nat

namespace RateLimiter

def new (max_per_minute : Nat) : RateLimiter := ⟨.empty, max_per_minute⟩

/-- The bucket of `pk`, refilled up to `now`. -/
def refill (l : RateLimiter) (pk : Pk) (now : ℚ) : RateBucket :=
  let refill_rate : ℚ := l.max_per_minute / 60
  let bucket := (l.buckets.get pk).getD ⟨l.max_per_minute, now⟩
  let elapsed := max (now - bucket.last) 0
  ⟨min (bucket.tokens + elapsed * refill_rate) l.max_per_minute, now⟩

def check (l : RateLimiter) (pk : Pk) (now : ℚ) : RateLimiter × Except String Unit :=
  let bucket := l.refill pk now
  if bucket.tokens ≥ 1 then
    ({ l with buckets := l.buckets.insert pk { bucket with tokens := bucket.tokens - 1 } }, .ok ())
  else
    ({ l with buckets := l.buckets.insert pk bucket },
      .error s!"rate limited: max {l.max_per_minute} per minute")

def Admits (l : RateLimiter) (pk : Pk) (now : ℚ) : Prop := (l.refill pk now).tokens ≥ 1

instance (l : RateLimiter) (pk : Pk) (now : ℚ) : Decidable (l.Admits pk now) :=
  inferInstanceAs (Decidable ((l.refill pk now).tokens ≥ 1))

theorem check_admits {l : RateLimiter} {pk : Pk} {now : ℚ} (h : l.Admits pk now) :
    (l.check pk now).2 = .ok () := by
  have enough : (l.refill pk now).tokens ≥ 1 := h
  simp only [check]
  rw [if_pos enough]

theorem check_refuses {l : RateLimiter} {pk : Pk} {now : ℚ} (h : ¬ l.Admits pk now) :
    (l.check pk now).2 = .error s!"rate limited: max {l.max_per_minute} per minute" := by
  have short : ¬ (l.refill pk now).tokens ≥ 1 := h
  simp only [check]
  rw [if_neg short]

@[simp] theorem check_max_per_minute (l : RateLimiter) (pk : Pk) (now : ℚ) :
    (l.check pk now).1.max_per_minute = l.max_per_minute := by
  simp only [check]
  split <;> rfl

theorem admits_new (max_per_minute : Nat) (h : 0 < max_per_minute) (pk : Pk) (now : ℚ) :
    (new max_per_minute).Admits pk now := by
  have one : (1 : ℚ) ≤ max_per_minute := by exact_mod_cast h
  simpa [Admits, refill, new] using one

/-- A limiter that lets anything through lets every key through again, once
enough time has passed. -/
theorem admits_later (l : RateLimiter) (h : 0 < l.max_per_minute) (pk : Pk) :
    ∃ now, l.Admits pk now := by
  have one : (1 : ℚ) ≤ l.max_per_minute := by exact_mod_cast h
  have rate : (0 : ℚ) < l.max_per_minute / 60 := by positivity
  cases hb : l.buckets.get pk with
  | none => exact ⟨0, by simpa [Admits, refill, hb] using one⟩
  | some bucket =>
    refine ⟨bucket.last + |1 - bucket.tokens| / (l.max_per_minute / 60), ?_⟩
    have wait : 0 ≤ |1 - bucket.tokens| / ((l.max_per_minute : ℚ) / 60) := by positivity
    simp only [Admits, refill, hb, Option.getD_some, add_sub_cancel_left, max_eq_left wait,
      div_mul_cancel₀ _ rate.ne']
    have enough : 1 ≤ bucket.tokens + |1 - bucket.tokens| := by
      have := le_abs_self (1 - bucket.tokens)
      linarith
    exact le_min enough one

end RateLimiter

end Qev.Relay
