import Qev.Lib.Decimal

/-! Whole numbers below 2^53 in double precision: each is held exactly, and the
shortest numeral of one is its digits. -/

namespace Qev.Double

/-- The bits of a whole number that has its leading bit at `e`. -/
def wholeBits (e n : Nat) : Nat := (e + 1022) * 2 ^ 52 + n * 2 ^ (52 - e)

theorem scaled_lt {e n : Nat} (exponent : e ≤ 52) (upper : n < 2 ^ (e + 1)) :
    n * 2 ^ (52 - e) < 2 ^ 53 := by
  have split : (2 : Nat) ^ (e + 1) * 2 ^ (52 - e) = 2 ^ 53 := by
    rw [← pow_add]
    congr 1
    omega
  rw [← split]
  exact Nat.mul_lt_mul_of_pos_right upper (Nat.two_pow_pos _)

theorem wholeBits_lt {e n : Nat} (exponent : e ≤ 52) (upper : n < 2 ^ (e + 1)) :
    wholeBits e n < 1076 * 2 ^ 52 := by
  have below := scaled_lt exponent upper
  rw [wholeBits]
  omega

theorem magnitude_wholeBits {e n : Nat} (exponent : e ≤ 52) (lower : 2 ^ e ≤ n)
    (upper : n < 2 ^ (e + 1)) : magnitude (wholeBits e n) = n := by
  have split : (2 : Nat) ^ e * 2 ^ (52 - e) = 2 ^ 52 := by
    rw [← pow_add]
    congr 1
    omega
  have above : 2 ^ 52 ≤ n * 2 ^ (52 - e) := by
    rw [← split]
    exact Nat.mul_le_mul_right _ lower
  have below := scaled_lt exponent upper
  have exact : field (wholeBits e n) = e + 1023 := by
    simp only [field, wholeBits]
    omega
  have fraction : mantissa (wholeBits e n) = n * 2 ^ (52 - e) := by
    rw [mantissa, exact, wholeBits]
    omega
  have shift : (2 : ℚ) ^ (52 - e) * 2 ^ (((e + 1023 : Nat) : ℤ) - 1075) = 1 := by
    rw [← zpow_natCast, ← zpow_add₀ (by norm_num)]
    rw [Nat.cast_sub exponent]
    push_cast
    ring_nf
    rfl
  rw [magnitude, exact, fraction]
  push_cast
  rw [mul_assoc]
  push_cast at shift
  rw [shift, mul_one]

/-- Every whole number below 2^53 is some magnitude. -/
theorem exists_magnitude {n : Nat} (small : n < 2 ^ 53) :
    ∃ bits < 1076 * 2 ^ 52, magnitude bits = n := by
  rcases Nat.eq_zero_or_pos n with rfl | positive
  · exact ⟨0, by norm_num, by simp [magnitude, mantissa]⟩
  · have nonzero := Nat.pos_iff_ne_zero.mp positive
    have lower := Nat.pow_log_le_self 2 nonzero
    have upper := Nat.lt_pow_succ_log_self Nat.one_lt_two n
    have exponent : Nat.log 2 n < 53 := Nat.log_lt_of_lt_pow nonzero small
    have room := wholeBits_lt (Nat.le_of_lt_succ exponent) upper
    exact ⟨_, room, magnitude_wholeBits (Nat.le_of_lt_succ exponent) lower upper⟩

theorem floor_le_roundHalfEven (q : ℚ) : ⌊q⌋ ≤ roundHalfEven q := by
  rw [roundHalfEven]
  split_ifs <;> omega

/-- A number above 2^53 rounds to more than any whole number below it. -/
theorem le_nearest {m : Nat} (large : 2 ^ 53 ≤ m) : 1076 * 2 ^ 52 ≤ nearest m := by
  have positive : 0 < (m : ℚ) := by
    exact_mod_cast Nat.lt_of_lt_of_le (Nat.two_pow_pos 53) large
  have normal : ¬ (m : ℚ) < 2 ^ (-1022 : ℤ) := by
    rw [not_lt]
    calc (2 : ℚ) ^ (-1022 : ℤ) ≤ 2 ^ (53 : ℤ) := zpow_le_zpow_right₀ (by norm_num) (by norm_num)
      _ ≤ m := by exact_mod_cast large
  have bound : 53 ≤ Int.log 2 (m : ℚ) := by
    rw [← Int.zpow_le_iff_le_log Nat.one_lt_two positive]
    exact_mod_cast large
  have top : (2 ^ 52 : ℤ) ≤ ⌊(m : ℚ) / 2 ^ (Int.log 2 (m : ℚ) - 52)⌋ := by
    have low := Int.zpow_log_le_self Nat.one_lt_two positive
    rw [Int.le_floor, le_div_iff₀ (by positivity)]
    refine le_trans (le_of_eq ?_) low
    have split : (2 : ℚ) ^ (52 : ℤ) * 2 ^ (Int.log 2 (m : ℚ) - 52) = 2 ^ Int.log 2 (m : ℚ) := by
      rw [← zpow_add₀ (by norm_num)]
      congr 1
      ring
    exact_mod_cast split
  have rounded := floor_le_roundHalfEven ((m : ℚ) / 2 ^ (Int.log 2 (m : ℚ) - 52))
  rw [nearest, leading, if_neg normal]
  have exponent : 1075 ≤ (Int.log 2 (m : ℚ) + 1022).toNat := by omega
  have fraction : 2 ^ 52 ≤ (roundHalfEven ((m : ℚ) / 2 ^ (Int.log 2 (m : ℚ) - 52))).toNat := by
    omega
  omega

/-- No other whole number rounds to the bits of a whole number below 2^53. -/
theorem nearest_inj {m n : Nat} (small : n < 2 ^ 53) (same : nearest m = nearest n) : m = n := by
  obtain ⟨bits, room, exact⟩ := exists_magnitude small
  have held : nearest n = bits := by rw [← exact, nearest_magnitude]
  have little : m < 2 ^ 53 := by
    by_contra large
    have more := le_nearest (Nat.not_lt.mp large)
    omega
  obtain ⟨bits', -, exact'⟩ := exists_magnitude little
  have held' : nearest m = bits' := by rw [← exact', nearest_magnitude]
  have cast : (m : ℚ) = n := by rw [← exact, ← exact', ← held, ← held', same]
  exact_mod_cast cast

theorem point_natCast (n : Nat) : point n = Nat.log 10 n + 1 := by
  rw [point, Int.log_natCast]

/-- All digits before the point show a whole number. -/
theorem value_below_point (n : Nat) {k : Nat} (all : (k : ℤ) = point n) :
    (below n k).value = n := by
  rw [Decimal.value, below, scaled, all, sub_self, zpow_zero, mul_one]
  simp

section Shortest

variable {n bits : Nat} (exact : magnitude bits = n)

include exact

theorem search_whole (left : Nat) {k : Nat} (upto : (k : ℤ) ≤ point n)
    (enough : point n ≤ (left + k : Nat)) :
    ((search bits left k).k : ℤ) ≤ point n ∧
      (search bits left k).n ∈ [point (n : ℚ), point (n : ℚ) + 1] := by
  induction left generalizing k with
  | zero =>
    rw [search, exact]
    exact ⟨upto, List.mem_cons_self⟩
  | succ left ih =>
    rw [search, exact]
    cases found : (candidates (n : ℚ) k).find? fun d => nearest d.value = bits with
    | some d =>
      have either : d = below n k ∨ d = above n k := by
        have mem := List.mem_of_find?_eq_some found
        simp only [candidates] at mem
        split at mem <;> simp only [List.mem_cons, List.not_mem_nil, or_false] at mem <;> tauto
      rcases either with rfl | rfl
      · exact ⟨upto, List.mem_cons_self⟩
      · rw [Option.getD_some, above]
        split
        · exact ⟨upto, List.mem_cons_of_mem _ (List.mem_singleton_self _)⟩
        · exact ⟨upto, List.mem_cons_self⟩
    | none =>
      rw [Option.getD_none]
      rcases Int.lt_or_eq_of_le upto with more | all
      · exact ih (by omega) (by omega)
      · -- with all its digits the number itself is a candidate
        exfalso
        have here : below (n : ℚ) k ∈ candidates (n : ℚ) k := by
          simp only [candidates]
          split <;> simp
        have rounds : nearest (below (n : ℚ) k).value = bits := by
          rw [value_below_point n all, ← exact, nearest_magnitude]
        exact List.find?_eq_none.mp found _ here (decide_eq_true rounds)

theorem shortest_whole : ((shortest bits).k : ℤ) ≤ point n ∧
    (shortest bits).n ∈ [point (n : ℚ), point (n : ℚ) + 1] := by
  have least : 1 ≤ point n := by
    rw [point_natCast]
    omega
  apply search_whole exact _ least
  have enough : (point (magnitude bits) + 1074).toNat ≤ precision bits := le_max_right _ _
  have one : 1 ≤ precision bits := le_max_left _ _
  rw [exact] at enough
  omega

end Shortest

theorem bits_pos {n bits : Nat} (positive : 0 < n) (exact : magnitude bits = n) : 0 < bits := by
  rcases Nat.eq_zero_or_pos bits with rfl | h
  · rw [show magnitude 0 = 0 by simp [magnitude, mantissa]] at exact
    exact absurd exact.symm (by exact_mod_cast positive.ne')
  · exact h

theorem toDigits_zeros {s : Nat} (positive : 0 < s) (j : Nat) :
    Nat.toDigits 10 s ++ List.replicate j '0' = Nat.toDigits 10 (s * 10 ^ j) := by
  induction j with
  | zero => simp
  | succ j ih =>
    have nonzero : 0 < s * 10 ^ j := by positivity
    have last := Nat.toDigits_append_toDigits (b := 10) (d := 0) (by decide) nonzero (by decide)
    rw [List.replicate_succ', ← List.append_assoc, ih, pow_succ, ← mul_assoc, mul_comm _ 10]
    exact last

/-- The digits are the shortest numeral. -/
theorem print_shortest {n bits : Nat} (positive : 0 < n) (small : n < 2 ^ 53)
    (exact : magnitude bits = n) : (shortest bits).print = Nat.toDigits 10 n := by
  obtain ⟨fits, rounds⟩ := shortest_spec (bits_pos positive exact)
  obtain ⟨few, place⟩ := shortest_whole exact
  have digits : Nat.log 10 n < 16 := Nat.log_lt_of_lt_pow positive.ne' (by omega)
  rw [point_natCast] at few place
  simp only [List.mem_cons, List.not_mem_nil, or_false] at place
  generalize shortest bits = d at fits rounds few place
  obtain ⟨j, zeros⟩ : ∃ j : Nat, d.n - d.k = j := ⟨(d.n - d.k).toNat, by omega⟩
  have whole : d.value = ((d.s * 10 ^ j : Nat) : ℚ) := by
    rw [Decimal.value, zeros]
    push_cast
    rw [zpow_natCast]
  have same : d.s * 10 ^ j = n := by
    apply nearest_inj small
    rw [← whole, rounds, ← exact, nearest_magnitude]
  have leading : 0 < d.s := Nat.lt_of_lt_of_le (by positivity) fits.2.1
  rw [Decimal.print, if_pos ⟨by omega, by omega⟩, zeros, Int.toNat_natCast,
    toDigits_zeros leading, same]

/-- Whole numbers below 2^53 are held and written exactly. -/
theorem toString_ofNat {n : Nat} (small : n < 2 ^ 53) :
    ∃ bits, ofNat n = finite false bits ∧ (ofNat n).toString = Nat.toDigits 10 n := by
  obtain ⟨bits, room, exact⟩ := exists_magnitude small
  have finite_bits : bits < 2047 * 2 ^ 52 := by omega
  have held : ofNat n = finite false ⟨bits, finite_bits⟩ := by
    rw [ofNat, ← exact]
    exact ofMagnitude_magnitude false ⟨bits, finite_bits⟩
  refine ⟨_, held, ?_⟩
  rw [held, toString]
  rcases Nat.eq_zero_or_pos n with rfl | positive
  · have zero : bits = 0 := by
      by_contra nonzero
      have := magnitude_pos (Nat.pos_of_ne_zero nonzero)
      rw [exact] at this
      exact absurd this (by norm_num)
    rw [if_pos zero]
    rfl
  · rw [if_neg (bits_pos positive exact).ne']
    exact print_shortest positive small exact

end Qev.Double
