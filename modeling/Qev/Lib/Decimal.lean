import Mathlib.Tactic.IntervalCases
import Qev.Lib.Double

/-! The shortest decimal that rounds to a double, its layout as a numeral of
ECMAScript, and reading numerals of JSON. -/

namespace Qev.Double

/-- A decimal number: the `k` digits of `s`, and the point after `n` of them. -/
structure Decimal where
  s : Nat
  k : Nat
  n : ℤ
  deriving DecidableEq, Repr

namespace Decimal

def value (d : Decimal) : ℚ := d.s * 10 ^ (d.n - d.k)

/-- `s` has exactly `k` digits. -/
def Fits (d : Decimal) : Prop := 0 < d.k ∧ 10 ^ (d.k - 1) ≤ d.s ∧ d.s < 10 ^ d.k

end Decimal

/-- How many digits `q` has before its point. -/
def point (q : ℚ) : ℤ := Int.log 10 q + 1

def scaled (q : ℚ) (k : Nat) : ℚ := q * 10 ^ (k - point q)

/-- The largest decimal of `k` digits up to `q`. -/
def below (q : ℚ) (k : Nat) : Decimal := ⟨⌊scaled q k⌋.toNat, k, point q⟩

/-- The smallest decimal of `k` digits above `q`. -/
def above (q : ℚ) (k : Nat) : Decimal :=
  if (below q k).s + 1 = 10 ^ k then ⟨10 ^ (k - 1), k, point q + 1⟩
  else ⟨(below q k).s + 1, k, point q⟩

/-- Both, the one that is closer to `q` first. -/
def candidates (q : ℚ) (k : Nat) : List Decimal :=
  let r := scaled q k - ⌊scaled q k⌋
  if r < 1 / 2 ∨ r = 1 / 2 ∧ (below q k).s % 2 = 0 then [below q k, above q k]
  else [above q k, below q k]

/-- From `k` digits on, the first candidate that rounds to `bits`. -/
def search (bits : Nat) : Nat → Nat → Decimal
  | 0, k => below (magnitude bits) k
  | left + 1, k =>
    ((candidates (magnitude bits) k).find? fun d => nearest d.value = bits).getD
      (search bits left (k + 1))

/-- So many digits show the magnitude exactly. -/
def precision (bits : Nat) : Nat := max 1 (point (magnitude bits) + 1074).toNat

def shortest (bits : Nat) : Decimal := search bits (precision bits - 1) 1

theorem scaled_bounds {q : ℚ} (positive : 0 < q) {k : Nat} (some_digit : 0 < k) :
    10 ^ (k - 1) ≤ scaled q k ∧ scaled q k < 10 ^ k := by
  have ten : (10 : ℚ) ≠ 0 := by norm_num
  have scale : (0 : ℚ) < 10 ^ ((k : ℤ) - point q) := by positivity
  have lower : (10 : ℚ) ^ (point q - 1) ≤ q := by
    have := Int.zpow_log_le_self (b := 10) (by norm_num) positive
    rw [point, add_sub_cancel_right]
    exact_mod_cast this
  have upper : q < (10 : ℚ) ^ point q := by
    have := Int.lt_zpow_succ_log_self (b := 10) (by norm_num) q
    rw [point]
    exact_mod_cast this
  constructor
  · calc (10 : ℚ) ^ (k - 1)
        = 10 ^ (point q - 1) * 10 ^ ((k : ℤ) - point q) := by
          rw [← zpow_natCast, ← zpow_add₀ ten, Nat.cast_sub some_digit]
          congr 1
          push_cast
          ring
      _ ≤ scaled q k := mul_le_mul_of_nonneg_right lower scale.le
  · calc scaled q k
        < 10 ^ point q * 10 ^ ((k : ℤ) - point q) := mul_lt_mul_of_pos_right upper scale
      _ = (10 : ℚ) ^ k := by
          rw [← zpow_natCast, ← zpow_add₀ ten]
          congr 1
          ring

theorem fits_below {q : ℚ} (positive : 0 < q) {k : Nat} (some_digit : 0 < k) :
    (below q k).Fits := by
  obtain ⟨lower, upper⟩ := scaled_bounds positive some_digit
  have from_below : ((10 ^ (k - 1) : Nat) : ℤ) ≤ ⌊scaled q k⌋ := by
    rw [Int.le_floor]
    exact_mod_cast lower
  have from_above : ⌊scaled q k⌋ < ((10 ^ k : Nat) : ℤ) := by
    rw [Int.floor_lt]
    exact_mod_cast upper
  have nonneg := Int.le_trans (Int.natCast_nonneg _) from_below
  exact ⟨some_digit, (Int.le_toNat nonneg).mpr from_below, (Int.toNat_lt nonneg).mpr from_above⟩

theorem fits_above {q : ℚ} (positive : 0 < q) {k : Nat} (some_digit : 0 < k) :
    (above q k).Fits := by
  obtain ⟨-, lower, upper⟩ := fits_below positive some_digit
  unfold above
  split
  · have shorter : k - 1 < k := by omega
    exact ⟨some_digit, le_refl _, Nat.pow_lt_pow_right (by norm_num) shorter⟩
  · rename_i carries
    have next : (below q k).s + 1 < 10 ^ k := by
      change (below q k).s < 10 ^ k at upper
      omega
    exact ⟨some_digit, Nat.le_succ_of_le lower, next⟩

theorem fits_candidates {q : ℚ} (positive : 0 < q) {k : Nat} (some_digit : 0 < k) :
    ∀ d ∈ candidates q k, d.Fits := by
  intro d mem
  have either : d = below q k ∨ d = above q k := by
    simp only [candidates] at mem
    split at mem <;> simp only [List.mem_cons, List.not_mem_nil, or_false] at mem <;> tauto
  rcases either with rfl | rfl
  · exact fits_below positive some_digit
  · exact fits_above positive some_digit

/-- With enough digits the magnitude is scaled to a whole number. -/
theorem value_below_exact {bits k : Nat}
    (enough : point (magnitude bits) + 1074 ≤ k) :
    (below (magnitude bits) k).value = magnitude bits := by
  have ten : (10 : ℚ) ≠ 0 := by norm_num
  have least : 1 ≤ field bits := le_max_left _ _
  obtain ⟨j, whole⟩ : ∃ j : Nat, (k : ℤ) - point (magnitude bits) = j :=
    ⟨((k : ℤ) - point (magnitude bits)).toNat, by omega⟩
  obtain ⟨i, exponent⟩ : ∃ i : Nat, (field bits : ℤ) - 1075 + j = i :=
    ⟨((field bits : ℤ) - 1075 + j).toNat, by omega⟩
  have integral : scaled (magnitude bits) k = ((mantissa bits * 2 ^ i * 5 ^ j : Nat) : ℚ) := by
    have factor : (10 : ℚ) ^ j = 2 ^ j * 5 ^ j := by
      rw [← mul_pow]
      norm_num
    have shift : (2 : ℚ) ^ ((field bits : ℤ) - 1075) * 2 ^ j = 2 ^ i := by
      rw [← zpow_natCast, ← zpow_add₀ (by norm_num), exponent, zpow_natCast]
    rw [scaled, whole, zpow_natCast, magnitude, factor]
    push_cast
    rw [← shift]
    ring
  rw [Decimal.value, below]
  dsimp only
  rw [integral, Int.floor_natCast, Int.toNat_natCast, ← integral, scaled, mul_assoc,
    ← zpow_add₀ ten]
  simp

theorem search_spec {bits : Nat} (positive : 0 < bits) (left : Nat) {k : Nat} (some_digit : 0 < k)
    (enough : point (magnitude bits) + 1074 ≤ (left + k : Nat)) :
    (search bits left k).Fits ∧ nearest (search bits left k).value = bits := by
  have above_zero := magnitude_pos positive
  induction left generalizing k with
  | zero =>
    rw [search, value_below_exact (by simpa using enough), nearest_magnitude]
    exact ⟨fits_below above_zero some_digit, rfl⟩
  | succ left ih =>
    rw [search]
    cases found : (candidates (magnitude bits) k).find? fun d => nearest d.value = bits with
    | some d =>
      have rounds := List.find?_some found
      exact ⟨fits_candidates above_zero some_digit d (List.mem_of_find?_eq_some found),
        of_decide_eq_true rounds⟩
    | none =>
      apply ih (Nat.succ_pos k)
      omega

/-- The shortest decimal is well formed and rounds to the number. -/
theorem shortest_spec {bits : Nat} (positive : 0 < bits) :
    (shortest bits).Fits ∧ nearest (shortest bits).value = bits := by
  apply search_spec positive _ Nat.one_pos
  have least : 1 ≤ precision bits := le_max_left _ _
  have enough : (point (magnitude bits) + 1074).toNat ≤ precision bits := le_max_right _ _
  omega

/-! ## Numerals -/

/-- The exponent part of a numeral. -/
def exponentText (e : ℤ) : List Char :=
  'e' :: (if e < 0 then '-' else '+') :: Nat.toDigits 10 e.natAbs

/-- The layout of `Number::toString`. -/
def Decimal.print (d : Decimal) : List Char :=
  let digits := Nat.toDigits 10 d.s
  if d.k ≤ d.n ∧ d.n ≤ 21 then digits ++ List.replicate (d.n - d.k).toNat '0'
  else if 0 < d.n ∧ d.n ≤ 21 then digits.take d.n.toNat ++ '.' :: digits.drop d.n.toNat
  else if -6 < d.n ∧ d.n ≤ 0 then '0' :: '.' :: (List.replicate (-d.n).toNat '0' ++ digits)
  else if d.k = 1 then digits ++ exponentText (d.n - 1)
  else digits.take 1 ++ '.' :: (digits.drop 1 ++ exponentText (d.n - 1))

def printSign (negative : Bool) (text : List Char) : List Char :=
  if negative then '-' :: text else text

/-- `Number::toString`. -/
def toString : Double → List Char
  | nan => "NaN".toList
  | infinity negative => printSign negative "Infinity".toList
  | finite negative bits =>
    if bits.val = 0 then ['0'] else printSign negative (shortest bits).print

/-! ## Reading -/

def readDigits (cs : List Char) : Option Nat :=
  if cs ≠ [] ∧ cs.all Char.isDigit then some (Nat.ofDigitChars 10 cs 0) else none

def readExponent : List Char → Option ℤ
  | [] => some 0
  | e :: rest =>
    if e = 'e' ∨ e = 'E' then
      match rest with
      | '-' :: digits => (readDigits digits).map fun n : Nat => -(n : ℤ)
      | '+' :: digits => (readDigits digits).map fun n : Nat => (n : ℤ)
      | digits => (readDigits digits).map fun n : Nat => (n : ℤ)
    else none

def numeral (digits : List Char) (e : ℤ) : ℚ := Nat.ofDigitChars 10 digits 0 * 10 ^ e

/-- The number of a JSON numeral without its sign. -/
def readMagnitude (cs : List Char) : Option ℚ :=
  let int := cs.takeWhile Char.isDigit
  if int = [] ∨ int.head? = some '0' ∧ 1 < int.length then none
  else
    match cs.dropWhile Char.isDigit with
    | '.' :: rest =>
      let frac := rest.takeWhile Char.isDigit
      if frac = [] then none
      else (readExponent (rest.dropWhile Char.isDigit)).map fun e =>
        numeral (int ++ frac) (e - frac.length)
    | rest => (readExponent rest).map (numeral int)

/-- A JSON numeral, rounded. -/
def parse : List Char → Option Double
  | '-' :: cs => (readMagnitude cs).map (ofMagnitude true)
  | cs => (readMagnitude cs).map (ofMagnitude false)

theorem isDigit_toDigits (n : Nat) : ∀ c ∈ Nat.toDigits 10 n, c.isDigit = true := fun _ h =>
  Nat.isDigit_of_mem_toDigits (by decide) (by decide) h

theorem readDigits_toDigits (n : Nat) : readDigits (Nat.toDigits 10 n) = some n := by
  have all : (Nat.toDigits 10 n).all Char.isDigit := List.all_eq_true.mpr (isDigit_toDigits n)
  rw [readDigits, if_pos ⟨Nat.toDigits_ne_nil, all⟩, Nat.ofDigitChars_ten_toDigits]

theorem readExponent_exponentText (e : ℤ) : readExponent (exponentText e) = some e := by
  by_cases negative : e < 0
  · have digits : -(e.natAbs : ℤ) = e := by omega
    rw [exponentText, if_pos negative, readExponent, if_pos (.inl rfl), readDigits_toDigits,
      Option.map_some, digits]
  · have digits : (e.natAbs : ℤ) = e := by omega
    rw [exponentText, if_neg negative, readExponent, if_pos (.inl rfl), readDigits_toDigits,
      Option.map_some, digits]

/-- Digits end before `rest`. -/
def Stops (rest : List Char) : Prop := ∀ c ∈ rest.head?, c.isDigit = false

theorem takeWhile_digits {digits rest : List Char} (all : ∀ c ∈ digits, c.isDigit = true)
    (stops : Stops rest) : (digits ++ rest).takeWhile Char.isDigit = digits ∧
      (digits ++ rest).dropWhile Char.isDigit = rest := by
  rw [List.takeWhile_append_of_pos all, List.dropWhile_append_of_pos all]
  cases rest with
  | nil => simp
  | cons c rest => simp [stops c rfl]

theorem stops_exponentText (e : ℤ) : Stops (exponentText e) := by
  intro c first
  cases first
  decide

theorem readMagnitude_whole {digits rest : List Char} (nonempty : digits ≠ [])
    (all : ∀ c ∈ digits, c.isDigit = true) (lead : digits.head? ≠ some '0') (stops : Stops rest)
    (plain : rest.head? ≠ some '.') {e : ℤ} (exponent : readExponent rest = some e) :
    readMagnitude (digits ++ rest) = some (numeral digits e) := by
  obtain ⟨taken, dropped⟩ := takeWhile_digits all stops
  have wellFormed : ¬ (digits = [] ∨ digits.head? = some '0' ∧ 1 < digits.length) := by tauto
  rw [readMagnitude, taken, dropped, if_neg wellFormed]
  split
  · rename_i dot
    exact absurd rfl plain
  · rw [exponent, Option.map_some]

theorem readMagnitude_point {digits frac rest : List Char} (nonempty : digits ≠ [])
    (all : ∀ c ∈ digits, c.isDigit = true) (lead : digits = ['0'] ∨ digits.head? ≠ some '0')
    (some_frac : frac ≠ []) (all_frac : ∀ c ∈ frac, c.isDigit = true) (stops : Stops rest) {e : ℤ}
    (exponent : readExponent rest = some e) :
    readMagnitude (digits ++ '.' :: (frac ++ rest)) =
      some (numeral (digits ++ frac) (e - frac.length)) := by
  have dot : Stops ('.' :: (frac ++ rest)) := by
    intro c first
    cases first
    decide
  obtain ⟨taken, dropped⟩ := takeWhile_digits all dot
  obtain ⟨taken_frac, dropped_frac⟩ := takeWhile_digits all_frac stops
  have wellFormed : ¬ (digits = [] ∨ digits.head? = some '0' ∧ 1 < digits.length) := by
    rintro (none | ⟨zero, long⟩)
    · exact nonempty none
    · rcases lead with rfl | other
      · simp at long
      · exact other zero
  simp only [readMagnitude, taken, dropped, if_neg wellFormed, taken_frac, dropped_frac,
    if_neg some_frac, exponent, Option.map_some]

/-! ## Reading back what is printed -/

theorem length_digits {d : Decimal} (fits : d.Fits) : (Nat.toDigits 10 d.s).length = d.k := by
  obtain ⟨some_digit, lower, upper⟩ := fits
  apply le_antisymm
  · exact (Nat.length_toDigits_le_iff (by decide) some_digit).mpr upper
  · by_contra shorter
    have least : 0 < d.k - 1 := by
      have := Nat.length_toDigits_pos (b := 10) (n := d.s)
      omega
    have less := (Nat.length_toDigits_le_iff (b := 10) (by decide) least).mp
      (show (Nat.toDigits 10 d.s).length ≤ d.k - 1 by omega)
    omega

theorem head_toDigits {n : Nat} (positive : 0 < n) : (Nat.toDigits 10 n).head? ≠ some '0' := by
  induction n using Nat.strongRecOn with
  | _ n ih =>
    by_cases one : n < 10
    · rw [Nat.toDigits_of_lt_base one]
      interval_cases n <;> decide
    · rw [Nat.toDigits_of_base_le (by decide) (by omega),
        List.head?_append_of_ne_nil _ Nat.toDigits_ne_nil]
      exact ih (n / 10) (by omega) (by omega)

theorem numeral_toDigits (s : Nat) (e : ℤ) : numeral (Nat.toDigits 10 s) e = s * 10 ^ e := by
  rw [numeral, Nat.ofDigitChars_ten_toDigits]

theorem numeral_zeros_right (s j : Nat) (e : ℤ) :
    numeral (Nat.toDigits 10 s ++ List.replicate j '0') e = s * 10 ^ (j + e) := by
  rw [numeral, Nat.ofDigitChars_append, Nat.ofDigitChars_ten_toDigits,
    Nat.ofDigitChars_replicate_zero, zpow_add₀ (by norm_num), zpow_natCast]
  push_cast
  ring

theorem numeral_zeros_left (s j : Nat) (e : ℤ) :
    numeral (['0'] ++ (List.replicate j '0' ++ Nat.toDigits 10 s)) e = s * 10 ^ e := by
  rw [numeral, Nat.ofDigitChars_append, Nat.ofDigitChars_append, Nat.ofDigitChars_replicate_zero]
  have zero : Nat.ofDigitChars 10 ['0'] 0 = 0 := rfl
  rw [zero, Nat.mul_zero, Nat.ofDigitChars_ten_toDigits]

/-- Digits with a point after some of them. -/
theorem readMagnitude_split {s i : Nat} (positive : 0 < s) (some_digit : 0 < i)
    (inside : i < (Nat.toDigits 10 s).length) {rest : List Char} (stops : Stops rest) {e : ℤ}
    (exponent : readExponent rest = some e) :
    readMagnitude ((Nat.toDigits 10 s).take i ++ '.' :: ((Nat.toDigits 10 s).drop i ++ rest)) =
      some ((s : ℚ) * 10 ^ (e + i - (Nat.toDigits 10 s).length)) := by
  have all := isDigit_toDigits s
  have nonempty : (Nat.toDigits 10 s).take i ≠ [] := by
    apply List.ne_nil_of_length_pos
    rw [List.length_take]
    omega
  have frac_nonempty : (Nat.toDigits 10 s).drop i ≠ [] := by
    apply List.ne_nil_of_length_pos
    rw [List.length_drop]
    omega
  have lead : ((Nat.toDigits 10 s).take i).head? ≠ some '0' := by
    rw [List.head?_take, if_neg (by omega)]
    exact head_toDigits positive
  have read := readMagnitude_point nonempty (fun c mem => all c (List.mem_of_mem_take mem))
    (.inr lead) frac_nonempty (fun c mem => all c (List.mem_of_mem_drop mem)) stops exponent
  rw [List.take_append_drop, numeral_toDigits, List.length_drop] at read
  rw [read]
  congr 3
  omega

/-- Each layout has the value of the decimal. -/
theorem readMagnitude_print {d : Decimal} (fits : d.Fits) :
    readMagnitude d.print = some d.value := by
  have length := length_digits fits
  obtain ⟨some_digit, lower, upper⟩ := fits
  have positive : 0 < d.s := lt_of_lt_of_le (by positivity) lower
  have lead := head_toDigits positive
  have all := isDigit_toDigits d.s
  have nonempty : Nat.toDigits 10 d.s ≠ [] := Nat.toDigits_ne_nil
  have stops : Stops [] := nofun
  unfold Decimal.print
  dsimp only
  split_ifs with whole inside small one
  · have zeros : ∀ c ∈ List.replicate (d.n - d.k).toNat '0', c.isDigit = true := by
      intro c mem
      rw [List.eq_of_mem_replicate mem]
      rfl
    have all_digits : ∀ c ∈ Nat.toDigits 10 d.s ++ List.replicate (d.n - d.k).toNat '0',
        c.isDigit = true := by
      intro c mem
      exact (List.mem_append.mp mem).elim (all c) (zeros c)
    have read := readMagnitude_whole (by simp [nonempty]) all_digits
      (by rwa [List.head?_append_of_ne_nil _ nonempty]) stops nofun rfl
    rw [List.append_nil, numeral_zeros_right] at read
    rw [read, Decimal.value]
    congr 3
    omega
  · have read := readMagnitude_split positive (show 0 < d.n.toNat by omega)
      (show d.n.toNat < _ by omega) stops rfl
    rw [List.append_nil, length] at read
    rw [read, Decimal.value]
    congr 3
    omega
  · have frac : ∀ c ∈ List.replicate (-d.n).toNat '0' ++ Nat.toDigits 10 d.s,
        c.isDigit = true := by
      intro c mem
      rcases List.mem_append.mp mem with zero | digit
      · rw [List.eq_of_mem_replicate zero]
        rfl
      · exact all c digit
    have read := readMagnitude_point (List.cons_ne_nil '0' [])
      (List.forall_mem_singleton.mpr rfl) (.inl rfl)
      (by simp [nonempty]) frac stops rfl
    rw [List.append_nil, numeral_zeros_left, List.length_append, List.length_replicate,
      length] at read
    apply read.trans
    rw [Decimal.value]
    congr 3
    omega
  · have read := readMagnitude_whole nonempty all lead (stops_exponentText (d.n - 1)) (by
      simp [exponentText]) (readExponent_exponentText (d.n - 1))
    rw [read, numeral_toDigits, Decimal.value, one]
    rfl
  · have read := readMagnitude_split positive Nat.one_pos (by omega)
      (stops_exponentText (d.n - 1)) (readExponent_exponentText (d.n - 1))
    rw [length] at read
    rw [read, Decimal.value]
    congr 3
    omega

/-- What a numeral starts with, after its sign. -/
theorem print_head (d : Decimal) : ∃ c tail, d.print = c :: tail ∧ c.isDigit = true := by
  have nonempty : Nat.toDigits 10 d.s ≠ [] := Nat.toDigits_ne_nil
  obtain ⟨c, tail, digits⟩ := List.exists_cons_of_ne_nil nonempty
  have digit : c.isDigit = true := isDigit_toDigits d.s c (by rw [digits]; exact List.mem_cons_self)
  unfold Decimal.print
  dsimp only
  rw [digits]
  split_ifs with whole inside small one
  · exact ⟨c, _, rfl, digit⟩
  · obtain ⟨i, positive⟩ : ∃ i, d.n.toNat = i + 1 := ⟨d.n.toNat - 1, by omega⟩
    rw [positive]
    exact ⟨c, _, rfl, digit⟩
  · exact ⟨'0', _, rfl, rfl⟩
  · exact ⟨c, _, rfl, digit⟩
  · exact ⟨c, _, rfl, digit⟩

theorem parse_zero : parse ['0'] = some (finite false ⟨0, by decide⟩) := by
  have zero : numeral ['0'] 0 = magnitude 0 := by
    simp [numeral, magnitude, mantissa, Nat.ofDigitChars]
  have read : parse ['0'] = some (ofMagnitude false (numeral ['0'] 0)) := rfl
  rw [read, zero]
  exact congrArg some (ofMagnitude_magnitude false ⟨0, by decide⟩)

/-- The characters of numerals. -/
def isNumeral (c : Char) : Bool := c.isDigit || c ∈ ['+', '-', '.', 'e', 'E']

theorem isNumeral_print (d : Decimal) : ∀ c ∈ d.print, isNumeral c = true := by
  have digits (n : Nat) : ∀ c ∈ Nat.toDigits 10 n, isNumeral c = true := by
    intro c mem
    rw [isNumeral, isDigit_toDigits n c mem, Bool.true_or]
  have zeros (j : Nat) : ∀ c ∈ List.replicate j '0', isNumeral c = true := by
    intro c mem
    rw [List.eq_of_mem_replicate mem]
    rfl
  have exponent (e : ℤ) : ∀ c ∈ exponentText e, isNumeral c = true := by
    intro c mem
    rw [exponentText] at mem
    rcases List.mem_cons.mp mem with rfl | mem
    · rfl
    · rcases List.mem_cons.mp mem with rfl | mem
      · split <;> rfl
      · exact digits _ c mem
  have taken (i : Nat) : ∀ c ∈ (Nat.toDigits 10 d.s).take i, isNumeral c = true := fun c mem =>
    digits _ c (List.mem_of_mem_take mem)
  have dropped (i : Nat) : ∀ c ∈ (Nat.toDigits 10 d.s).drop i, isNumeral c = true := fun c mem =>
    digits _ c (List.mem_of_mem_drop mem)
  unfold Decimal.print
  dsimp only
  split_ifs
  all_goals simp only [List.forall_mem_append, List.forall_mem_cons]
  · exact ⟨digits _, zeros _⟩
  · exact ⟨taken _, rfl, dropped _⟩
  · exact ⟨rfl, rfl, zeros _, digits _⟩
  · exact ⟨digits _, exponent _⟩
  · exact ⟨taken _, rfl, dropped _, exponent _⟩

/-- A finite number other than zero reads back from its text. -/
theorem parse_toString {negative : Bool} {bits : Fin (2047 * 2 ^ 52)} (nonzero : bits.val ≠ 0) :
    parse (toString (finite negative bits)) = some (finite negative bits) := by
  obtain ⟨fits, rounds⟩ := shortest_spec (Nat.pos_of_ne_zero nonzero)
  have read := readMagnitude_print fits
  have back (negative : Bool) :
      ofMagnitude negative (shortest bits).value = finite negative bits := by
    simp only [ofMagnitude, rounds, bits.isLt, ↓reduceDIte]
  obtain ⟨c, tail, head, digit⟩ := print_head (shortest bits)
  rw [toString, if_neg nonzero]
  cases negative with
  | true =>
    rw [printSign, if_pos rfl, parse, read, Option.map_some, back]
  | false =>
    rw [printSign, if_neg Bool.false_ne_true]
    have sign : c ≠ '-' := by
      rintro rfl
      cases digit
    have plain : parse (shortest bits).print =
        (readMagnitude (shortest bits).print).map (ofMagnitude false) := by
      rw [head, parse]
      rintro cs same
      exact sign (List.cons.inj same).1
    rw [plain, read, Option.map_some, back]

end Qev.Double
