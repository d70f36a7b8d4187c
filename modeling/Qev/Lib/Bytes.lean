import Mathlib.Data.List.Induction
import Mathlib.Tactic.Ring

/-! Byte strings and unsigned big-endian numbers. -/

namespace Qev

abbrev Bytes := List UInt8

/-- A byte array of a fixed length, as `[u8; N]`. -/
abbrev FixedBytes (n : Nat) := { b : Bytes // b.length = n }

/-- The array filled with one byte. -/
def FixedBytes.fill (n : Nat) (b : UInt8) : FixedBytes n := ⟨List.replicate n b, by simp⟩

/-- The low `k` bytes of `n`, most significant first. -/
def beBytes : Nat → Nat → Bytes
  | 0, _ => []
  | k + 1, n => beBytes k (n / 256) ++ [UInt8.ofNat (n % 256)]

def beNat (bs : Bytes) : Nat := bs.foldl (fun n b => 256 * n + b.toNat) 0

@[simp] theorem beBytes_length (k n : Nat) : (beBytes k n).length = k := by
  induction k generalizing n with
  | zero => rfl
  | succ k ih => simp [beBytes, ih]

@[simp] theorem beNat_append_singleton (bs : Bytes) (b : UInt8) :
    beNat (bs ++ [b]) = 256 * beNat bs + b.toNat := by
  simp [beNat]

/-- Reading back a number that fits in `k` bytes. -/
theorem beNat_beBytes (k n : Nat) (h : n < 256 ^ k) : beNat (beBytes k n) = n := by
  induction k generalizing n with
  | zero =>
    have hn : n = 0 := by simpa using h
    simp [beBytes, beNat, hn]
  | succ k ih =>
    have hdiv : n / 256 < 256 ^ k := by
      rw [Nat.div_lt_iff_lt_mul (by norm_num)]
      simpa [pow_succ] using h
    rw [beBytes, beNat_append_singleton, ih _ hdiv, UInt8.toNat_ofNat']
    omega

theorem beNat_lt (bs : Bytes) : beNat bs < 256 ^ bs.length := by
  induction bs using List.reverseRecOn with
  | nil => simp [beNat]
  | append_singleton bs b ih =>
    have hb := b.toNat_lt
    rw [beNat_append_singleton, List.length_append, List.length_singleton, pow_succ]
    omega

theorem beBytes_beNat (bs : Bytes) : beBytes bs.length (beNat bs) = bs := by
  induction bs using List.reverseRecOn with
  | nil => rfl
  | append_singleton bs b ih =>
    have hb := b.toNat_lt
    have hq : (256 * beNat bs + b.toNat) / 256 = beNat bs := by omega
    have hr : (256 * beNat bs + b.toNat) % 256 = b.toNat := by omega
    rw [List.length_append, List.length_singleton, beNat_append_singleton, beBytes, hq, hr, ih,
      UInt8.ofNat_toNat]

end Qev
