import Mathlib.Tactic.IntervalCases
import Qev.Lib.Utf8

/-! Lowercase hexadecimal text of bytes, and the reading of one byte from text
in radix sixteen. -/

namespace Qev.Hex

def digit (d : Nat) : Char :=
  if d < 10 then Char.ofNat (48 + d) else Char.ofNat (87 + d)

def digitVal (b : UInt8) : Option Nat :=
  if 48 ≤ b ∧ b ≤ 57 then some (b.toNat - 48)
  else if 97 ≤ b ∧ b ≤ 102 then some (b.toNat - 87)
  else if 65 ≤ b ∧ b ≤ 70 then some (b.toNat - 55)
  else none

/-- Two digits for each byte. -/
def hex (bs : Bytes) : String :=
  String.ofList (bs.flatMap fun b => [digit (b.toNat / 16), digit (b.toNat % 16)])

inductive ParseIntError where
  | Empty
  | InvalidDigit
  | PosOverflow
  deriving DecidableEq, Repr

def ParseIntError.display : ParseIntError → String
  | Empty => "cannot parse integer from empty string"
  | InvalidDigit => "invalid digit found in string"
  | PosOverflow => "number too large to fit in target type"

def parseDigits : Nat → Bytes → Except ParseIntError UInt8
  | acc, [] => .ok (UInt8.ofNat acc)
  | acc, b :: bs =>
    match digitVal b with
    | none => .error .InvalidDigit
    | some d => if 16 * acc + d < 256 then parseDigits (16 * acc + d) bs else .error .PosOverflow

/-- `u8::from_str_radix` at radix sixteen: a plus sign may stand in front. -/
def from_str_radix : Bytes → Except ParseIntError UInt8
  | [] => .error .Empty
  | [43] => .error .InvalidDigit
  | 43 :: digits => parseDigits 0 digits
  | digits => parseDigits 0 digits

/-- The ASCII code of a digit. -/
def digitByte (d : Nat) : UInt8 := if d < 10 then UInt8.ofNat (48 + d) else UInt8.ofNat (87 + d)

theorem utf8_digit {d : Nat} (h : d < 16) : String.utf8EncodeChar (digit d) = [digitByte d] := by
  interval_cases d <;> decide

theorem digitVal_digitByte {d : Nat} (h : d < 16) : digitVal (digitByte d) = some d := by
  interval_cases d <;> decide

theorem digitByte_ascii {d : Nat} (h : d < 16) : (digitByte d).toNat < 128 ∧ digitByte d ≠ 43 := by
  interval_cases d <;> decide

/-- The two digits of a byte read back as it. -/
theorem from_str_radix_digits (b : UInt8) :
    from_str_radix [digitByte (b.toNat / 16), digitByte (b.toNat % 16)] = .ok b := by
  have bound := b.toNat_lt
  have high : b.toNat / 16 < 16 := by omega
  have low : b.toNat % 16 < 16 := by omega
  have plain := (digitByte_ascii high).2
  rw [from_str_radix]
  · simp only [parseDigits, digitVal_digitByte high, digitVal_digitByte low]
    rw [if_pos (by omega), if_pos (by omega), show 16 * (16 * 0 + b.toNat / 16) + b.toNat % 16 =
      b.toNat by omega, UInt8.ofNat_toNat]
  all_goals simp [plain]

/-! ## What is read -/

/-- `char::is_ascii_hexdigit`. -/
def isHexDigit (c : Char) : Bool :=
  c.isDigit || ('a' ≤ c && c ≤ 'f') || ('A' ≤ c && c ≤ 'F')

theorem isHexDigit_ascii {c : Char} (h : isHexDigit c = true) : c.toNat < 128 := by
  have code {d : Char} (le : c ≤ d) (small : d.toNat < 128) : c.toNat < 128 :=
    lt_of_le_of_lt le small
  simp only [isHexDigit, Char.isDigit, Bool.or_eq_true, Bool.and_eq_true, decide_eq_true_eq] at h
  rcases h with (digit | lower) | upper
  · exact code (d := '9') digit.2 (by decide)
  · exact code lower.2 (by decide)
  · exact code upper.2 (by decide)

/-- An ASCII character as a digit, and the digit that it is written as. -/
theorem digitVal_ascii : ∀ n < 128,
    (digitVal (UInt8.ofNat n)).isSome = isHexDigit (Char.ofNat n) ∧
      ∀ d ∈ digitVal (UInt8.ofNat n), (Char.ofNat n).toLower = digit d := by
  decide

theorem isHexDigit_iff {c : Char} (ascii : c.toNat < 128) :
    isHexDigit c = true ↔ ∃ d, digitVal (UInt8.ofNat c.toNat) = some d := by
  rw [← Option.isSome_iff_exists, (digitVal_ascii c.toNat ascii).1, Char.ofNat_toNat]

theorem toLower_of_digitVal {c : Char} {d : Nat} (ascii : c.toNat < 128)
    (value : digitVal (UInt8.ofNat c.toNat) = some d) : c.toLower = digit d := by
  have lower := (digitVal_ascii c.toNat ascii).2 d value
  rwa [Char.ofNat_toNat] at lower

theorem digitVal_lt {b : UInt8} {d : Nat} (value : digitVal b = some d) : d < 16 := by
  simp only [digitVal, UInt8.le_iff_toNat_le, UInt8.reduceToNat] at value
  split_ifs at value <;> cases value <;> omega

theorem parseDigits_one {acc : Nat} {b v : UInt8} (small : acc < 16) :
    parseDigits acc [b] = .ok v ↔ ∃ d, digitVal b = some d ∧ v.toNat = 16 * acc + d := by
  rw [parseDigits]
  cases value : digitVal b with
  | none => simp
  | some d =>
    have bound := digitVal_lt value
    have fits : 16 * acc + d < 256 := by omega
    simp only [fits, if_true, parseDigits, Except.ok.injEq, Option.some.injEq, exists_eq_left']
    rw [← UInt8.toNat_inj, UInt8.toNat_ofNat', Nat.mod_eq_of_lt fits, eq_comm]

/-- Two bytes are read as two digits, or as one behind a plus sign. -/
theorem from_str_radix_pair {a b v : UInt8} : from_str_radix [a, b] = .ok v ↔
    a = 43 ∧ digitVal b = some v.toNat ∨
      ∃ h l, digitVal a = some h ∧ digitVal b = some l ∧ v.toNat = 16 * h + l := by
  by_cases plus : a = 43
  · subst plus
    have sign : digitVal 43 = none := by decide
    have signed : from_str_radix [43, b] = parseDigits 0 [b] := rfl
    simp [signed, parseDigits_one, sign]
  · have digits : from_str_radix [a, b] = parseDigits 0 [a, b] := by
      rw [from_str_radix]
      all_goals simp [plus]
    rw [digits, parseDigits]
    cases high : digitVal a with
    | none => simp [plus]
    | some h =>
      have bound := digitVal_lt high
      simp [plus, show h < 256 by omega, parseDigits_one bound]

theorem encode_hex (bs : Bytes) : Utf8.encode (hex bs).toList =
    bs.flatMap fun b => [digitByte (b.toNat / 16), digitByte (b.toNat % 16)] := by
  rw [hex, String.toList_ofList, Utf8.encode, List.flatMap_assoc]
  apply List.flatMap_congr
  intro b _
  have bound := b.toNat_lt
  simp [utf8_digit (show b.toNat / 16 < 16 by omega), utf8_digit (show b.toNat % 16 < 16 by omega)]

theorem hex_injective {as bs : Bytes} (h : hex as = hex bs) : as = bs := by
  have halves {b b' : UInt8} (high : digitByte (b.toNat / 16) = digitByte (b'.toNat / 16))
      (low : digitByte (b.toNat % 16) = digitByte (b'.toNat % 16)) : b = b' := by
    have read := from_str_radix_digits b
    rw [high, low, from_str_radix_digits] at read
    exact (Except.ok.inj read).symm
  have digits : Utf8.encode (hex as).toList = Utf8.encode (hex bs).toList := by rw [h]
  rw [encode_hex, encode_hex] at digits
  clear h
  induction as generalizing bs with
  | nil =>
    cases bs with
    | nil => rfl
    | cons b bs => cases digits
  | cons a as ih =>
    cases bs with
    | nil => cases digits
    | cons b bs =>
      simp only [List.flatMap_cons, List.cons_append, List.nil_append, List.cons.injEq] at digits
      rw [halves digits.1 digits.2.1, ih digits.2.2]

end Qev.Hex
