import Mathlib.Tactic.SplitIfs
import Qev.Lib.Utf8

/-! Strings of UTF-16 code units, where a surrogate may stand alone. -/

namespace Qev.Utf16

def isHigh (u : UInt16) : Bool := 0xD800 ≤ u.toNat && u.toNat < 0xDC00

def isLow (u : UInt16) : Bool := 0xDC00 ≤ u.toNat && u.toNat < 0xE000

def encodeChar (c : Char) : List UInt16 :=
  if c.toNat < 0x10000 then [UInt16.ofNat c.toNat]
  else
    [UInt16.ofNat (0xD800 + (c.toNat - 0x10000) / 0x400),
      UInt16.ofNat (0xDC00 + (c.toNat - 0x10000) % 0x400)]

def encode (cs : List Char) : List UInt16 := cs.flatMap encodeChar

/-- A unit that is no half of a pair, with a lone surrogate replaced. -/
def decodeUnit (u : UInt16) : Char :=
  if isHigh u ∨ isLow u then '\uFFFD' else Char.ofNat u.toNat

def decodePair (a b : UInt16) : Char :=
  Char.ofNat (0x10000 + (a.toNat - 0xD800) * 0x400 + (b.toNat - 0xDC00))

/-- The characters of a string, with every lone surrogate replaced. -/
def decodeLossy : List UInt16 → List Char
  | a :: b :: rest =>
    if isHigh a ∧ isLow b then decodePair a b :: decodeLossy rest
    else decodeUnit a :: decodeLossy (b :: rest)
  | [a] => [decodeUnit a]
  | [] => []

/-- Strings without a lone surrogate. -/
def WellFormed (u : List UInt16) : Prop := ∃ cs, encode cs = u

theorem toNat_ofNat {n : Nat} (h : n < 0x10000) : (UInt16.ofNat n).toNat = n :=
  UInt16.toNat_ofNat_of_lt h

theorem toNat_char {n : Nat} (valid : n.isValidChar) : (Char.ofNat n).toNat = n := by
  rw [Char.ofNat, dif_pos valid]
  rfl

/-- A unit that is no surrogate stands for itself. -/
theorem toNat_unit {u : UInt16} (high : isHigh u = false) (low : isLow u = false) :
    (Char.ofNat u.toNat).toNat = u.toNat := by
  have bound := u.toNat_lt
  simp only [isHigh, isLow, Bool.and_eq_false_iff, decide_eq_false_iff_not] at high low
  apply toNat_char
  rcases Nat.lt_or_ge u.toNat 0xD800 with h | h
  · exact .inl h
  · exact .inr ⟨by omega, by omega⟩

theorem toNat_decodePair {a b : UInt16} (high : isHigh a = true) (low : isLow b = true) :
    (decodePair a b).toNat = 0x10000 + (a.toNat - 0xD800) * 0x400 + (b.toNat - 0xDC00) := by
  simp only [isHigh, isLow, Bool.and_eq_true, decide_eq_true_eq] at high low
  exact toNat_char (.inr ⟨by omega, by omega⟩)

theorem char_not_surrogate (c : Char) : c.toNat < 0xD800 ∨ 0xE000 ≤ c.toNat := by
  rcases c.valid with h | ⟨h, _⟩ <;> simp only [Char.toNat, UInt32.toNat] at * <;> omega

theorem decodeLossy_single {a : UInt16} (alone : isHigh a = false) (rest : List UInt16) :
    decodeLossy (a :: rest) = decodeUnit a :: decodeLossy rest := by
  cases rest with
  | nil => rfl
  | cons b rest => rw [decodeLossy, alone, if_neg (by simp)]

theorem decodeLossy_encodeChar (c : Char) (rest : List UInt16) :
    decodeLossy (encodeChar c ++ rest) = c :: decodeLossy rest := by
  have bound := Utf8.charToNat_lt c
  have plain := char_not_surrogate c
  by_cases basic : c.toNat < 0x10000
  · have unit := toNat_ofNat basic
    have high : isHigh (UInt16.ofNat c.toNat) = false := by
      simp only [isHigh, unit, Bool.and_eq_false_iff, decide_eq_false_iff_not]
      omega
    have low : isLow (UInt16.ofNat c.toNat) = false := by
      simp only [isLow, unit, Bool.and_eq_false_iff, decide_eq_false_iff_not]
      omega
    rw [encodeChar, if_pos basic, List.cons_append, List.nil_append, decodeLossy_single high,
      decodeUnit, high, low, if_neg (by simp), unit, Char.ofNat_toNat]
  · have first := toNat_ofNat (show 0xD800 + (c.toNat - 0x10000) / 0x400 < 0x10000 by omega)
    have second := toNat_ofNat (show 0xDC00 + (c.toNat - 0x10000) % 0x400 < 0x10000 by omega)
    rw [encodeChar, if_neg basic, List.cons_append, List.cons_append, List.nil_append, decodeLossy,
      if_pos, decodePair, first, second]
    · have whole : 0x10000 + (0xD800 + (c.toNat - 0x10000) / 0x400 - 0xD800) * 0x400 +
          (0xDC00 + (c.toNat - 0x10000) % 0x400 - 0xDC00) = c.toNat := by omega
      rw [whole, Char.ofNat_toNat]
    · simp only [isHigh, isLow, first, second, Bool.and_eq_true, decide_eq_true_eq]
      omega

theorem decodeLossy_encode_append (cs : List Char) (rest : List UInt16) :
    decodeLossy (encode cs ++ rest) = cs ++ decodeLossy rest := by
  induction cs with
  | nil => rfl
  | cons c cs ih =>
    have step : encode (c :: cs) = encodeChar c ++ encode cs := rfl
    rw [step, List.append_assoc, decodeLossy_encodeChar, ih, List.cons_append]

theorem decodeLossy_encode (cs : List Char) : decodeLossy (encode cs) = cs := by
  have back := decodeLossy_encode_append cs []
  rw [List.append_nil, decodeLossy, List.append_nil] at back
  exact back

theorem encode_injective {cs ds : List Char} (h : encode cs = encode ds) : cs = ds := by
  rw [← decodeLossy_encode cs, h, decodeLossy_encode]

theorem encode_decodeLossy {u : List UInt16} (wf : WellFormed u) : encode (decodeLossy u) = u := by
  obtain ⟨cs, rfl⟩ := wf
  rw [decodeLossy_encode]

theorem encode_decodeLossy_iff (u : List UInt16) : encode (decodeLossy u) = u ↔ WellFormed u :=
  ⟨fun h => ⟨_, h⟩, encode_decodeLossy⟩

instance (u : List UInt16) : Decidable (WellFormed u) :=
  decidable_of_iff _ (encode_decodeLossy_iff u)

theorem WellFormed.nil : WellFormed [] := ⟨[], rfl⟩

theorem WellFormed.append {u v : List UInt16} (hu : WellFormed u) (hv : WellFormed v) :
    WellFormed (u ++ v) := by
  obtain ⟨cs, rfl⟩ := hu
  obtain ⟨ds, rfl⟩ := hv
  exact ⟨cs ++ ds, List.flatMap_append⟩

/-- A unit that is no surrogate. -/
theorem WellFormed.unit {a : UInt16} (high : isHigh a = false) (low : isLow a = false) :
    WellFormed [a] := by
  have bound := a.toNat_lt
  have same := toNat_unit high low
  refine ⟨[Char.ofNat a.toNat], ?_⟩
  simp only [encode, List.flatMap_cons, List.flatMap_nil, List.append_nil, encodeChar, same, bound,
    if_true, UInt16.ofNat_toNat]

theorem WellFormed.pair {a b : UInt16} (high : isHigh a = true) (low : isLow b = true) :
    WellFormed [a, b] := by
  have same := toNat_decodePair high low
  simp only [isHigh, isLow, Bool.and_eq_true, decide_eq_true_eq] at high low
  refine ⟨[decodePair a b], ?_⟩
  have first : UInt16.ofNat (0xD800 + ((decodePair a b).toNat - 0x10000) / 0x400) = a := by
    rw [same, show 0xD800 + (0x10000 + (a.toNat - 0xD800) * 0x400 + (b.toNat - 0xDC00) - 0x10000) /
      0x400 = a.toNat by omega, UInt16.ofNat_toNat]
  have second : UInt16.ofNat (0xDC00 + ((decodePair a b).toNat - 0x10000) % 0x400) = b := by
    rw [same, show 0xDC00 + (0x10000 + (a.toNat - 0xD800) * 0x400 + (b.toNat - 0xDC00) - 0x10000) %
      0x400 = b.toNat by omega, UInt16.ofNat_toNat]
  have large : ¬ (decodePair a b).toNat < 0x10000 := by
    rw [same]
    omega
  simp only [encode, List.flatMap_cons, List.flatMap_nil, List.append_nil, encodeChar, large,
    if_false, first, second]

end Qev.Utf16
