import Qev.Lib.Bytes
import Qev.Lib.Codec

/-! UTF-8 over byte lists: strict decoding, which takes exactly the encodings
of Unicode scalar values, and lossy decoding, which puts U+FFFD in place of
each maximal part of an ill-formed sequence. -/

namespace Qev.Utf8

open Codec

def encode (s : List Char) : Bytes := s.flatMap String.utf8EncodeChar

/-- The code point the leading bytes spell, before it is checked. -/
def codePoint : Bytes → Nat
  | [] => 0
  | a :: rest =>
    let tail (i : Nat) := (rest.getD i 0).toNat % 64
    if a.toNat < 0x80 then a.toNat
    else if a.toNat < 0xE0 then a.toNat % 32 * 64 + tail 0
    else if a.toNat < 0xF0 then a.toNat % 16 * 4096 + tail 0 * 64 + tail 1
    else a.toNat % 8 * 262144 + tail 0 * 4096 + tail 1 * 64 + tail 2

/-- One scalar value. Overlong forms, surrogates and values past U+10FFFF are
refused, since the shortest form of what was read must stand in the input. -/
def decodeChar (bs : Bytes) : Option (Char × Bytes) :=
  let c := Char.ofNat (codePoint bs)
  if String.utf8EncodeChar c <+: bs then some (c, bs.drop (String.utf8EncodeChar c).length)
  else none

def decode (bs : Bytes) : Option (List Char) := readAll decodeChar bs.length bs

theorem utf8EncodeChar_ne_nil (c : Char) : String.utf8EncodeChar c ≠ [] :=
  String.utf8EncodeChar_ne_nil

theorem utf8EncodeChar_ascii {c : Char} (ascii : c.toNat < 0x80) :
    String.utf8EncodeChar c = [UInt8.ofNat c.toNat] := by
  rw [String.utf8EncodeChar]
  exact if_pos (Nat.le_of_lt_succ ascii)

theorem charToNat_lt (c : Char) : c.toNat < 0x110000 := by
  rcases c.valid with h | ⟨_, h⟩ <;> simp only [Char.toNat, UInt32.toNat] at * <;> omega

theorem codePoint_encode (c : Char) (rest : Bytes) :
    codePoint (String.utf8EncodeChar c ++ rest) = c.toNat := by
  have bound := charToNat_lt c
  change c.val.toNat < _ at bound
  simp only [String.utf8EncodeChar, Char.toNat]
  generalize c.val.toNat = v at bound
  split_ifs
  all_goals
    simp only [codePoint, List.cons_append, List.nil_append, List.getD_cons_zero,
      List.getD_cons_succ, UInt8.toNat_ofNat']
    split_ifs <;> omega

theorem decodeChar_readsBack : ReadsBack String.utf8EncodeChar decodeChar := by
  intro c rest
  have hc : Char.ofNat (codePoint (String.utf8EncodeChar c ++ rest)) = c := by
    rw [codePoint_encode, Char.ofNat_toNat]
  simp only [decodeChar, hc, List.prefix_append, ↓reduceIte, List.drop_left]

theorem decodeChar_readsOnly : ReadsOnly String.utf8EncodeChar decodeChar := by
  intro input c rest h
  simp only [decodeChar] at h
  split at h
  · rename_i found
    simp only [Option.some.injEq, Prod.mk.injEq] at h
    obtain ⟨rfl, rfl⟩ := h
    exact (List.prefix_iff_eq_append.mp found).symm
  · cases h

theorem decode_encode (s : List Char) : decode (encode s) = some s :=
  decodeChar_readsBack.readAll_flatMap utf8EncodeChar_ne_nil s _ (Nat.le_refl _)

theorem encode_of_decode {bs : Bytes} {s : List Char} (h : decode bs = some s) : encode s = bs :=
  (decodeChar_readsOnly.readAll_eq h).symm

theorem encode_injective {s t : List Char} (h : encode s = encode t) : s = t := by
  have := congrArg decode h
  simpa [decode_encode] using this

theorem length_le_encode (s : List Char) : s.length ≤ (encode s).length :=
  length_le_flatMap utf8EncodeChar_ne_nil s

/-- The well-formed byte sequences. -/
def Valid (bs : Bytes) : Prop := ∃ s, encode s = bs

theorem valid_iff_decode (bs : Bytes) : Valid bs ↔ ∃ s, decode bs = some s :=
  ⟨fun ⟨s, h⟩ => ⟨s, h ▸ decode_encode s⟩, fun ⟨s, h⟩ => ⟨s, encode_of_decode h⟩⟩

theorem decode_eq_none_iff (bs : Bytes) : decode bs = none ↔ ¬ Valid bs := by
  rw [valid_iff_decode, Option.eq_none_iff_forall_ne_some, not_exists]

/-! ## Lossy decoding -/

def isTail (b : UInt8) : Bool := 0x80 ≤ b && b < 0xC0

/-- Only what comes first in a character may be its first byte. -/
theorem isTail_utf8EncodeChar (c : Char) : ∃ a tails, String.utf8EncodeChar c = a :: tails ∧
    isTail a = false ∧ ∀ t ∈ tails, isTail t = true := by
  have tail (n : Nat) : isTail (UInt8.ofNat (n % 64 + 0x80)) = true := by
    simp only [isTail, Bool.and_eq_true, decide_eq_true_eq, UInt8.le_iff_toNat_le,
      UInt8.lt_iff_toNat_lt, UInt8.toNat_ofNat', UInt8.reduceToNat]
    omega
  have lead {n : Nat} (small : n < 256) (other : n < 0x80 ∨ 0xC0 ≤ n) :
      isTail (UInt8.ofNat n) = false := by
    simp only [isTail, Bool.and_eq_false_iff, decide_eq_false_iff_not, UInt8.le_iff_toNat_le,
      UInt8.lt_iff_toNat_lt, UInt8.toNat_ofNat', UInt8.reduceToNat]
    omega
  have bound := charToNat_lt c
  change c.val.toNat < _ at bound
  rw [String.utf8EncodeChar]
  generalize c.val.toNat = v at bound
  split_ifs
  · exact ⟨_, _, rfl, lead (by omega) (by omega), List.forall_mem_nil _⟩
  · exact ⟨_, _, rfl, lead (by omega) (by omega), List.forall_mem_singleton.mpr (tail _)⟩
  · refine ⟨_, _, rfl, lead (by omega) (by omega), ?_⟩
    exact List.forall_mem_cons.mpr ⟨tail _, List.forall_mem_singleton.mpr (tail _)⟩
  · refine ⟨_, _, rfl, lead (by omega) (by omega), List.forall_mem_cons.mpr ⟨tail _, ?_⟩⟩
    exact List.forall_mem_cons.mpr ⟨tail _, List.forall_mem_singleton.mpr (tail _)⟩

/-- Whether `b` may follow the lead byte `a` in a well-formed sequence. -/
def secondOk (a b : UInt8) : Bool :=
  if 0xC2 ≤ a && a < 0xE0 then isTail b
  else if a = 0xE0 then isTail b && 0xA0 ≤ b
  else if a = 0xED then isTail b && b < 0xA0
  else if 0xE1 ≤ a && a < 0xF0 then isTail b
  else if a = 0xF0 then isTail b && 0x90 ≤ b
  else if a = 0xF4 then isTail b && b < 0x90
  else 0xF1 ≤ a && a < 0xF4 && isTail b

/-- How many bytes one U+FFFD replaces where no scalar value can be read. -/
def subpart : Bytes → Nat
  | a :: b :: rest =>
    if !secondOk a b then 1
    else match rest with
      | c :: _ => if 0xF0 ≤ a && isTail c then 3 else 2
      | [] => 2
  | _ => 1

def lossyGo : Nat → Bytes → List Char
  | _, [] => []
  | 0, _ :: _ => []
  | fuel + 1, bs =>
    match decodeChar bs with
    | some (c, rest) => c :: lossyGo fuel rest
    | none => '\uFFFD' :: lossyGo fuel (bs.drop (subpart bs))

def decodeLossy (bs : Bytes) : List Char := lossyGo bs.length bs

theorem lossyGo_of_readAll {fuel : Nat} {bs : Bytes} {s : List Char}
    (h : readAll decodeChar fuel bs = some s) : lossyGo fuel bs = s := by
  induction fuel generalizing bs s with
  | zero =>
    cases bs with
    | nil => simpa [readAll, lossyGo] using h
    | cons b bs => simp [readAll] at h
  | succ fuel ih =>
    cases bs with
    | nil => simpa [readAll, lossyGo] using h
    | cons b bs =>
      simp only [readAll, lossyGo] at h ⊢
      split at h
      · cases h
      · rename_i c rest hc
        obtain ⟨t, ht, rfl⟩ := Option.map_eq_some_iff.mp h
        simp only [hc, ih ht]

/-- Lossy decoding loses nothing of well-formed input. -/
theorem decodeLossy_encode (s : List Char) : decodeLossy (encode s) = s :=
  lossyGo_of_readAll (decode_encode s)

theorem encode_decodeLossy_iff (bs : Bytes) : encode (decodeLossy bs) = bs ↔ Valid bs :=
  ⟨fun h => ⟨_, h⟩, fun ⟨s, h⟩ => by rw [← h, decodeLossy_encode]⟩

example : decodeLossy [0x41, 0xE2, 0x82, 0x42, 0xFF] = ['A', '\uFFFD', 'B', '\uFFFD'] := by decide

end Qev.Utf8
