import Mathlib.Tactic.IntervalCases
import Qev.Lib.Bytes

/-! Base64 in the URL-safe alphabet, without padding. -/

namespace Qev.Base64

def char64 (n : Nat) : Char :=
  if n < 26 then Char.ofNat (65 + n)
  else if n < 52 then Char.ofNat (71 + n)
  else if n < 62 then Char.ofNat (n - 4)
  else if n = 62 then '-' else '_'

def val64 (c : Char) : Option Nat :=
  if 'A' ≤ c ∧ c ≤ 'Z' then some (c.toNat - 65)
  else if 'a' ≤ c ∧ c ≤ 'z' then some (c.toNat - 71)
  else if '0' ≤ c ∧ c ≤ '9' then some (c.toNat + 4)
  else if c = '-' then some 62
  else if c = '_' then some 63
  else none

/-- The six-bit groups of a byte string, the last one filled up with zeros. -/
def sextets : Bytes → List Nat
  | a :: b :: c :: rest =>
    a.toNat / 4 :: (a.toNat % 4 * 16 + b.toNat / 16) :: (b.toNat % 16 * 4 + c.toNat / 64) ::
      c.toNat % 64 :: sextets rest
  | [a, b] => [a.toNat / 4, a.toNat % 4 * 16 + b.toNat / 16, b.toNat % 16 * 4]
  | [a] => [a.toNat / 4, a.toNat % 4 * 16]
  | [] => []

/-- The bytes that six-bit groups fill; bits left over are dropped. -/
def octets : List Nat → Bytes
  | a :: b :: c :: d :: rest =>
    UInt8.ofNat (a * 4 + b / 16) :: UInt8.ofNat (b % 16 * 16 + c / 4) ::
      UInt8.ofNat (c % 4 * 64 + d) :: octets rest
  | [a, b, c] => [UInt8.ofNat (a * 4 + b / 16), UInt8.ofNat (b % 16 * 16 + c / 4)]
  | [a, b] => [UInt8.ofNat (a * 4 + b / 16)]
  | _ => []

def encode (bs : Bytes) : List Char := (sextets bs).map char64

/-- Any text in the alphabet, read whatever bits are left over at its end. -/
def decode (cs : List Char) : Option Bytes := (cs.mapM val64).map octets

/-- Only text that `encode` writes. -/
def decodeCanonical (cs : List Char) : Option Bytes :=
  (decode cs).filter fun bs => encode bs = cs

theorem ofNat_eq {b : UInt8} {n : Nat} (h : n = b.toNat) : UInt8.ofNat n = b := by
  rw [h, UInt8.ofNat_toNat]

theorem octets_sextets (bs : Bytes) : octets (sextets bs) = bs := by
  fun_induction sextets bs with
  | case1 a b c rest ih =>
    have ha := a.toNat_lt
    have hb := b.toNat_lt
    have hc := c.toNat_lt
    rw [octets, ih, ofNat_eq (b := a) (by omega), ofNat_eq (b := b) (by omega),
      ofNat_eq (b := c) (by omega)]
  | case2 a b =>
    have ha := a.toNat_lt
    have hb := b.toNat_lt
    rw [octets, ofNat_eq (b := a) (by omega), ofNat_eq (b := b) (by omega)]
  | case3 a =>
    have ha := a.toNat_lt
    rw [octets, ofNat_eq (b := a) (by omega)]
  | case4 => rfl

theorem sextets_lt (bs : Bytes) : ∀ n ∈ sextets bs, n < 64 := by
  fun_induction sextets bs with
  | case1 a b c rest ih =>
    have ha := a.toNat_lt
    have hb := b.toNat_lt
    have hc := c.toNat_lt
    simp only [List.forall_mem_cons]
    exact ⟨by omega, by omega, by omega, by omega, ih⟩
  | case2 a b =>
    have ha := a.toNat_lt
    have hb := b.toNat_lt
    simp only [List.forall_mem_cons]
    exact ⟨by omega, by omega, by omega, nofun⟩
  | case3 a =>
    have ha := a.toNat_lt
    simp only [List.forall_mem_cons]
    exact ⟨by omega, by omega, nofun⟩
  | case4 => exact nofun

theorem val64_char64 {n : Nat} (h : n < 64) : val64 (char64 n) = some n := by
  interval_cases n <;> decide

theorem mapM_val64 {ns : List Nat} (h : ∀ n ∈ ns, n < 64) :
    (ns.map char64).mapM val64 = some ns := by
  induction ns with
  | nil => rfl
  | cons n ns ih =>
    rw [List.forall_mem_cons] at h
    rw [List.map_cons, List.mapM_cons, val64_char64 h.1, ih h.2]
    rfl

/-- Encoded bytes decode to themselves. -/
theorem decode_encode (bs : Bytes) : decode (encode bs) = some bs := by
  rw [decode, encode, mapM_val64 (sextets_lt bs), Option.map_some, octets_sextets]

theorem decodeCanonical_encode (bs : Bytes) : decodeCanonical (encode bs) = some bs := by
  simp [decodeCanonical, decode_encode]

theorem length_le_encode (bs : Bytes) : bs.length ≤ (encode bs).length := by
  rw [encode, List.length_map]
  fun_induction sextets bs with
  | case1 a b c rest ih =>
    simp only [List.length_cons]
    omega
  | case2 a b => simp
  | case3 a => simp
  | case4 => rfl

theorem length_encode_mod (bs : Bytes) : (encode bs).length % 4 ≠ 1 := by
  rw [encode, List.length_map]
  fun_induction sextets bs with
  | case1 a b c rest ih =>
    simp only [List.length_cons]
    omega
  | case2 a b => simp
  | case3 a => simp
  | case4 => simp

theorem decodeCanonical_eq_some {cs : List Char} {bs : Bytes} :
    decodeCanonical cs = some bs ↔ cs = encode bs := by
  constructor
  · intro h
    obtain ⟨-, same⟩ := Option.filter_eq_some_iff.mp h
    exact (of_decide_eq_true same).symm
  · rintro rfl
    exact decodeCanonical_encode bs

theorem char64_mem {n : Nat} (h : n < 64) : (char64 n).toNat < 128 := by
  interval_cases n <;> decide

theorem encode_ascii (bs : Bytes) : ∀ c ∈ encode bs, c.toNat < 128 := by
  intro c mem
  obtain ⟨n, here, rfl⟩ := List.mem_map.mp mem
  exact char64_mem (sextets_lt bs n here)

/-! ## Text that is written for what it is read as -/

theorem val64_eq_some {c : Char} {n : Nat} (h : val64 c = some n) : n < 64 ∧ char64 n = c := by
  have small : ∀ m < 128, ∀ n ∈ val64 (Char.ofNat m), n < 64 ∧ char64 n = Char.ofNat m := by decide
  have code {d : Char} (le : c ≤ d) (bound : d.toNat < 128) : c.toNat < 128 :=
    lt_of_le_of_lt le bound
  have ascii : c.toNat < 128 := by
    have cases_ := h
    rw [val64] at cases_
    split_ifs at cases_ with upper lower digit minus under
    · exact code upper.2 (by decide)
    · exact code lower.2 (by decide)
    · exact code digit.2 (by decide)
    · rw [minus]
      decide
    · rw [under]
      decide
  have here := small c.toNat ascii
  rw [Char.ofNat_toNat] at here
  exact here n h

/-- Six-bit groups that fill bytes, with zeros for the bits left over. -/
def Filled (ns : List Nat) : Prop :=
  ns.length % 4 ≠ 1 ∧ (ns.length % 4 = 2 → ns.getLastD 0 % 16 = 0) ∧
    (ns.length % 4 = 3 → ns.getLastD 0 % 4 = 0)

instance (ns : List Nat) : Decidable (Filled ns) := inferInstanceAs (Decidable (_ ∧ _ ∧ _))

theorem sextets_octets_iff {ns : List Nat} (small : ∀ n ∈ ns, n < 64) :
    sextets (octets ns) = ns ↔ Filled ns := by
  fun_induction octets ns with
  | case1 a b c d rest ih =>
    simp only [List.forall_mem_cons] at small
    obtain ⟨ha, hb, hc, hd, small⟩ := small
    have later : Filled (a :: b :: c :: d :: rest) ↔ Filled rest := by
      have length : (a :: b :: c :: d :: rest).length % 4 = rest.length % 4 := by
        simp only [List.length_cons]
        omega
      rw [Filled, length, Filled]
      cases rest with
      | nil => simp
      | cons e rest => rfl
    rw [later, ← ih small, sextets]
    simp only [UInt8.toNat_ofNat', List.cons.injEq]
    constructor
    · exact fun same => same.2.2.2.2
    · exact fun same => ⟨by omega, by omega, by omega, by omega, same⟩
  | case2 a b c =>
    simp only [List.forall_mem_cons] at small
    simp only [sextets, UInt8.toNat_ofNat', List.cons.injEq, and_true, Filled]
    simp
    omega
  | case3 a b =>
    simp only [List.forall_mem_cons] at small
    simp only [sextets, UInt8.toNat_ofNat', List.cons.injEq, and_true, Filled]
    simp
    omega
  | case4 ns four three two =>
    cases ns with
    | nil => exact ⟨fun _ => by decide, fun _ => rfl⟩
    | cons a ns =>
      cases ns with
      | nil => simp [sextets, Filled]
      | cons b ns =>
        cases ns with
        | nil => exact absurd rfl (two a b)
        | cons c ns =>
          cases ns with
          | nil => exact absurd rfl (three a b c)
          | cons d ns => exact absurd rfl (four a b c d ns)

/-! ## A changed end -/

/-- Whole groups are read by themselves. -/
theorem octets_append {xs : List Nat} (whole : xs.length % 4 = 0) (ys : List Nat) :
    octets (xs ++ ys) = octets xs ++ octets ys := by
  fun_induction octets xs with
  | case1 a b c d rest ih =>
    simp only [List.length_cons] at whole
    have groups := ih (by omega)
    simp only [List.cons_append, octets, groups]
  | case2 a b c => cases whole
  | case3 a b => cases whole
  | case4 xs four three two =>
    cases xs with
    | nil => rfl
    | cons a xs =>
      cases xs with
      | nil => cases whole
      | cons b xs =>
        cases xs with
        | nil => exact absurd rfl (two a b)
        | cons c xs =>
          cases xs with
          | nil => exact absurd rfl (three a b c)
          | cons d xs => exact absurd rfl (four a b c d xs)

theorem octets_length (ns : List Nat) : (octets ns).length = ns.length * 3 / 4 := by
  fun_induction octets ns with
  | case1 a b c d rest ih =>
    simp only [List.length_cons, ih]
    omega
  | case2 a b c => simp
  | case3 a b => simp
  | case4 ns four three two =>
    cases ns with
    | nil => rfl
    | cons a ns =>
      cases ns with
      | nil => simp
      | cons b ns =>
        cases ns with
        | nil => exact absurd rfl (two a b)
        | cons c ns =>
          cases ns with
          | nil => exact absurd rfl (three a b c)
          | cons d ns => exact absurd rfl (four a b c d ns)

theorem sextets_length (bs : Bytes) : (sextets bs).length = (bs.length * 4 + 2) / 3 := by
  fun_induction sextets bs with
  | case1 a b c rest ih =>
    simp only [List.length_cons, ih]
    omega
  | case2 a b => simp
  | case3 a => simp
  | case4 => rfl

/-- With its last four groups set to zero, text is still what some bytes are
written as; they are as many, and no others but the last five differ. -/
theorem sextets_zeroed {bs : Bytes} (enough : 4 ≤ (sextets bs).length) :
    ∃ bs' : Bytes, sextets bs' = (sextets bs).take ((sextets bs).length - 4) ++ [0, 0, 0, 0] ∧
      bs'.length = bs.length ∧ bs'.take (bs.length - 5) = bs.take (bs.length - 5) := by
  obtain ⟨ns, ns_eq⟩ : ∃ ns, ns = sextets bs := ⟨_, rfl⟩
  have small : ∀ n ∈ ns, n < 64 := ns_eq ▸ sextets_lt bs
  have back : octets ns = bs := by rw [ns_eq, octets_sextets]
  have length : ns.length = (bs.length * 4 + 2) / 3 := by rw [ns_eq, sextets_length]
  rw [← ns_eq] at enough ⊢
  have possible : ns.length % 4 ≠ 1 := by
    have mod := length_encode_mod bs
    rwa [encode, List.length_map, ← ns_eq] at mod
  have zeroed_length : (ns.take (ns.length - 4) ++ [0, 0, 0, 0]).length = ns.length := by
    rw [List.length_append, List.length_take]
    simp only [List.length_cons, List.length_nil]
    omega
  refine ⟨octets (ns.take (ns.length - 4) ++ [0, 0, 0, 0]), ?_, ?_, ?_⟩
  · apply (sextets_octets_iff ?_).mpr
    · refine ⟨zeroed_length.symm ▸ possible, ?_, ?_⟩
      all_goals
        rw [List.getLastD_eq_getLast?, List.getLast?_append]
        exact fun _ => rfl
    · intro n mem
      rcases List.mem_append.mp mem with kept | zero
      · exact small n (List.mem_of_mem_take kept)
      · simp only [List.mem_cons, List.not_mem_nil, or_false, or_self] at zero
        omega
  · rw [octets_length, zeroed_length, ← back, octets_length]
  · -- The groups of four before the one in which the first zero stands.
    obtain ⟨m, m_eq⟩ : ∃ m, m = 4 * (ns.length / 4 - 1) := ⟨_, rfl⟩
    have before : m ≤ ns.length - 4 := by omega
    have groups : (ns.take m).length % 4 = 0 := by
      rw [List.length_take]
      omega
    have front : ns.take (ns.length - 4) = ns.take m ++ (ns.take (ns.length - 4)).drop m := by
      have parts := List.take_append_drop m (ns.take (ns.length - 4))
      rw [List.take_take, Nat.min_eq_left before] at parts
      exact parts.symm
    have body : bs.length - 5 ≤ (octets (ns.take m)).length := by
      rw [octets_length, List.length_take]
      omega
    have own : bs = octets (ns.take m) ++ octets (ns.drop m) := by
      rw [← octets_append groups, List.take_append_drop, back]
    have kept : bs.take (bs.length - 5) = (octets (ns.take m)).take (bs.length - 5) := by
      rw [own] at body ⊢
      exact List.take_append_of_le_length body
    rw [front, List.append_assoc, octets_append groups, List.take_append_of_le_length body, kept]

end Qev.Base64
