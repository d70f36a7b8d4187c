import Qev.Desktop.PairingCommands

/-! Ids and keys in hexadecimal: which strings the two parsers of the desktop
take, refuse and panic at, against the text that ids and keys are written as. -/

namespace Qev.Desktop

open Commands (hex_to_32)
open Hex (isHexDigit)

def pk_to_hex (pk : FixedBytes 32) : String := Hex.hex pk.val

/-! ## Text, two bytes at a time -/

/-- What `u8::from_str_radix` takes for a byte. -/
def IsPair (a b : Char) : Prop := (a = '+' ∨ isHexDigit a = true) ∧ isHexDigit b = true

inductive Pairs : List Char → Prop where
  | nil : Pairs []
  | cons {a b : Char} {cs : List Char} : IsPair a b → Pairs cs → Pairs (a :: b :: cs)

/-- The first two bytes end inside a character. -/
inductive Cut : List Char → Prop where
  | first {c : Char} (cs : List Char) : 3 ≤ c.utf8Size → Cut (c :: cs)
  | second {a c : Char} (cs : List Char) : a.utf8Size = 1 → 2 ≤ c.utf8Size → Cut (a :: c :: cs)

/-- As many bytes as `n` bytes are written with, and after pairs that are read
either a character that is cut, or the end, with a plus sign on the way. -/
def Misread (n : Nat) (s : String) : Prop :=
  (utf8 s).length = 2 * n ∧ ∃ read rest, s.toList = read ++ rest ∧ Pairs read ∧
    (Cut rest ∨ rest = [] ∧ '+' ∈ read)

/-- The parser of `n` bytes is total and exact on the string. -/
structure ExactOn {n : Nat} (write : FixedBytes n → String)
    (parse : String → Except Failure (FixedBytes n)) (s : String) : Prop where
  no_panic : parse s ≠ .error .panic
  accepts : (∃ bytes, parse s = .ok bytes) ↔
    s.toList.length = 2 * n ∧ ∀ c ∈ s.toList, isHexDigit c = true
  written : ∀ bytes, parse s = .ok bytes ↔ s.toList.map Char.toLower = (write bytes).toList

theorem utf8Size_of_ascii {c : Char} (ascii : c.toNat < 128) : c.utf8Size = 1 := by
  rw [← String.length_utf8EncodeChar, Utf8.utf8EncodeChar_ascii ascii, List.length_singleton]

theorem ascii_of_utf8Size {c : Char} (one : c.utf8Size = 1) : c.toNat < 128 := by
  rw [Char.utf8Size_eq_one_iff] at one
  exact Nat.lt_succ_of_le one

theorem IsPair.ascii {a b : Char} (pair : IsPair a b) : a.toNat < 128 ∧ b.toNat < 128 := by
  refine ⟨?_, Hex.isHexDigit_ascii pair.2⟩
  rcases pair.1 with rfl | digit
  · decide
  · exact Hex.isHexDigit_ascii digit

theorem encode_cons (c : Char) (cs : List Char) :
    Utf8.encode (c :: cs) = String.utf8EncodeChar c ++ Utf8.encode cs := List.flatMap_cons

theorem encode_ascii {a : Char} (ascii : a.toNat < 128) (cs : List Char) :
    Utf8.encode (a :: cs) = UInt8.ofNat a.toNat :: Utf8.encode cs := by
  rw [encode_cons, Utf8.utf8EncodeChar_ascii ascii, List.singleton_append]

theorem head_encode (cs : List Char) : (Utf8.encode cs).head?.any Utf8.isTail = false := by
  cases cs with
  | nil => rfl
  | cons c cs =>
    obtain ⟨lead, tails, bytes, first, -⟩ := Utf8.isTail_utf8EncodeChar c
    rw [encode_cons, bytes, List.cons_append, List.head?_cons, Option.any_some, first]

theorem plus_byte {a : Char} (ascii : a.toNat < 128) : UInt8.ofNat a.toNat = 43 ↔ a = '+' := by
  have values : (UInt8.ofNat a.toNat).toNat = a.toNat :=
    Nat.mod_eq_of_lt (show a.toNat < 256 by omega)
  rw [← UInt8.toNat_inj, values]
  exact Char.toNat_inj (c := a) (d := '+')

theorem pair_read {a b : Char} (ha : a.toNat < 128) (hb : b.toNat < 128) :
    (∃ v, Hex.from_str_radix [UInt8.ofNat a.toNat, UInt8.ofNat b.toNat] = .ok v) ↔ IsPair a b := by
  simp only [Hex.from_str_radix_pair, plus_byte ha, IsPair, Hex.isHexDigit_iff ha,
    Hex.isHexDigit_iff hb]
  constructor
  · rintro ⟨v, ⟨plus, value⟩ | ⟨h, l, high, low, -⟩⟩
    · exact ⟨.inl plus, _, value⟩
    · exact ⟨.inr ⟨h, high⟩, l, low⟩
  · rintro ⟨plus | ⟨h, high⟩, l, low⟩
    · have bound := Hex.digitVal_lt low
      refine ⟨UInt8.ofNat l, .inl ⟨plus, ?_⟩⟩
      rw [UInt8.toNat_ofNat', Nat.mod_eq_of_lt (by omega), low]
    · have bound := Hex.digitVal_lt high
      have bound' := Hex.digitVal_lt low
      refine ⟨UInt8.ofNat (16 * h + l), .inr ⟨h, l, high, low, ?_⟩⟩
      rw [UInt8.toNat_ofNat', Nat.mod_eq_of_lt (by omega)]

/-- Two digits are read as the byte that they are written for. -/
theorem pair_written {a b : Char} {v : UInt8} (ha : a.toNat < 128) (hb : b.toNat < 128)
    (plain : a ≠ '+')
    (read : Hex.from_str_radix [UInt8.ofNat a.toNat, UInt8.ofNat b.toNat] = .ok v) :
    [a.toLower, b.toLower] = [Hex.digit (v.toNat / 16), Hex.digit (v.toNat % 16)] := by
  rw [Hex.from_str_radix_pair, plus_byte ha] at read
  obtain ⟨plus, -⟩ | ⟨h, l, high, low, value⟩ := read
  · exact absurd plus plain
  · have bound := Hex.digitVal_lt low
    rw [Hex.toLower_of_digitVal ha high, Hex.toLower_of_digitVal hb low,
      show v.toNat / 16 = h by omega, show v.toNat % 16 = l by omega]

/-! ## The loop -/

section Loop

variable {label : String} {i : Nat} {cs : List Char}

theorem parse_hex_cons {a b : UInt8} {rest : Bytes} (lead : Utf8.isTail a = false)
    (next : rest.head?.any Utf8.isTail = false) :
    (∀ v, Hex.from_str_radix [a, b] = .ok v → parse_hex label i (a :: b :: rest) =
      (parse_hex label (i + 1) rest).map (v :: ·)) ∧
    ((∀ v, Hex.from_str_radix [a, b] ≠ .ok v) →
      ∃ msg, parse_hex label i (a :: b :: rest) = .error (.err msg)) := by
  rw [parse_hex, if_neg (by simp [lead, next])]
  constructor
  · intro v read
    rw [read]
    cases parse_hex label (i + 1) rest <;> rfl
  · intro unread
    cases read : Hex.from_str_radix [a, b] with
    | error e => exact ⟨_, rfl⟩
    | ok v => exact absurd read (unread v)

theorem isTail_ascii {a : Char} (ascii : a.toNat < 128) :
    Utf8.isTail (UInt8.ofNat a.toNat) = false := by
  apply not_isTail
  rw [UInt8.toNat_ofNat', Nat.mod_eq_of_lt (by omega)]
  exact ascii

theorem parse_hex_cut (cut : Cut cs) : parse_hex label i (Utf8.encode cs) = .error .panic := by
  cases cut with
  | @first c cs wide =>
    obtain ⟨lead, tails, bytes, -, tail⟩ := Utf8.isTail_utf8EncodeChar c
    rw [← String.length_utf8EncodeChar, bytes] at wide
    obtain _ | ⟨t, _ | ⟨u, tails⟩⟩ := tails
    · exact absurd wide (by rw [List.length_singleton]; decide)
    · exact absurd wide (Nat.lt_irrefl _)
    · have inside := tail u (List.mem_cons_of_mem _ List.mem_cons_self)
      rw [encode_cons, bytes, List.cons_append, List.cons_append, List.cons_append, parse_hex,
        if_pos (.inr inside)]
  | @second a c cs one wide =>
    obtain ⟨lead, tails, bytes, -, tail⟩ := Utf8.isTail_utf8EncodeChar c
    rw [← String.length_utf8EncodeChar, bytes] at wide
    obtain _ | ⟨t, tails⟩ := tails
    · exact absurd wide (Nat.lt_irrefl _)
    · have inside := tail t List.mem_cons_self
      rw [encode_ascii (ascii_of_utf8Size one), encode_cons, bytes, List.cons_append,
        List.cons_append, parse_hex, if_pos (.inr inside)]

/-- Pairs are read one after the other, digits as they are written. -/
theorem parse_hex_pairs (label : String) {read : List Char} (pairs : Pairs read) :
    ∃ vs : Bytes, 2 * vs.length = read.length ∧
      ('+' ∉ read → (Hex.hex vs).toList = read.map Char.toLower) ∧
      ∀ i rest, parse_hex label i (Utf8.encode (read ++ rest)) =
        (parse_hex label (i + vs.length) (Utf8.encode rest)).map (vs ++ ·) := by
  induction pairs with
  | nil =>
    refine ⟨[], rfl, fun _ => rfl, fun i rest => ?_⟩
    rw [List.nil_append, List.length_nil, Nat.add_zero]
    cases parse_hex label i (Utf8.encode rest) <;> rfl
  | @cons a b cs pair pairs ih =>
    obtain ⟨vs, length, lower, read⟩ := ih
    obtain ⟨ha, hb⟩ := pair.ascii
    obtain ⟨v, value⟩ := (pair_read ha hb).mpr pair
    refine ⟨v :: vs, ?_, ?_, fun i rest => ?_⟩
    · simp only [List.length_cons]
      omega
    · intro plain
      rw [List.mem_cons, List.mem_cons, not_or, not_or] at plain
      have here := pair_written ha hb (Ne.symm plain.1) value
      have later := lower plain.2.2
      rw [Hex.hex, String.toList_ofList] at later ⊢
      rw [List.flatMap_cons, later, ← here]
      rfl
    · rw [List.cons_append, List.cons_append, encode_ascii ha, encode_ascii hb,
        (parse_hex_cons (isTail_ascii ha) (head_encode _)).1 v value, read, List.length_cons,
        Nat.add_assoc, Nat.add_comm 1]
      cases parse_hex label (i + (vs.length + 1)) (Utf8.encode rest) <;> rfl

/-- Where no pair stands, and no character is cut, there is an error. -/
theorem parse_hex_stop (label : String) (i : Nat) (even : (Utf8.encode cs).length % 2 = 0)
    (more : cs ≠ [])
    (whole : ¬ Cut cs) (other : ∀ a b rest, cs = a :: b :: rest → ¬ IsPair a b) :
    ∃ msg, parse_hex label i (Utf8.encode cs) = .error (.err msg) := by
  obtain ⟨a, cs, rfl⟩ := List.exists_cons_of_ne_nil more
  by_cases ha : a.toNat < 128
  · cases cs with
    | nil =>
      rw [encode_ascii ha] at even
      cases even
    | cons b cs =>
      have hb : b.toNat < 128 := by
        refine ascii_of_utf8Size ?_
        by_contra wide
        have positive := b.utf8Size_pos
        exact whole (.second cs (utf8Size_of_ascii ha) (by omega))
      have unread : ¬ ∃ v, Hex.from_str_radix [UInt8.ofNat a.toNat, UInt8.ofNat b.toNat] = .ok v :=
        fun read => other a b cs rfl ((pair_read ha hb).mp read)
      rw [encode_ascii ha, encode_ascii hb]
      exact (parse_hex_cons (isTail_ascii ha) (head_encode cs)).2 fun v read => unread ⟨v, read⟩
  · -- a character of two bytes, the second of which is no digit
    obtain ⟨lead, tails, bytes, first, tail⟩ := Utf8.isTail_utf8EncodeChar a
    have size : a.utf8Size = 2 := by
      have one : a.utf8Size ≠ 1 := fun one => ha (ascii_of_utf8Size one)
      have positive := a.utf8Size_pos
      by_contra other
      exact whole (.first cs (by omega))
    rw [← String.length_utf8EncodeChar, bytes] at size
    obtain ⟨t, rfl⟩ := List.length_eq_one_iff.mp (Nat.succ.inj size)
    have no_digit : Hex.digitVal t = none := by
      have inside := tail t List.mem_cons_self
      simp only [Utf8.isTail, Bool.and_eq_true, decide_eq_true_eq, UInt8.le_iff_toNat_le,
        UInt8.reduceToNat] at inside
      simp only [Hex.digitVal, UInt8.le_iff_toNat_le, UInt8.reduceToNat]
      rw [if_neg (by omega), if_neg (by omega), if_neg (by omega)]
    rw [encode_cons, bytes]
    refine (parse_hex_cons first (head_encode cs)).2 fun v read => ?_
    obtain ⟨-, value⟩ | ⟨h, l, -, value, -⟩ := Hex.from_str_radix_pair.mp read
    · cases no_digit.symm.trans value
    · cases no_digit.symm.trans value

/-- Text is read up to where no pair stands. -/
theorem exists_pairs : ∀ cs : List Char, ∃ read rest, cs = read ++ rest ∧ Pairs read ∧
    ∀ a b later, rest = a :: b :: later → ¬ IsPair a b
  | [] => ⟨[], [], rfl, .nil, by simp⟩
  | [a] => ⟨[], [a], rfl, .nil, by simp⟩
  | a :: b :: cs => by
    obtain ⟨read, rest, rfl, pairs, stop⟩ := exists_pairs cs
    by_cases pair : IsPair a b
    · exact ⟨a :: b :: read, rest, rfl, .cons pair pairs, stop⟩
    · refine ⟨[], a :: b :: (read ++ rest), rfl, .nil, ?_⟩
      rintro _ _ _ ⟨⟩
      exact pair

end Loop

theorem Pairs.ascii {cs : List Char} (pairs : Pairs cs) :
    (Utf8.encode cs).length = cs.length ∧ ∀ c ∈ cs, c ≠ '+' → isHexDigit c = true := by
  induction pairs with
  | nil => exact ⟨rfl, List.forall_mem_nil _⟩
  | cons pair pairs ih =>
    obtain ⟨ha, hb⟩ := pair.ascii
    refine ⟨?_, List.forall_mem_cons.mpr ⟨fun plain => pair.1.resolve_left plain,
      List.forall_mem_cons.mpr ⟨fun _ => pair.2, ih.2⟩⟩⟩
    rw [encode_ascii ha, encode_ascii hb, List.length_cons, List.length_cons, ih.1]
    rfl

theorem pairs_of_digits : ∀ {cs : List Char} {n : Nat}, cs.length = 2 * n →
    (∀ c ∈ cs, isHexDigit c = true) → Pairs cs
  | [], _, _, _ => .nil
  | [a], _, length, _ => by
    rw [List.length_singleton] at length
    omega
  | a :: b :: cs, 0, length, _ => by cases length
  | a :: b :: cs, n + 1, length, digits => by
    rw [List.forall_mem_cons, List.forall_mem_cons] at digits
    simp only [List.length_cons] at length
    exact .cons ⟨.inr digits.1, digits.2.1⟩ (pairs_of_digits (n := n) (by omega) digits.2.2)

theorem isHexDigit_toLower {c : Char} (h : isHexDigit c.toLower = true) : isHexDigit c = true := by
  have small : ∀ n < 128, isHexDigit (Char.ofNat n).toLower = true →
      isHexDigit (Char.ofNat n) = true := by
    decide
  by_cases ascii : c.toNat < 128
  · have here := small c.toNat ascii
    rw [Char.ofNat_toNat] at here
    exact here h
  · have same : c.toLower = c := by
      refine dif_neg ?_
      rintro ⟨-, upper⟩
      exact ascii (lt_of_le_of_lt (show c.toNat ≤ 'Z'.toNat from upper) (by decide))
    rwa [same] at h

theorem isHexDigit_hex (bs : Bytes) : ∀ c ∈ (Hex.hex bs).toList, isHexDigit c = true := by
  have digit {d : Nat} (h : d < 16) : isHexDigit (Hex.digit d) = true := by
    interval_cases d <;> decide
  intro c mem
  rw [Hex.hex, String.toList_ofList, List.mem_flatMap] at mem
  obtain ⟨b, -, mem⟩ := mem
  have bound := b.toNat_lt
  rcases List.mem_cons.mp mem with rfl | mem
  · exact digit (by omega)
  · rw [List.mem_singleton.mp mem]
    exact digit (by omega)

/-! ## The parsers -/

section Parser

variable {n : Nat} {parse : String → Except Failure (FixedBytes n)} {wrong : String → String}
  {label : String}

/-- What the two parsers have in common: the length in bytes first, then the
loop. -/
def Parses (parse : String → Except Failure (FixedBytes n)) (label : String)
    (wrong : String → String) : Prop :=
  ∀ s, parse s =
    if (utf8 s).length ≠ 2 * n then .error (.err (wrong s))
    else do
      let out ← parse_hex label 0 (utf8 s)
      if h : out.length = n then .ok ⟨out, h⟩ else .error .panic

variable (body : Parses parse label wrong)

include body

/-- What the loop reads as pairs, after which the text ends or goes on. -/
theorem Parses.run {s : String} {read rest : List Char} (split : s.toList = read ++ rest)
    (pairs : Pairs read) (length : (utf8 s).length = 2 * n) :
    ∃ vs : Bytes, ('+' ∉ read → (Hex.hex vs).toList = read.map Char.toLower) ∧
      (rest = [] → ∃ h : vs.length = n, parse s = .ok ⟨vs, h⟩) ∧
      ∀ e, parse_hex label vs.length (Utf8.encode rest) = .error e → parse s = .error e := by
  obtain ⟨vs, count, lower, goes_on⟩ := parse_hex_pairs label pairs
  have loop := goes_on 0 rest
  rw [← split, Nat.zero_add] at loop
  refine ⟨vs, lower, ?_, fun e failed => ?_⟩
  · rintro rfl
    have whole : vs.length = n := by
      rw [utf8, split, List.append_nil, pairs.ascii.1] at length
      omega
    have ends : parse_hex label vs.length (Utf8.encode []) = .ok [] := by
      rw [Utf8.encode, List.flatMap_nil, parse_hex]
      simp
    rw [ends] at loop
    refine ⟨whole, ?_⟩
    rw [body, if_neg (not_not.mpr length), utf8, loop]
    simp [Except.map, ok_bind, whole]
  · rw [body, if_neg (not_not.mpr length), utf8, loop, failed]
    rfl

/-- What is written for bytes is read. -/
theorem Parses.of_digits {s : String} (length : s.toList.length = 2 * n)
    (digits : ∀ c ∈ s.toList, isHexDigit c = true) :
    ∃ bytes, parse s = .ok bytes ∧ s.toList.map Char.toLower = (Hex.hex bytes.val).toList := by
  have pairs := pairs_of_digits length digits
  have plain : '+' ∉ s.toList := by
    intro plus
    cases digits '+' plus
  obtain ⟨vs, lower, done, -⟩ := body.run (List.append_nil _).symm pairs (by
    rw [utf8, pairs.ascii.1, length])
  obtain ⟨h, parsed⟩ := done rfl
  exact ⟨_, parsed, (lower plain).symm⟩

omit body in
theorem digits_of_written {s : String} {bytes : FixedBytes n}
    (written : s.toList.map Char.toLower = (Hex.hex bytes.val).toList) :
    s.toList.length = 2 * n ∧ ∀ c ∈ s.toList, isHexDigit c = true := by
  constructor
  · have length := congrArg List.length written
    rw [List.length_map, Hex.hex, String.toList_ofList, List.length_flatMap] at length
    simpa [bytes.property, Nat.mul_comm] using length
  · intro c mem
    apply isHexDigit_toLower
    apply isHexDigit_hex bytes.val
    rw [← written]
    exact List.mem_map_of_mem mem

theorem Parses.exactOn_of_error {s msg : String} (failed : parse s = .error (.err msg)) :
    ExactOn (fun bytes => Hex.hex bytes.val) parse s where
  no_panic := by
    rw [failed]
    simp
  accepts := by
    constructor
    · rintro ⟨bytes, parsed⟩
      cases failed.symm.trans parsed
    · rintro ⟨length, digits⟩
      obtain ⟨bytes, parsed, -⟩ := body.of_digits length digits
      exact ⟨bytes, parsed⟩
  written bytes := by
    constructor
    · intro parsed
      cases failed.symm.trans parsed
    · intro written
      obtain ⟨length, digits⟩ := digits_of_written written
      obtain ⟨bytes', parsed, -⟩ := body.of_digits length digits
      cases failed.symm.trans parsed

omit body in
theorem exactOn_of_ok {s : String} {bytes : FixedBytes n} (parsed : parse s = .ok bytes)
    (written : s.toList.map Char.toLower = (Hex.hex bytes.val).toList) :
    ExactOn (fun bytes => Hex.hex bytes.val) parse s where
  no_panic := by
    rw [parsed]
    simp
  accepts := ⟨fun _ => digits_of_written written, fun _ => ⟨bytes, parsed⟩⟩
  written bytes' := by
    rw [parsed, Except.ok.injEq, written]
    constructor
    · rintro rfl
      rfl
    · intro same
      exact Subtype.ext (Hex.hex_injective (String.toList_injective same))

theorem Parses.exactOn_iff (s : String) : ExactOn
    (fun bytes => Hex.hex bytes.val) parse s ↔ ¬ Misread n s := by
  constructor
  · rintro exact_ ⟨length, read, rest, split, pairs, cut | ⟨ends, plus⟩⟩
    · obtain ⟨vs, -, -, failed⟩ := body.run split pairs length
      exact exact_.no_panic (failed _ (parse_hex_cut cut))
    · obtain ⟨vs, -, done, -⟩ := body.run split pairs length
      obtain ⟨h, parsed⟩ := done ends
      have digit := (exact_.accepts.mp ⟨_, parsed⟩).2 '+' (by
        rw [split]
        exact List.mem_append_left _ plus)
      cases digit
  · intro read_right
    by_cases length : (utf8 s).length = 2 * n
    · obtain ⟨read, rest, split, pairs, stop⟩ := exists_pairs s.toList
      obtain ⟨vs, lower, done, failed⟩ := body.run split pairs length
      have misread (h : Cut rest ∨ rest = [] ∧ '+' ∈ read) : False :=
        read_right ⟨length, read, rest, split, pairs, h⟩
      by_cases ends : rest = []
      · obtain ⟨h, parsed⟩ := done ends
        apply exactOn_of_ok parsed
        rw [split, ends, List.append_nil]
        exact (lower fun plus => misread (.inr ⟨ends, plus⟩)).symm
      · have even : (Utf8.encode rest).length % 2 = 0 := by
          obtain ⟨vs', count, -, -⟩ := parse_hex_pairs label pairs
          rw [utf8, split, Utf8.encode, List.flatMap_append, List.length_append] at length
          have ascii := pairs.ascii.1
          simp only [Utf8.encode] at ascii ⊢
          omega
        obtain ⟨msg, error⟩ := parse_hex_stop label vs.length even ends
          (fun cut => misread (.inl cut)) stop
        exact body.exactOn_of_error (failed _ error)
    · have failed : parse s = .error (.err (wrong s)) := by
        rw [body, if_pos length]
      exact body.exactOn_of_error failed

end Parser

theorem parses_envelope_id : Parses parse_envelope_id "hex id byte" fun s =>
    "envelope id hex wrong length: " ++ toString (utf8 s).length := fun _ => rfl

theorem parses_32 : Parses hex_to_32 "hex byte" fun s =>
    s!"public_hex wrong length: {(utf8 s).length} (expected 64)" := fun _ => rfl

/-- A parser panics at a string, or takes one that nothing is written as, just
where a character is cut or a plus sign stands for a digit. -/
theorem hex_parsing_exact_iff (s : String) :
    (ExactOn (fun id => Hex.hex id.val) parse_envelope_id s ↔ ¬ Misread 16 s) ∧
      (ExactOn pk_to_hex hex_to_32 s ↔ ¬ Misread 32 s) :=
  ⟨parses_envelope_id.exactOn_iff s, parses_32.exactOn_iff s⟩

theorem cut_character_panics : ¬ ∀ s : String,
    ExactOn (fun id => Hex.hex id.val) parse_envelope_id s ∧ ExactOn pk_to_hex hex_to_32 s := by
  intro all
  apply (all "0é00000000000000000000000000000").1.no_panic
  decide

end Qev.Desktop
