import Qev.Lib.Codec
import Qev.Lib.Decimal
import Qev.Lib.Json
import Qev.Lib.Utf16

/-! Strings, numbers and JSON of ECMAScript, and the codecs of the Encoding
standard. -/

namespace Qev.Js

/-- A string of code units. -/
abbrev JsString := List UInt16

abbrev Value := Json JsString Double

/-- The code units of a literal. -/
def js (s : String) : JsString := Utf16.encode s.toList

@[simp] theorem js_inj {a b : String} : js a = js b ↔ a = b :=
  ⟨fun h => String.toList_injective (Utf16.encode_injective h), congrArg js⟩

/-! ## Conversions -/

/-- Whether `x || y` is `y` at a number. -/
def falsy : Double → Bool
  | .nan => true
  | .infinity _ => false
  | .finite _ bits => bits.val = 0

/-- Whether `x` counts as true; a property that is missing is undefined. -/
def truthy : Option Value → Bool
  | none | some .null => false
  | some (.bool b) => b
  | some (.num x) => !falsy x
  | some (.str s) => s ≠ []
  | some (.arr _) | some (.obj _) => true

mutual
/-- `ToString`; an array joins its elements and leaves out a null. -/
def display : Value → JsString
  | .null => js "null"
  | .bool b => js (if b then "true" else "false")
  | .num x => Utf16.encode x.toString
  | .str s => s
  | .arr items => displayItems items
  | .obj _ => js "[object Object]"
def displayItems : List Value → JsString
  | [] => []
  | [x] => displayItem x
  | x :: y :: xs => displayItem x ++ js "," ++ displayItems (y :: xs)
def displayItem : Value → JsString
  | .null => []
  | .bool b => js (if b then "true" else "false")
  | .num x => Utf16.encode x.toString
  | .str s => s
  | .arr items => displayItems items
  | .obj _ => js "[object Object]"
end

/-! ## JSON.stringify -/

def hexDigit (n : Nat) : UInt16 := if n < 10 then UInt16.ofNat (48 + n) else UInt16.ofNat (87 + n)

def unicodeEscape (u : UInt16) : JsString :=
  [0x5C, 0x75, hexDigit (u.toNat / 0x1000), hexDigit (u.toNat / 0x100 % 16),
    hexDigit (u.toNat / 16 % 16), hexDigit (u.toNat % 16)]

/-- One unit that is no half of a pair. -/
def quoteUnit (u : UInt16) : JsString :=
  if u = 0x22 then [0x5C, 0x22]
  else if u = 0x5C then [0x5C, 0x5C]
  else if u = 0x08 then [0x5C, 0x62]
  else if u = 0x0C then [0x5C, 0x66]
  else if u = 0x0A then [0x5C, 0x6E]
  else if u = 0x0D then [0x5C, 0x72]
  else if u = 0x09 then [0x5C, 0x74]
  else if u.toNat < 0x20 ∨ Utf16.isHigh u ∨ Utf16.isLow u then unicodeEscape u
  else [u]

def quoteUnits : JsString → JsString
  | a :: b :: rest =>
    if Utf16.isHigh a ∧ Utf16.isLow b then a :: b :: quoteUnits rest
    else quoteUnit a ++ quoteUnits (b :: rest)
  | [a] => quoteUnit a
  | [] => []

/-- `QuoteJSONString`: pairs of surrogates stay, lone ones are escaped. -/
def quote (s : JsString) : JsString := 0x22 :: quoteUnits s ++ [0x22]

def ascii (c : Char) : UInt16 := UInt16.ofNat c.toNat

def number (x : Double) : JsString :=
  match x with
  | .finite .. => x.toString.map ascii
  | _ => "null".toList.map ascii

def printer : Json.Printer JsString Double UInt16 := ⟨ascii, quote, number⟩

/-! ## TextEncoder and TextDecoder -/

def textEncode (s : JsString) : Bytes := Utf8.encode (Utf16.decodeLossy s)

def dropBom : List Char → List Char
  | '\uFEFF' :: cs => cs
  | cs => cs

/-- A decoder that is fatal and does not ignore the byte order mark. -/
def textDecode (bs : Bytes) : Option JsString :=
  (Utf8.decode bs).map fun cs => Utf16.encode (dropBom cs)

/-! ## Reading JSON text -/

def hexVal (u : UInt16) : Option Nat :=
  if 48 ≤ u.toNat ∧ u.toNat < 58 then some (u.toNat - 48)
  else if 97 ≤ u.toNat ∧ u.toNat < 103 then some (u.toNat - 87)
  else if 65 ≤ u.toNat ∧ u.toNat < 71 then some (u.toNat - 55)
  else none

def readHex (a b c d : UInt16) : Option UInt16 := do
  let a ← hexVal a
  let b ← hexVal b
  let c ← hexVal c
  let d ← hexVal d
  return UInt16.ofNat (a * 0x1000 + b * 0x100 + c * 16 + d)

def readEscape : JsString → Option (UInt16 × JsString)
  | e :: rest =>
    if e = 0x22 ∨ e = 0x5C ∨ e = 0x2F then some (e, rest)
    else if e = 0x62 then some (0x08, rest)
    else if e = 0x66 then some (0x0C, rest)
    else if e = 0x6E then some (0x0A, rest)
    else if e = 0x72 then some (0x0D, rest)
    else if e = 0x74 then some (0x09, rest)
    else if e = 0x75 then
      match rest with
      | a :: b :: c :: d :: rest => (readHex a b c d).map fun u => (u, rest)
      | _ => none
    else none
  | [] => none

/-- One unit of a string literal. -/
def readUnit : JsString → Option (UInt16 × JsString)
  | u :: rest =>
    if u = 0x5C then readEscape rest
    else if u.toNat < 0x20 then none
    else some (u, rest)
  | [] => none

def readQuote : JsString → Option (JsString × JsString)
  | u :: rest => if u = 0x22 then Codec.readUntil 0x22 readUnit (rest.length + 1) rest else none
  | [] => none

def isNumeral (u : UInt16) : Bool := u.toNat < 128 && Double.isNumeral (Char.ofNat u.toNat)

def readNumber (input : JsString) : Option (Double × JsString) :=
  (Double.parse ((input.takeWhile isNumeral).map fun u => Char.ofNat u.toNat)).map fun x =>
    (x, input.dropWhile isNumeral)

theorem hexVal_hexDigit {n : Nat} (h : n < 16) : hexVal (hexDigit n) = some n := by
  interval_cases n <;> decide

theorem readHex_digits (u : UInt16) :
    readHex (hexDigit (u.toNat / 0x1000)) (hexDigit (u.toNat / 0x100 % 16))
      (hexDigit (u.toNat / 16 % 16)) (hexDigit (u.toNat % 16)) = some u := by
  have bound := u.toNat_lt
  have whole : u.toNat / 0x1000 * 0x1000 + u.toNat / 0x100 % 16 * 0x100 +
      u.toNat / 16 % 16 * 16 + u.toNat % 16 = u.toNat := by omega
  simp only [readHex, hexVal_hexDigit (show u.toNat / 0x1000 < 16 by omega),
    hexVal_hexDigit (show u.toNat / 0x100 % 16 < 16 by omega),
    hexVal_hexDigit (show u.toNat / 16 % 16 < 16 by omega),
    hexVal_hexDigit (show u.toNat % 16 < 16 by omega), Option.bind_eq_bind, Option.bind_some, whole,
    UInt16.ofNat_toNat]
  rfl

/-- A written unit is read back, and its text does not start with a quote. -/
theorem readUnit_quoteUnit (u : UInt16) :
    ∃ b tail, quoteUnit u = b :: tail ∧ b ≠ 0x22 ∧
      ∀ rest, readUnit (b :: (tail ++ rest)) = some (u, rest) := by
  unfold quoteUnit
  split_ifs with q slash b f n r t escaped
  · exact ⟨_, _, rfl, by decide, fun rest => by rw [q]; rfl⟩
  · exact ⟨_, _, rfl, by decide, fun rest => by rw [slash]; rfl⟩
  · exact ⟨_, _, rfl, by decide, fun rest => by rw [b]; rfl⟩
  · exact ⟨_, _, rfl, by decide, fun rest => by rw [f]; rfl⟩
  · exact ⟨_, _, rfl, by decide, fun rest => by rw [n]; rfl⟩
  · exact ⟨_, _, rfl, by decide, fun rest => by rw [r]; rfl⟩
  · exact ⟨_, _, rfl, by decide, fun rest => by rw [t]; rfl⟩
  · refine ⟨_, _, rfl, by decide, fun rest => ?_⟩
    have digits := congrArg (Option.map fun u => (u, rest)) (readHex_digits u)
    exact digits
  · refine ⟨u, [], rfl, q, fun rest => ?_⟩
    have high : ¬ u.toNat < 0x20 := fun low => escaped (.inl low)
    rw [List.nil_append, readUnit, if_neg slash, if_neg high]

/-- Half of a pair is read as it stands. -/
theorem readUnit_surrogate {u : UInt16} (h : Utf16.isHigh u = true ∨ Utf16.isLow u = true)
    (rest : JsString) : u ≠ 0x22 ∧ readUnit (u :: rest) = some (u, rest) := by
  have large : 0xD800 ≤ u.toNat := by
    simp only [Utf16.isHigh, Utf16.isLow, Bool.and_eq_true, decide_eq_true_eq] at h
    omega
  have other (v : UInt16) (small : v.toNat < 0xD800) : u ≠ v := by
    rintro rfl
    omega
  have high : ¬ u.toNat < 0x20 := by omega
  exact ⟨other _ (by decide), by rw [readUnit, if_neg (other _ (by decide)), if_neg high]⟩

theorem readUntil_quoteUnits (s rest : JsString) (fuel : Nat)
    (enough : (quoteUnits s).length < fuel) :
    Codec.readUntil 0x22 readUnit fuel (quoteUnits s ++ 0x22 :: rest) = some (s, rest) := by
  have last (fuel : Nat) : Codec.readUntil 0x22 readUnit (fuel + 1) (0x22 :: rest) =
      some ([], rest) := by
    simp [Codec.readUntil]
  fun_induction quoteUnits s generalizing fuel with
  | case1 a b s pair ih =>
    obtain ⟨other, first⟩ := readUnit_surrogate (.inl pair.1) (b :: (quoteUnits s ++ 0x22 :: rest))
    obtain ⟨other', second⟩ := readUnit_surrogate (.inr pair.2) (quoteUnits s ++ 0x22 :: rest)
    simp only [List.length_cons] at enough
    obtain ⟨fuel, rfl⟩ : ∃ left, fuel = left + 2 := Nat.exists_eq_add_of_le' (by omega)
    apply Codec.readUntil_cons other first
    apply Codec.readUntil_cons other' second
    apply ih
    omega
  | case2 a b s alone ih =>
    obtain ⟨c, tail, text, other, one⟩ := readUnit_quoteUnit a
    rw [text, List.cons_append, List.length_cons, List.length_append] at enough
    rw [text, List.cons_append, List.cons_append, List.append_assoc]
    obtain ⟨fuel, rfl⟩ : ∃ left, fuel = left + 1 := Nat.exists_eq_add_of_le' (by omega)
    apply Codec.readUntil_cons other (one _)
    apply ih
    omega
  | case3 a =>
    obtain ⟨c, tail, text, other, one⟩ := readUnit_quoteUnit a
    rw [text, List.length_cons] at enough
    rw [text, List.cons_append]
    obtain ⟨fuel, rfl⟩ : ∃ left, fuel = left + 2 := Nat.exists_eq_add_of_le' (by omega)
    exact Codec.readUntil_cons other (one _) (last fuel)
  | case4 =>
    obtain ⟨fuel, rfl⟩ : ∃ left, fuel = left + 1 := Nat.exists_eq_add_of_le' enough
    exact last fuel

theorem readQuote_quote (s rest : JsString) : readQuote (quote s ++ rest) = some (s, rest) := by
  have back := readUntil_quoteUnits s rest ((quoteUnits s ++ 0x22 :: rest).length + 1) (by
    rw [List.length_append]
    omega)
  simp only [quote, List.cons_append, List.append_assoc, List.nil_append, readQuote, if_true, back]

/-- The numbers whose text is a numeral that reads back: not the negative zero. -/
def Plain (x : Double) : Prop :=
  ∃ negative bits, x = .finite negative bits ∧ (bits.val = 0 → negative = false)

theorem toNat_ascii {c : Char} (h : c.toNat < 128) : (ascii c).toNat = c.toNat :=
  UInt16.toNat_ofNat_of_lt (show c.toNat < 65536 by omega)

theorem ofNat_ascii {c : Char} (h : c.toNat < 128) : Char.ofNat (ascii c).toNat = c := by
  rw [toNat_ascii h, Char.ofNat_toNat]

theorem numeral_ascii {c : Char} (h : Double.isNumeral c = true) : c.toNat < 128 := by
  simp only [Double.isNumeral, Bool.or_eq_true, decide_eq_true_eq, List.mem_cons, List.not_mem_nil,
    or_false] at h
  rcases h with digit | rfl | rfl | rfl | rfl | rfl
  · exact Json.isDigit_lt digit
  all_goals decide

theorem map_ascii {cs : List Char} (all : ∀ c ∈ cs, Double.isNumeral c = true) :
    ((cs.map ascii).map fun u => Char.ofNat u.toNat) = cs := by
  have each : ∀ c ∈ cs, ((fun u => Char.ofNat u.toNat) ∘ ascii) c = id c := fun c mem =>
    ofNat_ascii (numeral_ascii (all c mem))
  rw [List.map_map, List.map_congr_left each, List.map_id]

theorem isNumeral_toString {negative : Bool} {bits : Fin (2047 * 2 ^ 52)} :
    ∀ c ∈ (Double.finite negative bits).toString, Double.isNumeral c = true := by
  intro c mem
  rw [Double.toString] at mem
  split at mem
  · rw [List.mem_singleton.mp mem]
    rfl
  · cases negative with
    | false => exact Double.isNumeral_print _ c mem
    | true =>
      rcases List.mem_cons.mp mem with rfl | mem
      · rfl
      · exact Double.isNumeral_print _ c mem

theorem parse_toString {x : Double} (plain : Plain x) : Double.parse x.toString = some x := by
  obtain ⟨negative, bits, rfl, sign⟩ := plain
  by_cases zero : bits.val = 0
  · rw [sign zero, Double.toString, if_pos zero, Double.parse_zero]
    exact congrArg (fun b => some (Double.finite false b)) (Fin.ext zero.symm)
  · exact Double.parse_toString zero

theorem number_plain {x : Double} (plain : Plain x) : number x = x.toString.map ascii := by
  obtain ⟨negative, bits, rfl, -⟩ := plain
  rfl

theorem number_head {x : Double} (plain : Plain x) :
    ∃ c tail, number x = ascii c :: tail ∧ (c = '-' ∨ c.isDigit = true) := by
  rw [number_plain plain]
  obtain ⟨negative, bits, rfl, -⟩ := plain
  rw [Double.toString]
  split
  · exact ⟨'0', [], rfl, .inr rfl⟩
  · obtain ⟨c, tail, head, digit⟩ := Double.print_head (Double.shortest bits)
    rw [head]
    cases negative with
    | true => exact ⟨'-', _, rfl, .inl rfl⟩
    | false => exact ⟨c, _, rfl, .inr digit⟩

theorem readNumber_number {x : Double} (plain : Plain x) {rest : JsString}
    (ends : Json.Ends ascii rest) : readNumber (number x ++ rest) = some (x, rest) := by
  have all : ∀ c ∈ x.toString, Double.isNumeral c = true := by
    obtain ⟨negative, bits, rfl, -⟩ := plain
    exact isNumeral_toString
  have units : ∀ u ∈ x.toString.map ascii, isNumeral u = true := by
    intro u mem
    obtain ⟨c, here, rfl⟩ := List.mem_map.mp mem
    have small := numeral_ascii (all c here)
    rw [isNumeral, ofNat_ascii small, toNat_ascii small, decide_eq_true small, all c here]
    rfl
  have stop : rest.takeWhile isNumeral = [] ∧ rest.dropWhile isNumeral = rest := by
    rcases ends with rfl | ⟨c, tail, punct, rfl⟩
    · exact ⟨rfl, rfl⟩
    · simp only [List.mem_cons, List.not_mem_nil, or_false] at punct
      rcases punct with rfl | rfl | rfl <;> exact ⟨rfl, rfl⟩
  rw [number_plain plain, readNumber, List.takeWhile_append_of_pos units,
    List.dropWhile_append_of_pos units, stop.1, stop.2, List.append_nil, map_ascii all,
    parse_toString plain]
  rfl

def format : Json.Format JsString Double UInt16 where
  toPrinter := printer
  readQuote := readQuote
  readNumber := readNumber
  Number := Plain
  ascii_inj a b ha hb same := by
    have units : (ascii a).toNat = (ascii b).toNat := congrArg UInt16.toNat same
    have chars : a.toNat = b.toNat := by rwa [toNat_ascii ha, toNat_ascii hb] at units
    exact Char.toNat_inj.mp chars
  quote_head s := ⟨_, rfl⟩
  number_head n plain := number_head plain
  readQuote_quote := readQuote_quote
  readNumber_number n rest plain ends := readNumber_number plain ends

/-! ## JSON text has no lone surrogate -/

open Utf16 (WellFormed)

theorem wellFormed_small {u : UInt16} (h : u.toNat < 0xD800) : WellFormed [u] := by
  apply WellFormed.unit
  · simp only [Utf16.isHigh, Bool.and_eq_false_iff, decide_eq_false_iff_not]
    omega
  · simp only [Utf16.isLow, Bool.and_eq_false_iff, decide_eq_false_iff_not]
    omega

theorem wellFormed_ascii {u : JsString} (h : ∀ x ∈ u, x.toNat < 0xD800) : WellFormed u := by
  induction u with
  | nil => exact .nil
  | cons x u ih =>
    rw [List.forall_mem_cons] at h
    exact (wellFormed_small h.1).append (ih h.2)

theorem wellFormed_text {u : JsString} (h : u.all (·.toNat < 0xD800) = true) : WellFormed u :=
  wellFormed_ascii fun x mem => of_decide_eq_true (List.all_eq_true.mp h x mem)

theorem hexDigit_small {n : Nat} (h : n < 16) : (hexDigit n).toNat < 0xD800 := by
  interval_cases n <;> decide

theorem wellFormed_quoteUnit (u : UInt16) : WellFormed (quoteUnit u) := by
  unfold quoteUnit
  split_ifs with q slash b f n r t escaped
  iterate 7 exact wellFormed_text (by decide)
  · have bound := u.toNat_lt
    apply wellFormed_ascii
    simp only [unicodeEscape, List.forall_mem_cons]
    exact ⟨by decide, by decide, hexDigit_small (by omega), hexDigit_small (by omega),
      hexDigit_small (by omega), hexDigit_small (by omega), nofun⟩
  · simp only [not_or, Bool.not_eq_true] at escaped
    exact .unit escaped.2.1 escaped.2.2

theorem wellFormed_quote (s : JsString) : WellFormed (quote s) := by
  have inside : WellFormed (quoteUnits s) := by
    fun_induction quoteUnits s with
    | case1 a b s pair ih => exact (WellFormed.pair pair.1 pair.2).append ih
    | case2 a b s alone ih => exact (wellFormed_quoteUnit a).append ih
    | case3 a => exact wellFormed_quoteUnit a
    | case4 => exact .nil
  exact ((wellFormed_text (by decide) : WellFormed [0x22]).append inside).append
    (wellFormed_text (by decide))

theorem wellFormed_number (x : Double) : WellFormed (number x) := by
  cases x with
  | finite negative bits =>
    apply wellFormed_ascii
    intro u mem
    obtain ⟨c, here, rfl⟩ := List.mem_map.mp mem
    have small := numeral_ascii (isNumeral_toString c here)
    rw [toNat_ascii small]
    omega
  | nan => exact wellFormed_text (u := "null".toList.map ascii) (by decide)
  | infinity negative => exact wellFormed_text (u := "null".toList.map ascii) (by decide)

theorem closed_wellFormed : Json.Closed printer WellFormed where
  nil := .nil
  append := .append
  ascii c small := by
    apply wellFormed_small
    rw [show printer.ascii c = ascii c from rfl, toNat_ascii small]
    omega
  quote := wellFormed_quote
  number := wellFormed_number

theorem wellFormed_print (v : Value) : WellFormed (Json.print printer v) :=
  closed_wellFormed.print printer v

/-- Text without lone surrogates is encoded faithfully. -/
theorem textEncode_injective {s t : JsString} (hs : WellFormed s) (ht : WellFormed t)
    (same : textEncode s = textEncode t) : s = t := by
  have chars := Utf8.encode_injective same
  rw [← Utf16.encode_decodeLossy hs, chars, Utf16.encode_decodeLossy ht]

/-! ## Text that is not well-formed -/

/-- A decoder that is not fatal. -/
def textDecodeLossy (bs : Bytes) : JsString := Utf16.encode (dropBom (Utf8.decodeLossy bs))

/-- Every lone surrogate replaced, as by `String.prototype.toWellFormed`. -/
def toWellFormed (s : JsString) : JsString := Utf16.encode (Utf16.decodeLossy s)

theorem toWellFormed_eq_iff (s : JsString) : toWellFormed s = s ↔ WellFormed s :=
  Utf16.encode_decodeLossy_iff s

theorem decodeUnit_ne_bom {u : UInt16} (other : u ≠ 0xFEFF) : Utf16.decodeUnit u ≠ '\uFEFF' := by
  intro same
  rw [Utf16.decodeUnit] at same
  split_ifs at same with surrogate
  · exact absurd same (by decide)
  · simp only [not_or, Bool.not_eq_true] at surrogate
    have units := congrArg Char.toNat same
    rw [Utf16.toNat_unit surrogate.1 surrogate.2] at units
    exact other (UInt16.toNat_inj.mp units)

theorem dropBom_decodeLossy {s : JsString} (mark : s.head? ≠ some 0xFEFF) :
    dropBom (Utf16.decodeLossy s) = Utf16.decodeLossy s := by
  have kept {c : Char} (cs : List Char) (other : c ≠ '\uFEFF') : dropBom (c :: cs) = c :: cs := by
    unfold dropBom
    split
    · rename_i same
      exact absurd (List.cons.inj same).1 other
    · rfl
  cases s with
  | nil => rfl
  | cons a s =>
    have other : a ≠ 0xFEFF := by
      rintro rfl
      exact mark rfl
    cases s with
    | nil => exact kept [] (decodeUnit_ne_bom other)
    | cons b s =>
      rw [Utf16.decodeLossy]
      split_ifs with pair
      · apply kept
        intro same
        have units := congrArg Char.toNat same
        rw [Utf16.toNat_decodePair pair.1 pair.2] at units
        have small : '\uFEFF'.toNat < 0x10000 := by decide
        omega
      · exact kept _ (decodeUnit_ne_bom other)

/-- What is encoded and decoded again, where no byte order mark stands in front. -/
theorem textDecodeLossy_textEncode {s : JsString} (mark : s.head? ≠ some 0xFEFF) :
    textDecodeLossy (textEncode s) = toWellFormed s := by
  rw [textDecodeLossy, textEncode, Utf8.decodeLossy_encode, dropBom_decodeLossy mark, toWellFormed]

theorem textEncode_ascii {s : JsString} (ascii : ∀ u ∈ s, u.toNat < 0x80) :
    textEncode s = s.map fun u => UInt8.ofNat u.toNat := by
  induction s with
  | nil => rfl
  | cons u s ih =>
    rw [List.forall_mem_cons] at ascii
    have high : Utf16.isHigh u = false := by
      simp only [Utf16.isHigh, Bool.and_eq_false_iff, decide_eq_false_iff_not]
      omega
    have low : Utf16.isLow u = false := by
      simp only [Utf16.isLow, Bool.and_eq_false_iff, decide_eq_false_iff_not]
      omega
    have toNat := Utf16.toNat_unit high low
    have one : String.utf8EncodeChar (Utf16.decodeUnit u) = [UInt8.ofNat u.toNat] := by
      rw [Utf16.decodeUnit, high, low, if_neg (by decide), Utf8.utf8EncodeChar_ascii (by omega),
        toNat]
    rw [textEncode, Utf16.decodeLossy_single high, Utf8.encode, List.flatMap_cons, one,
      List.map_cons, ← ih ascii.2]
    rfl

end Qev.Js
