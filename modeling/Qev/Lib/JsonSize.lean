import Qev.Lib.JsObject
import Qev.Lib.JsonUnambiguous

/-! How long JSON text is: no text in a value is as long as the text that it was read
from, and what strings and their quotes take of the encoded text. -/

namespace Qev

namespace Json

variable {σ ν χ : Type}

mutual
theorem Within.mono {P Q : σ → Prop} {N : ν → Prop} (le : ∀ s, P s → Q s) :
    ∀ v : Json σ ν, Within P N v → Within Q N v
  | null, _ | bool _, _ => trivial
  | num _, h => h
  | str s, h => le s h
  | arr items, h => WithinItems.mono le items h
  | obj fields, h => WithinFields.mono le fields h
theorem WithinItems.mono {P Q : σ → Prop} {N : ν → Prop} (le : ∀ s, P s → Q s) :
    ∀ items : List (Json σ ν), WithinItems P N items → WithinItems Q N items
  | [], _ => trivial
  | x :: xs, h => ⟨Within.mono le x h.1, WithinItems.mono le xs h.2⟩
theorem WithinFields.mono {P Q : σ → Prop} {N : ν → Prop} (le : ∀ s, P s → Q s) :
    ∀ fields : List (σ × Json σ ν), WithinFields P N fields → WithinFields Q N fields
  | [], _ => trivial
  | (k, v) :: es, h => ⟨le k h.1, Within.mono le v h.2.1, WithinFields.mono le es h.2.2⟩
end

variable [DecidableEq χ] {f : Format σ ν χ} {size : σ → Nat}

/-- Strings and keys are shorter than this. -/
def Below (size : σ → Nat) (n : Nat) : Json σ ν → Prop := Within (size · < n) fun _ => True

theorem Below.mono {m n : Nat} (le : m ≤ n) {v : Json σ ν} (h : Below size m v) : Below size n v :=
  Within.mono (fun _ lt => Nat.lt_of_lt_of_le lt le) v h

theorem expect_length {α : Type} {w input rest : List χ} {x y : α}
    (h : expect w x input = some (y, rest)) : y = x ∧ rest.length ≤ input.length := by
  rw [expect] at h
  split at h
  · cases h
    refine ⟨rfl, ?_⟩
    rw [List.length_drop]
    omega
  · cases h

/-- What is read with this fuel is below what it is read from, and what is left is no
longer. -/
def ValueBelow (f : Format σ ν χ) (size : σ → Nat) (fuel : Nat) : Prop :=
  ∀ input v rest, read f fuel input = some (v, rest) →
    rest.length ≤ input.length ∧ Below size input.length v

def ItemsBelow (f : Format σ ν χ) (size : σ → Nat) (fuel : Nat) : Prop :=
  ∀ input items rest, readItems f fuel input = some (items, rest) →
    rest.length ≤ input.length ∧ WithinItems (size · < input.length) (fun _ => True) items

def FieldsBelow (f : Format σ ν χ) (size : σ → Nat) (fuel : Nat) : Prop :=
  ∀ input fields rest, readFields f fuel input = some (fields, rest) →
    rest.length ≤ input.length ∧ WithinFields (size · < input.length) (fun _ => True) fields

section below

variable (quotes : ∀ input s rest, f.readQuote input = some (s, rest) →
    size s + rest.length < input.length)
  (numbers : ∀ input n rest, f.readNumber input = some (n, rest) → rest.length ≤ input.length)
include quotes

include numbers in
theorem read_value_below {fuel : Nat} (items : ItemsBelow f size fuel)
    (fields : FieldsBelow f size fuel) : ValueBelow f size (fuel + 1) := by
  intro input v rest h
  cases input with
  | nil =>
    rw [read] at h
    · cases h
    · exact Nat.succ_ne_zero fuel
  | cons c tail =>
    have word {w : List χ} {x : Json σ ν} (h : expect w x (c :: tail) = some (v, rest))
        (plain : Below size (tail.length + 1) x) :
        rest.length ≤ tail.length + 1 ∧ Below size (tail.length + 1) v := by
      obtain ⟨rfl, le⟩ := expect_length h
      exact ⟨le, plain⟩
    have empty {x : Json σ ν} (h : some (x, tail.tail) = some (v, rest))
        (plain : Below size (tail.length + 1) x) :
        rest.length ≤ tail.length + 1 ∧ Below size (tail.length + 1) v := by
      cases h
      exact ⟨by rw [List.length_tail]; omega, plain⟩
    rw [List.length_cons]
    rw [read] at h
    split_ifs at h
    · exact empty h trivial
    · obtain ⟨⟨xs, rest'⟩, found, same⟩ := Option.map_eq_some_iff.mp h
      cases same
      obtain ⟨le, below⟩ := items _ _ _ found
      refine ⟨le.trans (Nat.le_succ _), ?_⟩
      exact WithinItems.mono (fun _ lt => Nat.lt_succ_of_lt lt) xs below
    · exact empty h trivial
    · obtain ⟨⟨es, rest'⟩, found, same⟩ := Option.map_eq_some_iff.mp h
      cases same
      obtain ⟨le, below⟩ := fields _ _ _ found
      refine ⟨le.trans (Nat.le_succ _), ?_⟩
      exact WithinFields.mono (fun _ lt => Nat.lt_succ_of_lt lt) es below
    · obtain ⟨⟨s, rest'⟩, found, same⟩ := Option.map_eq_some_iff.mp h
      cases same
      have lt := quotes _ _ _ found
      rw [List.length_cons] at lt
      exact ⟨by omega, show size s < _ by omega⟩
    · exact word h trivial
    · exact word h trivial
    · exact word h trivial
    · obtain ⟨⟨n, rest'⟩, found, same⟩ := Option.map_eq_some_iff.mp h
      cases same
      exact ⟨numbers _ _ _ found, trivial⟩

omit quotes in
theorem readItems_below {fuel : Nat} (value : ValueBelow f size fuel)
    (items : ItemsBelow f size fuel) : ItemsBelow f size (fuel + 1) := by
  intro input xs rest h
  rw [readItems] at h
  split at h
  · cases h
  · cases h
  · rename_i x c tail found
    obtain ⟨le, below⟩ := value _ _ _ found
    rw [List.length_cons] at le
    split_ifs at h
    · obtain ⟨⟨ys, rest'⟩, later, same⟩ := Option.map_eq_some_iff.mp h
      cases same
      obtain ⟨le', below'⟩ := items _ _ _ later
      refine ⟨by omega, below, ?_⟩
      exact WithinItems.mono (fun _ lt => by omega) ys below'
    · cases h
      exact ⟨by omega, below, trivial⟩

theorem readFields_below {fuel : Nat} (value : ValueBelow f size fuel)
    (fields : FieldsBelow f size fuel) : FieldsBelow f size (fuel + 1) := by
  intro input es rest h
  rw [readFields] at h
  split at h
  · cases h
  · cases h
  · rename_i k colon tail key
    have lt := quotes _ _ _ key
    rw [List.length_cons] at lt
    split_ifs at h
    split at h
    · cases h
    · cases h
    · rename_i v c tail' found
      obtain ⟨le, below⟩ := value _ _ _ found
      rw [List.length_cons] at le
      have name : size k < input.length := by omega
      have inside := below.mono (show tail.length ≤ input.length by omega)
      split_ifs at h
      · obtain ⟨⟨ds, rest'⟩, later, same⟩ := Option.map_eq_some_iff.mp h
        cases same
        obtain ⟨le', below'⟩ := fields _ _ _ later
        refine ⟨by omega, name, inside, ?_⟩
        exact WithinFields.mono (fun _ lt => by omega) ds below'
      · cases h
        exact ⟨by omega, name, inside, trivial⟩

include numbers in
theorem read_below (fuel : Nat) :
    ValueBelow f size fuel ∧ ItemsBelow f size fuel ∧ FieldsBelow f size fuel := by
  induction fuel with
  | zero =>
    refine ⟨?_, ?_, ?_⟩
    · intro input v rest h
      rw [read] at h
      cases h
    · intro input items rest h
      rw [readItems] at h
      cases h
    · intro input fields rest h
      rw [readFields] at h
      cases h
  | succ fuel ih =>
    obtain ⟨value, items, fields⟩ := ih
    exact ⟨read_value_below quotes numbers items fields, readItems_below value items,
      readFields_below quotes value fields⟩

end below

end Json

namespace Codec

/-- Where each item takes something of the input, there are fewer of them. -/
theorem readUntil_length {α β : Type} [DecidableEq β] {stop : β}
    {read : List β → Option (α × List β)}
    (shorter : ∀ input x rest, read input = some (x, rest) → rest.length < input.length)
    {fuel : Nat} {input rest : List β} {xs : List α}
    (h : readUntil stop read fuel input = some (xs, rest)) :
    xs.length + rest.length < input.length := by
  induction fuel generalizing input xs with
  | zero =>
    rw [readUntil] at h
    cases h
  | succ fuel ih =>
    cases input with
    | nil =>
      rw [readUntil] at h
      · cases h
      · exact Nat.succ_ne_zero fuel
    | cons b bs =>
      rw [readUntil] at h
      split at h
      · cases h
        rw [List.length_nil, List.length_cons]
        omega
      · split at h
        · cases h
        · rename_i x left one
          obtain ⟨⟨ys, rest'⟩, later, same⟩ := Option.map_eq_some_iff.mp h
          cases same
          have less := shorter _ _ _ one
          have lt := ih later
          rw [List.length_cons] at less ⊢
          rw [List.length_cons]
          omega

end Codec

namespace Js

theorem readEscape_length {input rest : JsString} {u : UInt16}
    (h : readEscape input = some (u, rest)) : rest.length < input.length := by
  cases input with
  | nil => cases h
  | cons e tail =>
    unfold readEscape at h
    dsimp only at h
    have one {v : UInt16} (h : some (v, tail) = some (u, rest)) :
        rest.length < tail.length + 1 := by
      cases h
      exact Nat.lt_succ_self _
    split_ifs at h
    · exact one h
    · exact one h
    · exact one h
    · exact one h
    · exact one h
    · exact one h
    · split at h
      · rename_i a b c d left
        obtain ⟨v, -, same⟩ := Option.map_eq_some_iff.mp h
        cases same
        simp only [List.length_cons]
        omega
      · cases h

theorem readUnit_length (input : JsString) (u : UInt16) (rest : JsString)
    (h : readUnit input = some (u, rest)) : rest.length < input.length := by
  cases input with
  | nil => cases h
  | cons v tail =>
    rw [readUnit] at h
    split_ifs at h
    · exact (readEscape_length h).trans (Nat.lt_succ_self _)
    · cases h
      exact Nat.lt_succ_self _

theorem readQuote_length (input s rest : JsString) (h : readQuote input = some (s, rest)) :
    s.length + rest.length < input.length := by
  cases input with
  | nil => cases h
  | cons u tail =>
    rw [readQuote] at h
    split_ifs at h
    exact (Codec.readUntil_length readUnit_length h).trans (Nat.lt_succ_self _)

theorem readNumber_length (input : JsString) (x : Double) (rest : JsString)
    (h : readNumber input = some (x, rest)) : rest.length ≤ input.length := by
  obtain ⟨y, -, same⟩ := Option.map_eq_some_iff.mp h
  cases same
  exact (List.dropWhile_sublist _).length_le

theorem strip_length {place : Place} {text out : JsString} (h : strip place text = some out) :
    out.length ≤ text.length := by
  induction text generalizing place out with
  | nil =>
    rw [strip] at h
    cases h
    exact Nat.le_refl 0
  | cons u text ih =>
    have kept {place : Place} (h : (strip place text).map (u :: ·) = some out) :
        out.length ≤ (u :: text).length := by
      obtain ⟨later, stripped, rfl⟩ := Option.map_eq_some_iff.mp h
      exact Nat.succ_le_succ (ih stripped)
    cases place with
    | outside word gap =>
      rw [strip] at h
      split_ifs at h
      · exact (ih h).trans (Nat.le_succ _)
      · exact kept h
      · exact kept h
      · exact kept h
    | inside =>
      rw [strip] at h
      split_ifs at h
      · exact kept h
      · exact kept h
      · exact kept h
    | escaped =>
      rw [strip] at h
      exact kept h

mutual
theorem below_objects {n : Nat} : ∀ v : Value, Json.Below List.length n v →
    Json.Below List.length n (objects v)
  | .null, _ | .bool _, _ | .num _, _ => trivial
  | .str _, h => h
  | .arr items, h => below_objectsItems items h
  | .obj fields, h => by
    refine Json.withinFields_iff.mpr fun f mem => ?_
    exact Json.withinFields_iff.mp (below_objectsFields fields h) f (mem_assignAll mem)
theorem below_objectsItems {n : Nat} : ∀ items : List Value,
    Json.WithinItems (List.length · < n) (fun _ => True) items →
      Json.WithinItems (List.length · < n) (fun _ => True) (objectsItems items)
  | [], _ => trivial
  | x :: xs, h => ⟨below_objects x h.1, below_objectsItems xs h.2⟩
theorem below_objectsFields {n : Nat} : ∀ fields : List (JsString × Value),
    Json.WithinFields (List.length · < n) (fun _ => True) fields →
      Json.WithinFields (List.length · < n) (fun _ => True) (objectsFields fields)
  | [], _ => trivial
  | (_, v) :: es, h => ⟨h.1, below_objects v h.2.1, below_objectsFields es h.2.2⟩
end

theorem parseJson_below {text : JsString} {v : Value} (h : parseJson text = some v) :
    Json.Below List.length text.length v := by
  obtain ⟨w, parsed, rfl⟩ := Option.map_eq_some_iff.mp h
  apply below_objects
  obtain ⟨solid, stripped, parsed⟩ := Option.bind_eq_some_iff.mp parsed
  rw [Json.parse] at parsed
  split at parsed
  · rename_i x found
    cases parsed
    have quotes : ∀ input s rest, format.readQuote input = some (s, rest) →
        List.length s + rest.length < input.length := readQuote_length
    have below := (Json.read_below quotes readNumber_length _).1 _ _ _ found
    exact below.2.mono (strip_length stripped)
  · cases parsed

/-- A text in an object is shorter than the text of the object. -/
theorem get_str_length {text key s : JsString} {v : Value} (h : parseJson text = some v)
    (found : Json.get key v = some (.str s)) : s.length < text.length := by
  have below := parseJson_below h
  cases v with
  | obj fields =>
    obtain ⟨f, here, same⟩ := Option.map_eq_some_iff.mp found
    have inside := (Json.withinFields_iff.mp below f (List.mem_of_find?_eq_some here)).2
    rw [same] at inside
    exact inside
  | null | bool | num | str | arr => cases found

/-! ## Encoded -/

open Utf16 (WellFormed)

theorem utf8Size_basic {c : Char} (basic : c.toNat < 0x10000) : c.utf8Size ≤ 3 := by
  rw [Char.utf8Size]
  split_ifs with one two three
  · omega
  · omega
  · omega
  · exfalso
    apply three
    rw [UInt32.le_iff_toNat_le]
    exact Nat.le_of_lt_succ basic

theorem decodeUnit_basic (u : UInt16) : (Utf16.decodeUnit u).toNat < 0x10000 := by
  rw [Utf16.decodeUnit]
  split
  · decide
  · rename_i plain
    rw [not_or, Bool.not_eq_true, Bool.not_eq_true] at plain
    rw [Utf16.toNat_unit plain.1 plain.2]
    exact u.toNat_lt

/-- Three bytes for a unit, at the most. -/
theorem length_textEncode_le (s : JsString) : (textEncode s).length ≤ 3 * s.length := by
  rw [textEncode, Utf8.encode]
  fun_induction Utf16.decodeLossy s with
  | case1 a b rest pair ih =>
    rw [List.flatMap_cons, List.length_append, String.length_utf8EncodeChar]
    have four := Char.utf8Size_le_four (Utf16.decodePair a b)
    simp only [List.length_cons]
    omega
  | case2 a b rest alone ih =>
    rw [List.flatMap_cons, List.length_append, String.length_utf8EncodeChar]
    have three := utf8Size_basic (decodeUnit_basic a)
    simp only [List.length_cons] at ih ⊢
    omega
  | case3 a =>
    rw [List.flatMap_cons, List.length_append, String.length_utf8EncodeChar]
    exact utf8Size_basic (decodeUnit_basic a)
  | case4 => exact Nat.le_refl 0

theorem textEncode_append {s : JsString} (wf : WellFormed s) (t : JsString) :
    textEncode (s ++ t) = textEncode s ++ textEncode t := by
  obtain ⟨cs, rfl⟩ := wf
  rw [textEncode, Utf16.decodeLossy_encode_append, textEncode, Utf16.decodeLossy_encode, textEncode,
    Utf8.encode, Utf8.encode, Utf8.encode, List.flatMap_append]

theorem hexDigit_lt {n : Nat} (h : n < 16) : (hexDigit n).toNat < 0x80 := by
  interval_cases n <;> decide

theorem length_textEncode_quoteUnit (u : UInt16) : (textEncode (quoteUnit u)).length ≤ 6 := by
  have short {s : JsString} (two : s.length ≤ 2) : (textEncode s).length ≤ 6 := by
    have three := length_textEncode_le s
    omega
  unfold quoteUnit
  split_ifs
  · exact short (Nat.le_refl 2)
  · exact short (Nat.le_refl 2)
  · exact short (Nat.le_refl 2)
  · exact short (Nat.le_refl 2)
  · exact short (Nat.le_refl 2)
  · exact short (Nat.le_refl 2)
  · exact short (Nat.le_refl 2)
  · have bound := u.toNat_lt
    have ascii : ∀ x ∈ unicodeEscape u, x.toNat < 0x80 := by
      simp only [unicodeEscape, List.forall_mem_cons]
      exact ⟨by decide, by decide, hexDigit_lt (by omega), hexDigit_lt (by omega),
        hexDigit_lt (by omega), hexDigit_lt (by omega), List.forall_mem_nil _⟩
    rw [textEncode_ascii ascii, List.length_map]
    exact Nat.le_refl 6
  · exact short (Nat.le_succ 1)

theorem wellFormed_quoteUnits (s : JsString) : WellFormed (quoteUnits s) := by
  fun_induction quoteUnits s with
  | case1 a b s pair ih => exact (WellFormed.pair pair.1 pair.2).append ih
  | case2 a b s alone ih => exact (wellFormed_quoteUnit a).append ih
  | case3 a => exact wellFormed_quoteUnit a
  | case4 => exact .nil

theorem length_textEncode_quoteUnits (s : JsString) :
    (textEncode (quoteUnits s)).length ≤ 6 * s.length := by
  fun_induction quoteUnits s with
  | case1 a b s pair ih =>
    have two := length_textEncode_le [a, b]
    have split : a :: b :: quoteUnits s = [a, b] ++ quoteUnits s := rfl
    rw [split, textEncode_append (WellFormed.pair pair.1 pair.2), List.length_append]
    simp only [List.length_cons, List.length_nil] at two ⊢
    omega
  | case2 a b s alone ih =>
    have one := length_textEncode_quoteUnit a
    rw [textEncode_append (wellFormed_quoteUnit a), List.length_append]
    simp only [List.length_cons] at ih ⊢
    omega
  | case3 a => exact length_textEncode_quoteUnit a
  | case4 => exact Nat.le_refl 0

/-- Six bytes for a unit, where each has to be escaped, and the quotes. -/
theorem length_textEncode_quote (s : JsString) :
    (textEncode (quote s)).length ≤ 6 * s.length + 2 := by
  have units := length_textEncode_quoteUnits s
  have mark : textEncode [0x22] = [0x22] := rfl
  have whole : quote s = [0x22] ++ (quoteUnits s ++ [0x22]) := rfl
  rw [whole, textEncode_append (wellFormed_small (by decide)),
    textEncode_append (wellFormed_quoteUnits s), mark, List.length_append, List.length_append]
  simp only [List.length_cons, List.length_nil]
  omega

/-- Text in which nothing has to be escaped, not even in pairs. -/
theorem quote_plain {s : JsString}
    (plain : ∀ u ∈ s, 0x20 ≤ u.toNat ∧ u.toNat < 0x80 ∧ u ≠ 0x22 ∧ u ≠ 0x5C) :
    quote s = 0x22 :: s ++ [0x22] := by
  have each (u : UInt16) (h : 0x20 ≤ u.toNat ∧ u.toNat < 0x80 ∧ u ≠ 0x22 ∧ u ≠ 0x5C) :
      quoteUnit u = [u] := by
    obtain ⟨low, high, mark, slash⟩ := h
    have other (v : UInt16) (control : v.toNat < 0x20) : u ≠ v := by
      rintro rfl
      omega
    have kept : ¬ (u.toNat < 0x20 ∨ Utf16.isHigh u ∨ Utf16.isLow u) := by
      simp only [Utf16.isHigh, Utf16.isLow, Bool.and_eq_true, decide_eq_true_eq]
      omega
    rw [quoteUnit, if_neg mark, if_neg slash, if_neg (other _ (by decide)),
      if_neg (other _ (by decide)), if_neg (other _ (by decide)), if_neg (other _ (by decide)),
      if_neg (other _ (by decide)), if_neg kept]
  have units : quoteUnits s = s := by
    fun_induction quoteUnits s with
    | case1 a b s pair ih =>
      rw [List.forall_mem_cons, List.forall_mem_cons] at plain
      rw [ih plain.2.2]
    | case2 a b s alone ih =>
      rw [List.forall_mem_cons] at plain
      rw [ih plain.2, each a plain.1]
      rfl
    | case3 a => exact each a (plain a (List.mem_singleton_self a))
    | case4 => rfl
  rw [quote, units]

end Js

end Qev
